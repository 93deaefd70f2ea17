import Runix.Proofs.Ledger

namespace Runix

open Lib (Place Custody)

namespace Machine

variable {m m' : Machine} {act : Action} {w w' : Nat → Place (Fin maxTasks)}
  {sent sent' : Message → TaskId → Prop}

structure Holds (m : Machine) (w : Nat → Place (Fin maxTasks)) (i : Fin maxTasks) (a : SendArgs) :
    Prop where
  place : w a.call = .parked i
  mailbox : m.sched.mailbox i = some (a.message i)

def Carries (m : Machine) (w : Nat → Place (Fin maxTasks)) (i : Fin maxTasks) : Pc → Prop
  | .send a | .sendGone a => w a.call = .nowhere ∨ m.Holds w i a
  | .sendAsync a => w a.call = .nowhere
  | .sendWait a | .sendCheck a =>
    m.Holds w i a ∨ ((∃ r, w a.call = .received r) ∧ m.sched.mailbox i = none)
  | _ => True

/-- The ledger of messages that may be lost. `sent` is what the send calls have
addressed so far, and everything waiting or received has been addressed to the
task that has it. -/
structure Carried (m : Machine) (w : Nat → Place (Fin maxTasks)) (sent : Message → TaskId → Prop) :
    Prop where
  lossy : Custody False m.mail w
  fresh : ∀ n, m.calls ≤ n → w n = .nowhere
  control : ∀ i, m.Carries w i (m.pc i)
  own : ∀ i msg, m.sched.mailbox i = some msg → w msg.call = .parked i →
    (m.pc i).call = some msg.call ∨ m.pc i = .dead
  queued : ∀ i msg, msg ∈ m.sched.queued i → sent msg i
  deposited : ∀ i msg, m.sched.mailbox i = some msg → w msg.call = .deposited i → sent msg i
  parked : ∀ i msg, m.sched.mailbox i = some msg → w msg.call = .parked i → ∃ r, sent msg r
  received : ∀ (i : Fin maxTasks) msg, .receiveReturned i (.ok msg) ∈ m.trace → sent msg i

section Frame
variable {i k : Fin maxTasks} {n : Nat} {p : Pc}

theorem Carries.congr (h : m.Carries w k p) (hb : m'.sched.mailbox k = m.sched.mailbox k)
    (hw : ∀ a, p.args = some a → w' a.call = w a.call) : m'.Carries w' k p := by
  have holds : ∀ a, p.args = some a → m.Holds w k a → m'.Holds w' k a :=
    fun a ha hh => ⟨(hw a ha).trans hh.place, hb.trans hh.mailbox⟩
  cases p with
  | send a | sendGone a => exact h.imp ((hw a rfl).trans ·) (holds a rfl)
  | sendAsync a => exact (hw a rfl).trans h
  | sendWait a | sendCheck a =>
    refine h.imp (holds a rfl) (fun hr => ⟨?_, hb.trans hr.2⟩)
    obtain ⟨r, hr⟩ := hr.1
    exact ⟨r, (hw a rfl).trans hr⟩
  | user | receive | receiveWait | receiveAsync | dead => trivial

/-- A message that waits for somebody is not that of a call under way. -/
theorem Carries.accepted (h : m.Carries w k p) (hn : w n = .queued i ∨ w n = .deposited i)
    (q : Place (Fin maxTasks)) (hb : m'.sched.mailbox k = m.sched.mailbox k) :
    m'.Carries (Function.update w n q) k p := by
  have hne : ∀ {c} {q' : Place (Fin maxTasks)}, w c = q' → q' ≠ .queued i → q' ≠ .deposited i →
      Function.update w n q c = w c := by
    intro c q' hc hq hd
    refine Function.update_of_ne ?_ ..
    rintro rfl
    rcases hn with hn | hn
    · exact hq (hc.symm.trans hn)
    · exact hd (hc.symm.trans hn)
  have holds : ∀ a, m.Holds w k a → m'.Holds (Function.update w n q) k a :=
    fun a hh => ⟨(hne hh.place (by simp) (by simp)).trans hh.place, hb.trans hh.mailbox⟩
  cases p with
  | send a | sendGone a => exact h.imp (fun hw => (hne hw (by simp) (by simp)).trans hw) (holds a)
  | sendAsync a => exact (hne h (by simp) (by simp)).trans h
  | sendWait a | sendCheck a =>
    refine h.imp (holds a) (fun hr => ⟨?_, hb.trans hr.2⟩)
    obtain ⟨r, hr⟩ := hr.1
    exact ⟨r, (hne hr (by simp) (by simp)).trans hr⟩
  | user | receive | receiveWait | receiveAsync | dead => trivial

/-- The message of the call of task `i` moves; the other calls do not see it. -/
theorem Carries.entered (h : m.Carries w k (m.pc k)) (hn : m.Numbered) (hk : k ≠ i)
    (hp : (m.pc i).call = some n) (q : Place (Fin maxTasks))
    (hb : m'.sched.mailbox k = m.sched.mailbox k) :
    m'.Carries (Function.update w n q) k (m.pc k) := by
  refine h.congr hb (fun a ha => Function.update_of_ne ?_ ..)
  rintro rfl
  exact hk (hn.owner k i a.call (by simp [Pc.call, ha]) hp)

theorem carries_update (hpc : m'.pc = Function.update m.pc i p) (hself : m'.Carries w' i p)
    (hother : ∀ k, k ≠ i → m'.Carries w' k (m.pc k)) (k : Fin maxTasks) :
    m'.Carries w' k (m'.pc k) := by
  rw [hpc, Function.update_apply]
  split
  · rename_i hk
    exact hk ▸ hself
  · rename_i hk
    exact hother k hk

theorem countP_receipt_eq_zero {evs : List Event}
    (h : ∀ k msg, .receiveReturned k (.ok msg) ∉ evs) (k : Fin maxTasks) (n : Nat) :
    evs.countP (Event.isReceipt k n) = 0 := by
  rw [List.countP_eq_zero]
  intro e he hr
  cases e with
  | receiveReturned j res =>
    cases res with
    | ok msg => exact h j msg he
    | error => cases hr
  | sendReturned | delivered => cases hr

/-- A step in which no message moves, though some may be lost. -/
theorem Carried.loses (h : m.Carried w sent) (hmono : ∀ msg r, sent msg r → sent' msg r)
    (hpc : m'.pc = Function.update m.pc i p) (hcalls : m.calls ≤ m'.calls)
    (hq : ∀ k, m'.sched.queued k = m.sched.queued k ∨ m'.sched.queued k = [])
    (hb : ∀ k, m'.sched.mailbox k = m.sched.mailbox k ∨ k = i ∧ m'.sched.mailbox k = none)
    (evs : List Event) (htr : m'.trace = evs ++ m.trace)
    (hev : ∀ k msg, .receiveReturned k (.ok msg) ∉ evs) (hself : m'.Carries w i p)
    (hown : ∀ msg, m'.sched.mailbox i = some msg → w msg.call = .parked i →
      p.call = some msg.call ∨ p = .dead) : m'.Carried w sent' := by
  have hbox : ∀ k msg, m'.sched.mailbox k = some msg → m.sched.mailbox k = some msg := by
    intro k msg hk
    rcases hb k with heq | ⟨_, hnone⟩
    · exact heq ▸ hk
    · cases hnone.symm.trans hk
  have hsame : ∀ k, k ≠ i → m'.sched.mailbox k = m.sched.mailbox k :=
    fun k hk => (hb k).resolve_right (fun hi => hk hi.1)
  refine ⟨h.lossy.drop (fun k c => ?_) (fun k c hk => ?_) ?_, fun n hn => h.fresh n (hcalls.trans hn),
    carries_update hpc hself (fun k hk => (h.control k).congr (hsame k hk) (fun _ _ => rfl)),
    fun k msg hk hw => ?_, fun k msg hk => ?_, fun k msg hk hw => ?_, fun k msg hk hw => ?_,
    fun k msg hk => ?_⟩
  · simp only [mail]
    rcases hq k with heq | hnil
    · rw [heq]
    · simp [hnil]
  · obtain ⟨msg, hmsg, rfl⟩ := Option.map_eq_some_iff.mp hk
    simp [mail, hbox k msg hmsg]
  · exact mail_receipts_eq evs htr (countP_receipt_eq_zero hev)
  · rw [hpc, Function.update_apply]
    split
    · rename_i hki
      subst hki
      exact hown msg hk hw
    · exact h.own k msg (hbox k msg hk) hw
  · rcases hq k with heq | hnil
    · exact hmono _ _ (h.queued k msg (heq ▸ hk))
    · rw [hnil] at hk
      cases hk
  · exact hmono _ _ (h.deposited k msg (hbox k msg hk) hw)
  · obtain ⟨r, hr⟩ := h.parked k msg (hbox k msg hk) hw
    exact ⟨r, hmono _ _ hr⟩
  · rw [htr] at hk
    rcases List.mem_append.mp hk with hnew | hold
    · exact absurd hnew (hev k msg)
    · exact hmono _ _ (h.received k msg hold)

/-- All messages stay where they are. -/
theorem Carried.quiet (h : m.Carried w sent) (hmono : ∀ msg r, sent msg r → sent' msg r)
    (hq : m'.sched.queued = m.sched.queued) (hb : m'.sched.mailbox = m.sched.mailbox)
    (hpc : m'.pc = Function.update m.pc i p) (hcalls : m.calls ≤ m'.calls) (evs : List Event)
    (htr : m'.trace = evs ++ m.trace) (hev : ∀ k msg, .receiveReturned k (.ok msg) ∉ evs)
    (hself : m.Carries w i p)
    (hown : ∀ msg, m.sched.mailbox i = some msg → w msg.call = .parked i →
      p.call = some msg.call ∨ p = .dead) : m'.Carried w sent' :=
  h.loses hmono hpc hcalls (fun k => .inl (congrFun hq k)) (fun k => .inl (congrFun hb k)) evs htr
    hev (hself.congr (congrFun hb i) (fun _ _ => rfl)) (fun msg hk => hown msg (hb ▸ hk))

/-- The buffer of task `i`, and perhaps its queue, is emptied. -/
theorem Carried.cleared (h : m.Carried w sent) (hmono : ∀ msg r, sent msg r → sent' msg r)
    (hq : m'.sched.queued = m.sched.queued ∨ m'.sched.queued = Function.update m.sched.queued i [])
    (hb : m'.sched.mailbox = Function.update m.sched.mailbox i none)
    (hpc : m'.pc = Function.update m.pc i .user) (hcalls : m.calls ≤ m'.calls) (evs : List Event)
    (htr : m'.trace = evs ++ m.trace) (hev : ∀ k msg, .receiveReturned k (.ok msg) ∉ evs) :
    m'.Carried w sent' := by
  refine h.loses hmono hpc hcalls (fun k => ?_) (fun k => ?_) evs htr hev trivial (fun msg hk => ?_)
  · rcases hq with hq | hq
    · exact .inl (congrFun hq k)
    · rw [hq, Function.update_apply]
      split
      · exact .inr rfl
      · exact .inl rfl
  · rw [hb, Function.update_apply]
    split
    · exact .inr ⟨by assumption, rfl⟩
    · exact .inl rfl
  · rw [hb, Function.update_self] at hk
    cases hk

end Frame

/-- More may have been addressed. -/
theorem Carried.mono (h : m.Carried w sent) (hmono : ∀ msg r, sent msg r → sent' msg r)
    (hs : m'.sched = m.sched) (hpc : m'.pc = m.pc) (hcalls : m'.calls = m.calls)
    (htr : m'.trace = m.trace) : m'.Carried w sent' :=
  h.quiet hmono (i := ⟨0, Nat.zero_lt_succ _⟩) (by rw [hs]) (by rw [hs])
    (hpc.trans (Function.update_eq_self ..).symm) (le_of_eq hcalls.symm) [] htr (by simp)
    (h.control _) (h.own _)

/-- A task outside a send call has no copy of its own in its buffer. -/
theorem Carried.no_own (h : m.Carried w sent) {i : Fin maxTasks} (hp : (m.pc i).call = none)
    (hlive : m.pc i ≠ .dead) {msg : Message} (hb : m.sched.mailbox i = some msg) :
    w msg.call ≠ .parked i := by
  intro hw
  rcases h.own i msg hb hw with hc | hc
  · cases hp.symm.trans hc
  · exact hlive hc

/-- What has been received has its place with the receiver, and what is queued
with the owner of the queue. -/
theorem Carried.received_place (h : m.Carried w sent) {i : Fin maxTasks} {msg : Message}
    (hmem : .receiveReturned i (.ok msg) ∈ m.trace) : w msg.call = .received i := by
  have hcount := h.lossy.receipts i msg.call
  have hpos : 0 < m.trace.countP (Event.isReceipt i msg.call) :=
    List.countP_pos_iff.mpr ⟨_, hmem, by simp [Event.isReceipt]⟩
  simp only [mail] at hcount
  by_contra hne
  rw [hcount, if_neg hne] at hpos
  exact absurd hpos (lt_irrefl 0)

theorem Carried.queued_place (h : m.Carried w sent) {i : Fin maxTasks} {msg : Message}
    (hmem : msg ∈ m.sched.queued i) : w msg.call = .queued i := by
  have hcount := h.lossy.queue i msg.call
  have hpos : 0 < (m.sched.queued i).countP (fun x => x.call = msg.call) :=
    List.countP_pos_iff.mpr ⟨_, hmem, by simp⟩
  simp only [mail] at hcount
  by_contra hne
  rw [if_neg hne] at hcount
  exact absurd (hpos.trans_le hcount) (lt_irrefl 0)

theorem Carries.paused {i : Fin maxTasks} {p p' : Pc} (h : m.Carries w i p) (hp : Paused p p') :
    m.Carries w i p' := by
  cases hp with
  | here => exact h
  | send a => exact h
  | receive => trivial

theorem Carried.own_paused (h : m.Carried w sent) {i : Fin maxTasks} {p : Pc}
    (hp : Paused (m.pc i) p) {msg : Message} (hb : m.sched.mailbox i = some msg)
    (hw : w msg.call = .parked i) : p.call = some msg.call ∨ p = .dead := by
  refine (h.own i msg hb hw).imp (hp.call.trans ·) (fun hdead => ?_)
  rw [hdead] at hp
  cases hp
  rfl

section Moves
variable {i j : Fin maxTasks} {t u : Task} {a : SendArgs} {n : Nat} {p : Pc}
  {q : Place (Fin maxTasks)}

/-- The frame rule of a step of task `i` that moves the message of call `n`,
which is its own call if it is in one. -/
theorem Carried.moves (h : m.Carried w sent) (hmono : ∀ msg r, sent msg r → sent' msg r)
    (hl : Custody False m'.mail (Function.update w n q)) (hn : n < m.calls) (hcalls : m'.calls = m.calls)
    (hpc : m'.pc = Function.update m.pc i p) (hi : (m.pc i).call = none ∨ (m.pc i).call = some n)
    (hlive : m.pc i ≠ .dead) (hself : m'.Carries (Function.update w n q) i p)
    (hother : ∀ k, k ≠ i → m'.Carries (Function.update w n q) k (m.pc k))
    (hbox : ∀ k msg, m'.sched.mailbox k = some msg →
      (m.sched.mailbox k = some msg ∧ msg.call ≠ n) ∨ (msg.call = n ∧ q = .deposited k ∧ sent' msg k) ∨
        (msg.call = n ∧ q = .parked k ∧ (m'.pc k).call = some n ∧ ∃ r, sent' msg r))
    (hqueue : ∀ k msg, msg ∈ m'.sched.queued k → msg ∈ m.sched.queued k ∨ sent' msg k)
    (hrec : ∀ (k : Fin maxTasks) msg, .receiveReturned k (.ok msg) ∈ m'.trace →
      .receiveReturned k (.ok msg) ∈ m.trace ∨ sent' msg k) :
    m'.Carried (Function.update w n q) sent' where
  lossy := hl
  fresh c hc := by
    rw [Function.update_of_ne (by omega)]
    exact h.fresh c (hcalls ▸ hc)
  control := carries_update hpc hself hother
  own k msg hk hw := by
    rcases hbox k msg hk with ⟨hold, hne⟩ | ⟨rfl, rfl, _⟩ | ⟨rfl, _, hown, _⟩
    · rw [Function.update_of_ne hne] at hw
      have hown := h.own k msg hold hw
      have hki : k ≠ i := by
        rintro rfl
        rcases hown with hc | hc
        · rcases hi with hi | hi
          · cases hi.symm.trans hc
          · exact hne (Option.some.inj (hc.symm.trans hi))
        · exact hlive hc
      rw [hpc, Function.update_of_ne hki]
      exact hown
    · cases (Function.update_self ..).symm.trans hw
    · exact .inl hown
  queued k msg hk := by
    rcases hqueue k msg hk with hold | hnew
    · exact hmono _ _ (h.queued k msg hold)
    · exact hnew
  deposited k msg hk hw := by
    rcases hbox k msg hk with ⟨hold, hne⟩ | ⟨_, _, hsent⟩ | ⟨rfl, rfl, _⟩
    · rw [Function.update_of_ne hne] at hw
      exact hmono _ _ (h.deposited k msg hold hw)
    · exact hsent
    · cases (Function.update_self ..).symm.trans hw
  parked k msg hk hw := by
    rcases hbox k msg hk with ⟨hold, hne⟩ | ⟨rfl, rfl, _⟩ | ⟨_, _, _, hsent⟩
    · rw [Function.update_of_ne hne] at hw
      obtain ⟨r, hr⟩ := h.parked k msg hold hw
      exact ⟨r, hmono _ _ hr⟩
    · cases (Function.update_self ..).symm.trans hw
    · exact hsent
  received k msg hk := by
    rcases hrec k msg hk with hold | hnew
    · exact hmono _ _ (h.received k msg hold)
    · exact hnew

/-- The message of a call that is nowhere, or parked by task `i`, is in no other
buffer. -/
theorem Carried.not_elsewhere (h : m.Carried w sent) (hw : w n = .nowhere ∨ w n = .parked i)
    {k : Fin maxTasks} (hk : k ≠ i ∨ w n = .nowhere) {msg : Message}
    (hb : m.sched.mailbox k = some msg) : msg.call ≠ n := by
  rintro rfl
  have hplace := h.lossy.buffer k msg.call (by simp [mail, hb])
  grind

theorem Carried.nowhere_of_async (h : m.Carried w sent) (hp : m.pc i = .sendAsync a) :
    w a.call = .nowhere := by
  have := h.control i
  rwa [hp] at this

/-- A parked sender whose buffer is not empty has its own message there. -/
theorem Carried.holds_of_waiting (h : m.Carried w sent)
    (hp : m.pc i = .sendWait a ∨ m.pc i = .sendCheck a) (hb : m.sched.mailbox i ≠ none) :
    m.Holds w i a := by
  have hwait := h.control i
  rcases hp with hp | hp <;> rw [hp] at hwait <;> exact hwait.resolve_right (fun hr => hb hr.2)

/-- The buffer of a sender holds no message of a call that is nowhere. -/
theorem Carried.not_own (h : m.Carried w sent) (hp : (m.pc i).call = some n) (hw : w n = .nowhere)
    (msg : Message) (hb : m.sched.mailbox i = some msg) : (m.pc i).call ≠ some msg.call := by
  intro hc
  exact h.not_elsewhere (i := i) (.inl hw) (.inr hw) hb (Option.some.inj (hc.symm.trans hp))

/-- A sender parks its message, for the first time or again. -/
theorem Carried.parks (h : m.Carried w sent) (hn : m.Numbered)
    (hmono : ∀ msg r, sent msg r → sent' msg r) {r : TaskId} (hsent : sent' (a.message i) r)
    (hp : m.pc i = .send a) (hq : m'.sched.queued = m.sched.queued)
    (hb : m'.sched.mailbox = Function.update m.sched.mailbox i (some (a.message i)))
    (hpc : m'.pc = Function.update m.pc i (.sendWait a)) (hcalls : m'.calls = m.calls)
    (htr : m'.trace = m.trace) : m'.Carried (Function.update w a.call (.parked i)) sent' := by
  have hcall : (m.pc i).call = some a.call := by rw [hp]; rfl
  have hw : w a.call = .nowhere ∨ w a.call = .parked i := by
    have := h.control i
    rw [hp] at this
    exact this.imp_right Holds.place
  have hself : m'.sched.mailbox i = some (a.message i) := by rw [hb, Function.update_self]
  have hother : ∀ k, k ≠ i → m'.sched.mailbox k = m.sched.mailbox k :=
    fun k hk => by rw [hb, Function.update_of_ne hk]
  refine h.moves hmono ?_ (hn.bound i _ hcall) hcalls hpc (.inr hcall) (by simp [hp])
    (.inl ⟨Function.update_self .., hself⟩)
    (fun k hk => (h.control k).entered hn hk hcall _ (hother k hk)) (fun k msg hk => ?_)
    (fun k msg hk => .inl (hq ▸ hk)) (fun k msg hk => .inl (htr ▸ hk))
  · exact h.lossy.place_buffer _ (.inl rfl) hw False.elim (mail_queue_eq hq) (mail_buffer_set hb rfl)
      (mail_receipts_eq [] htr (fun _ _ => rfl))
  · by_cases hki : k = i
    · subst hki
      cases hself.symm.trans hk
      exact .inr (.inr ⟨rfl, rfl, by rw [hpc, Function.update_self]; rfl, r, hsent⟩)
    · rw [hother k hki] at hk
      exact .inl ⟨hk, h.not_elsewhere hw (.inl hki) hk⟩

/-- A message is deposited with a waiting receiver. -/
theorem Carried.deposits (h : m.Carried w sent) (hn : m.Numbered)
    (hmono : ∀ msg r, sent msg r → sent' msg r) (hsent : sent' (a.message i) j)
    (hp : m.pc i = .send a) (hw : w a.call = .nowhere) (hj : (m.pc j).inReceive = true)
    (hq : m'.sched.queued = m.sched.queued)
    (hb : m'.sched.mailbox = Function.update m.sched.mailbox j (some (a.message i)))
    (hpc : m'.pc = Function.update m.pc i .user) (hcalls : m'.calls = m.calls) (evs : List Event)
    (htr : m'.trace = evs ++ m.trace) (hev : ∀ k msg, .receiveReturned k (.ok msg) ∉ evs) :
    m'.Carried (Function.update w a.call (.deposited j)) sent' := by
  have hcall : (m.pc i).call = some a.call := by rw [hp]; rfl
  refine h.moves hmono ?_ (hn.bound i _ hcall) hcalls hpc (.inr hcall) (by simp [hp]) trivial
    (fun k hk => ?_) (fun k msg hk => ?_) (fun k msg hk => .inl (hq ▸ hk)) (fun k msg hk => ?_)
  · exact h.lossy.place_buffer _ (.inr rfl) (.inl hw) False.elim (mail_queue_eq hq) (mail_buffer_set hb rfl)
      (mail_receipts_eq evs htr (countP_receipt_eq_zero hev))
  · by_cases hkj : k = j
    · subst hkj
      cases hpk : m.pc k with
      | send | sendGone | sendAsync | sendWait | sendCheck =>
        rw [hpk] at hj
        cases hj
      | user | receive | receiveWait | receiveAsync | dead => trivial
    · exact (h.control k).entered hn hk hcall _ (by rw [hb, Function.update_of_ne hkj])
  · rw [hb, Function.update_apply] at hk
    split at hk
    · rename_i hkj
      subst hkj
      cases hk
      exact .inr (.inl ⟨rfl, rfl, hsent⟩)
    · exact .inl ⟨hk, h.not_elsewhere (i := i) (.inl hw) (.inr hw) hk⟩
  · rw [htr] at hk
    exact .inl ((List.mem_append.mp hk).resolve_left (hev k msg))

/-- A message is put into the queue of its target. -/
theorem Carried.enqueues (h : m.Carried w sent) (hn : m.Numbered)
    (hmono : ∀ msg r, sent msg r → sent' msg r) (hsent : sent' (a.message i) j)
    (hp : m.pc i = .sendAsync a) (hb : m'.sched.mailbox = m.sched.mailbox)
    (hq : m'.sched.queued =
      Function.update m.sched.queued j (m.sched.queued j ++ [a.message i]))
    (hpc : m'.pc = Function.update m.pc i .user) (hcalls : m'.calls = m.calls) (evs : List Event)
    (htr : m'.trace = evs ++ m.trace) (hev : ∀ k msg, .receiveReturned k (.ok msg) ∉ evs) :
    m'.Carried (Function.update w a.call (.queued j)) sent' := by
  have hcall : (m.pc i).call = some a.call := by rw [hp]; rfl
  have hw := h.nowhere_of_async hp
  refine h.moves hmono ?_ (hn.bound i _ hcall) hcalls hpc (.inr hcall) (by simp [hp]) trivial
    (fun k hk => (h.control k).entered hn hk hcall _ (by rw [hb])) (fun k msg hk => ?_)
    (fun k msg hk => ?_) (fun k msg hk => ?_)
  · refine h.lossy.enqueue hw (fun k c => ?_) (mail_buffer_eq hb)
      (mail_receipts_eq evs htr (countP_receipt_eq_zero hev))
    have hmsg : (a.message i).call = a.call := rfl
    rw [mail_queue_set hq]
    simp only [mail, List.countP_append, List.countP_cons, List.countP_nil]
    grind
  · rw [hb] at hk
    exact .inl ⟨hk, h.not_elsewhere (i := i) (.inl hw) (.inr hw) hk⟩
  · rw [hq, Function.update_apply] at hk
    split at hk
    · rename_i hkj
      subst hkj
      rcases List.mem_append.mp hk with hold | hnew
      · exact .inl hold
      · cases List.mem_singleton.mp hnew
        exact .inr hsent
    · exact .inl hk
  · rw [htr] at hk
    exact .inl ((List.mem_append.mp hk).resolve_left (hev k msg))

/-- The events of a receive that returned a message. -/
theorem mem_trace_received {msg : Message} (evs : List Event)
    (htr : m'.trace = .receiveReturned i (.ok msg) :: evs ++ m.trace)
    (hev : ∀ k msg, .receiveReturned k (.ok msg) ∉ evs) {k : Fin maxTasks} {msg' : Message}
    (hk : .receiveReturned k (.ok msg') ∈ m'.trace) :
    .receiveReturned k (.ok msg') ∈ m.trace ∨ (k = i ∧ msg' = msg) := by
  rw [htr] at hk
  rcases List.mem_append.mp hk with hnew | hold
  · rcases List.mem_cons.mp hnew with heq | hevs
    · cases heq
      exact .inr ⟨rfl, rfl⟩
    · exact absurd hevs (hev k msg')
  · exact .inl hold

theorem no_call_of_receiving (hp : m.pc i = .receive ∨ m.pc i = .receiveAsync) :
    (m.pc i).call = none ∧ m.pc i ≠ .dead := by
  rcases hp with hp | hp <;> simp [hp, Pc.call, Pc.args]

/-- A message that has a place belongs to a call that has started. -/
theorem Carried.lt_calls (h : m.Carried w sent) (hn : w n ≠ .nowhere) : n < m.calls := by
  by_contra hle
  exact hn (h.fresh n (by omega))

/-- The oldest message of the queue is received. -/
theorem Carried.dequeues (h : m.Carried w sent) (hmono : ∀ msg r, sent msg r → sent' msg r)
    (hp : m.pc i = .receive ∨ m.pc i = .receiveAsync) {msg : Message} {rest : List Message}
    (hold : m.sched.queued i = msg :: rest) (hb : m'.sched.mailbox = m.sched.mailbox)
    (hq : m'.sched.queued = Function.update m.sched.queued i rest)
    (hpc : m'.pc = Function.update m.pc i .user) (hcalls : m'.calls = m.calls)
    (htr : m'.trace = .receiveReturned i (.ok msg) :: m.trace) :
    m'.Carried (Function.update w msg.call (.received i)) sent' := by
  obtain ⟨hnone, hlive⟩ := no_call_of_receiving hp
  have hqueue : ∀ k c, m.mail.queue k c =
      m'.mail.queue k c + if k = i ∧ c = msg.call then 1 else 0 := by
    intro k c
    rw [mail_queue_set hq]
    by_cases hk : k = i
    · subst hk
      simp only [mail, hold, List.countP_cons]
      grind
    · simp [hk]
  obtain ⟨hw, hl⟩ := h.lossy.take_queue hqueue (mail_buffer_eq hb)
    (mail_receipts_received [] htr (fun _ _ => rfl))
  refine h.moves hmono hl (h.lt_calls (by simp [hw])) hcalls hpc (.inl hnone) hlive trivial
    (fun k _ => (h.control k).accepted (.inl hw) _ (by rw [hb])) (fun k msg' hk => ?_)
    (fun k msg' hk => ?_) (fun k msg' hk => ?_)
  · rw [hb] at hk
    refine .inl ⟨hk, fun hc => ?_⟩
    have hin := h.lossy.buffer k msg.call (by simp [mail, hk, hc])
    rcases hin with hin | hin <;> cases hw.symm.trans hin
  · rw [hq, Function.update_apply] at hk
    split at hk
    · rename_i hki
      subst hki
      exact .inl (by rw [hold]; exact List.mem_cons_of_mem _ hk)
    · exact .inl hk
  · refine (mem_trace_received [] htr (by simp) hk).imp_right ?_
    rintro ⟨rfl, rfl⟩
    exact hmono _ _ (h.queued k msg' (by rw [hold]; exact List.mem_cons_self))

/-- The deposited message is received. -/
theorem Carried.takes (h : m.Carried w sent) (hmono : ∀ msg r, sent msg r → sent' msg r)
    (hp : m.pc i = .receive ∨ m.pc i = .receiveAsync) {msg : Message}
    (hold : m.sched.mailbox i = some msg) (hq : m'.sched.queued = m.sched.queued)
    (hb : m'.sched.mailbox = Function.update m.sched.mailbox i none)
    (hpc : m'.pc = Function.update m.pc i .user) (hcalls : m'.calls = m.calls)
    (htr : m'.trace = .receiveReturned i (.ok msg) :: m.trace) :
    m'.Carried (Function.update w msg.call (.received i)) sent' := by
  obtain ⟨hnone, hlive⟩ := no_call_of_receiving hp
  have hbuf : m.mail.buffer i = some msg.call := by simp [mail, hold]
  have hw : w msg.call = .deposited i := by
    refine (h.lossy.buffer i msg.call hbuf).resolve_left (fun hpk => ?_)
    rcases h.own i msg hold hpk with hc | hc
    · cases hnone.symm.trans hc
    · exact hlive hc
  refine h.moves hmono ?_ (h.lt_calls (by simp [hw])) hcalls hpc (.inl hnone) hlive trivial
    (fun k hk => (h.control k).accepted (.inr hw) _ (by rw [hb, Function.update_of_ne hk]))
    (fun k msg' hk => ?_) (fun k msg' hk => .inl (hq ▸ hk)) (fun k msg' hk => ?_)
  · exact h.lossy.take_buffer hbuf (mail_queue_eq hq) (mail_buffer_set hb rfl)
      (mail_receipts_received [] htr (fun _ _ => rfl))
  · rw [hb, Function.update_apply] at hk
    split at hk
    · cases hk
    · rename_i hki
      refine .inl ⟨hk, fun hc => ?_⟩
      have hin := h.lossy.buffer k msg.call (by simp [mail, hk, hc])
      rcases hin with hin | hin
      · cases hw.symm.trans hin
      · cases hw.symm.trans hin
        exact hki rfl
  · refine (mem_trace_received [] htr (by simp) hk).imp_right ?_
    rintro ⟨rfl, rfl⟩
    exact hmono _ _ (h.deposited k msg' hold hw)

/-- The message of a blocked sender is fetched. -/
theorem Carried.fetches (h : m.Carried w sent) (hn : m.Numbered)
    (hmono : ∀ msg r, sent msg r → sent' msg r)
    (hp : m.pc i = .receive ∨ m.pc i = .receiveAsync) (hj : m.Holds w j a)
    (hpj : m.pc j = .sendWait a ∨ m.pc j = .sendCheck a) (hsent : sent (a.message j) i)
    (hq : m'.sched.queued = m.sched.queued)
    (hb : m'.sched.mailbox = Function.update m.sched.mailbox j none)
    (hpc : m'.pc = Function.update m.pc i .user) (hcalls : m'.calls = m.calls) (evs : List Event)
    (htr : m'.trace = .receiveReturned i (.ok (a.message j)) :: evs ++ m.trace)
    (hev : ∀ k msg, .receiveReturned k (.ok msg) ∉ evs) :
    m'.Carried (Function.update w a.call (.received i)) sent' := by
  obtain ⟨hnone, hlive⟩ := no_call_of_receiving hp
  have hcall : (m.pc j).call = some a.call := by rcases hpj with hpj | hpj <;> rw [hpj] <;> rfl
  refine h.moves hmono ?_ (hn.bound j _ hcall) hcalls hpc (.inl hnone) hlive trivial (fun k _ => ?_)
    (fun k msg hk => ?_) (fun k msg hk => .inl (hq ▸ hk)) (fun k msg hk => ?_)
  · exact h.lossy.take_buffer (by simp [mail, hj.mailbox, SendArgs.message]) (mail_queue_eq hq)
      (mail_buffer_set hb rfl) (mail_receipts_received evs htr (countP_receipt_eq_zero hev))
  · by_cases hkj : k = j
    · subst hkj
      have hgone : (∃ r, Function.update w a.call (.received i) a.call = .received r) ∧
          m'.sched.mailbox k = none :=
        ⟨⟨i, Function.update_self ..⟩, by rw [hb, Function.update_self]⟩
      rcases hpj with hpj | hpj <;> rw [hpj] <;> exact .inr hgone
    · exact (h.control k).entered hn hkj hcall _ (by rw [hb, Function.update_of_ne hkj])
  · rw [hb, Function.update_apply] at hk
    split at hk
    · cases hk
    · rename_i hkj
      exact .inl ⟨hk, h.not_elsewhere (.inr hj.place) (.inl hkj) hk⟩
  · refine (mem_trace_received evs htr hev hk).imp_right ?_
    rintro ⟨rfl, rfl⟩
    exact hmono _ _ hsent

end Moves

end Machine

end Runix
