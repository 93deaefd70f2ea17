import Runix.Proofs.Carriage
import Runix.Proofs.ExactlyOnce

namespace Runix

open Lib (Place Occurred)

namespace Machine

variable {m m' : Machine} {act : Action} {w : Nat → Place (Fin maxTasks)}
  {sent sent' : Message → TaskId → Prop}

/-- The message of the send call whose capability this step resolves, and the
target it resolves to. -/
def resolution (m : Machine) : Action → Option (Message × TaskId)
  | .proceed _ =>
    match m.cpu with
    | .task i =>
      match m.pc i with
      | .send a | .sendAsync a =>
        match m.sched.resolveTargetLocked i a.capIdx with
        | .ok target => some (a.message i, target)
        | .error _ => none
      | _ => none
    | _ => none
  | _ => none

theorem resolution_eq (hw : m.Wf) {i : Fin maxTasks} {t : Task} {a : SendArgs} {r : TaskId}
    (hi : m.cpu = .task i) (ht : m.sched.tasks i = some t)
    (hp : m.pc i = .send a ∨ m.pc i = .sendAsync a) (hc : t.capTable.channel a.capIdx = some r)
    (sp : StackPointer) : m.resolution (.proceed sp) = some (a.message i, r) := by
  have hres := Scheduler.resolveTargetLocked_eq hw.indexed ht a.capIdx
  rw [hc] at hres
  rcases hp with hp | hp <;> simp [resolution, hi, hp, hres]

theorem resolution_some (hw : m.Wf) {msg : Message} {r : TaskId}
    (h : m.resolution act = some (msg, r)) :
    ∃ i a, m.cpu = .task i ∧ (m.pc i).args = some a ∧ msg = a.message i ∧
      m.sched.channel i a.capIdx = some r := by
  have hregion : ∀ (i : Fin maxTasks) (a : SendArgs), m.cpu = .task i →
      (match m.sched.resolveTargetLocked i a.capIdx with
        | .ok target => some (a.message i, target)
        | .error _ => none) = some (msg, r) →
      msg = a.message i ∧ m.sched.channel i a.capIdx = some r := by
    intro i a hi hreg
    obtain ⟨_, t, ht⟩ := hw.current i hi
    rw [Scheduler.resolveTargetLocked_eq hw.indexed ht] at hreg
    cases hc : t.capTable.channel a.capIdx with
    | none => simp [hc] at hreg
    | some target =>
      simp only [hc, Option.some.injEq, Prod.mk.injEq] at hreg
      rw [Scheduler.channel_eq ht, hc]
      exact ⟨hreg.1.symm, congrArg some hreg.2⟩
  cases act with
  | proceed sp =>
    cases hi : m.cpu with
    | task i =>
      simp only [resolution, hi] at h
      cases hp : m.pc i with
      | send a | sendAsync a =>
        simp only [hp] at h
        exact ⟨i, a, rfl, by rw [hp]; rfl, hregion i a hi h⟩
      | _ => simp [hp] at h
    | _ => simp [resolution, hi] at h
  | _ => cases h

/-- The capabilities of a task do not change while it is in a call. -/
theorem Effect.args (he : m.Effect act m') (hact : act.isRevoke = false) {k : Fin maxTasks}
    {b : SendArgs} (hb : (m'.pc k).args = some b) :
    ((m.pc k).args = some b ∧ m'.sched.channel k = m.sched.channel k) ∨ b.call = m.calls := by
  have moved : ∀ {i : Fin maxTasks} {p : Pc}, m'.pc = Function.update m.pc i p →
      m'.sched.channel = m.sched.channel → p.args = none ∨ p.args = (m.pc i).args →
      (m.pc k).args = some b ∧ m'.sched.channel k = m.sched.channel k := by
    intro i p hpc hc hp
    refine ⟨?_, by rw [hc]⟩
    rw [hpc, Function.update_apply] at hb
    split at hb
    · rename_i hk
      rcases hp with hp | hp
      · cases hp.symm.trans hb
      · rw [hk, ← hp, hb]
    · exact hb
  have fresh : ∀ {i : Fin maxTasks} {p : Pc} {a : SendArgs}, m'.pc = Function.update m.pc i p →
      m'.sched.channel = m.sched.channel → p.args = some a → a.call = m.calls →
      ((m.pc k).args = some b ∧ m'.sched.channel k = m.sched.channel k) ∨ b.call = m.calls := by
    intro i p a hpc hc hp ha
    rw [hpc, Function.update_apply] at hb
    split at hb
    · cases hp.symm.trans hb
      exact .inr ha
    · exact .inl ⟨hb, by rw [hc]⟩
  have same : m.sched.channel = m.sched.channel := rfl
  cases he with
  | refused | idled | bootHalted | revokedNothing => exact .inl ⟨hb, rfl⟩
  | entered _ _ ha => exact fresh rfl rfl rfl ha
  | asyncEntered _ _ ha => exact fresh rfl rfl rfl ha
  | receiveEntered _ _ hp' =>
    exact .inl (moved rfl rfl (.inl (by rcases hp' with rfl | rfl <;> rfl)))
  | consumed | asyncRefused | receiveEmpty => exact .inl (moved rfl rfl (.inl rfl))
  | foundGone _ _ hp | retried _ _ hp => exact .inl (moved rfl rfl (.inr (by rw [hp]; rfl)))
  | rejected _ ht | gone _ ht | receivedQueue _ ht | receivedBuffer _ ht | receiveBlocked _ ht =>
    exact .inl (moved rfl (Scheduler.channel_same ht rfl) (.inl rfl))
  | parked _ ht hp =>
    exact .inl (moved rfl (Scheduler.channel_same ht rfl) (.inr (by rw [hp]; rfl)))
  | deposited _ _ _ _ hu | enqueued _ _ _ _ hu =>
    exact .inl (moved rfl (Scheduler.channel_same hu rfl) (.inl rfl))
  | receivedSender _ _ _ _ _ hu _ ht' =>
    exact .inl (moved rfl (Scheduler.fetched hu rfl ht' rfl).1 (.inl rfl))
  | stayed _ hp => exact .inl (moved rfl rfl (.inr hp.args))
  | @switched i _ t p j u sp _ ht hp hj hu hst =>
    have hout : (m.sched.set i (some { t.paused with rsp := sp })).channel = m.sched.channel :=
      Scheduler.channel_same ht rfl
    have hin := (Scheduler.SameMail.started (s := m.sched.set i (some { t.paused with rsp := sp }))
      (by rw [Scheduler.set_tasks, if_neg hj, hu]) hst).channel
    exact .inl (moved rfl (hin.trans hout) (.inr hp.args))
  | @started _ j u _ hu hst =>
    exact .inl ⟨hb, by rw [(Scheduler.SameMail.started hu hst).channel]⟩
  | died _ ht => exact .inl (moved rfl (Scheduler.killed_mail ht).2.2 (.inl rfl))
  | succeeded _ ht hu hst =>
    exact .inl (moved rfl ((Scheduler.SameMail.started hu hst).channel.trans
      (Scheduler.killed_mail ht).2.2) (.inl rfl))
  | @created i _ _ _ _ t =>
    change ((m.setPc i .user).pc k).args = some b at hb
    rw [setPc_pc] at hb
    split at hb
    · cases hb
    · rename_i hk
      refine .inl ⟨hb, ?_⟩
      change (m.sched.set i (some t)).channel k = _
      rw [Scheduler.channel_set, Function.update_of_ne hk]
  | revoked => cases hact

theorem Effect.calls_le (he : m.Effect act m') : m.calls ≤ m'.calls := by
  cases he with
  | refused | entered | asyncEntered => exact Nat.le_succ _
  | _ => exact le_refl _

/-- What has been addressed so far, against the calls under way: a call resolves
to one target however often it tries, and addresses nothing older than itself. -/
structure Resolved (m : Machine) (sent : Message → TaskId → Prop) : Prop where
  bound : ∀ msg r, sent msg r → msg.call < m.calls
  target : ∀ i a msg r, (m.pc i).args = some a → sent msg r → msg.call = a.call →
    m.sched.channel i a.capIdx = some r
  unique : ∀ msg msg' r r', sent msg r → sent msg' r' → msg.call = msg'.call → r = r'
  latest : ∀ (i : Fin maxTasks) a msg r, (m.pc i).args = some a → sent msg r → msg.sender = i →
    msg.call ≤ a.call

theorem Effect.resolved (he : m.Effect act m') (hw : m.Wf) (hn : m.Numbered) (h : m.Resolved sent)
    (hact : act.isRevoke = false)
    (hsent : ∀ msg r, sent' msg r → sent msg r ∨ m.resolution act = some (msg, r)) :
    m'.Resolved sent' := by
  have hnew : ∀ msg r, m.resolution act = some (msg, r) → ∃ i a, (m.pc i).args = some a ∧
      (m.pc i).call = some a.call ∧ msg = a.message i ∧ m.sched.channel i a.capIdx = some r := by
    intro msg r hres
    obtain ⟨i, a, _, ha, hmsg, hc⟩ := resolution_some hw hres
    exact ⟨i, a, ha, by simp [Pc.call, ha], hmsg, hc⟩
  have hbound : ∀ msg r, sent' msg r → msg.call < m.calls := by
    intro msg r hs
    rcases hsent msg r hs with hold | hres
    · exact h.bound msg r hold
    · obtain ⟨i, a, _, hcall, rfl, _⟩ := hnew msg r hres
      exact hn.bound i a.call hcall
  have howner : ∀ {k i a b}, (m.pc k).args = some b → (m.pc i).args = some a → b.call = a.call →
      k = i ∧ b = a := by
    intro k i a b hb ha hc
    have hk : k = i := hn.owner k i a.call (by simp [Pc.call, hb, hc]) (by simp [Pc.call, ha])
    subst hk
    exact ⟨rfl, Option.some.inj (hb.symm.trans ha)⟩
  refine ⟨fun msg r hs => (hbound msg r hs).trans_le he.calls_le, fun k b msg r hb hs hc => ?_,
    fun msg msg' r r' hs hs' hc => ?_, fun k b msg r hb hs hk => ?_⟩
  · rcases he.args hact hb with ⟨hb, hchan⟩ | hfresh
    · rw [hchan]
      rcases hsent msg r hs with hold | hres
      · exact h.target k b msg r hb hold hc
      · obtain ⟨i, a, ha, _, rfl, hr⟩ := hnew msg r hres
        obtain ⟨rfl, rfl⟩ := howner hb ha hc.symm
        exact hr
    · have := hbound msg r hs
      omega
  · rcases hsent msg r hs with hold | hres <;> rcases hsent msg' r' hs' with hold' | hres'
    · exact h.unique msg msg' r r' hold hold' hc
    · obtain ⟨i, a, ha, _, rfl, hr⟩ := hnew msg' r' hres'
      exact Option.some.inj ((h.target i a msg r ha hold hc).symm.trans hr)
    · obtain ⟨i, a, ha, _, rfl, hr⟩ := hnew msg r hres
      exact Option.some.inj (hr.symm.trans (h.target i a msg' r' ha hold' hc.symm))
    · exact (Prod.mk.inj (Option.some.inj (hres.symm.trans hres'))).2
  · rcases he.args hact hb with ⟨hb, _⟩ | hfresh
    · rcases hsent msg r hs with hold | hres
      · exact h.latest k b msg r hb hold hk
      · obtain ⟨i, a, ha, _, rfl, _⟩ := hnew msg r hres
        have hki : i = k := Fin.ext hk
        subst hki
        cases ha.symm.trans hb
        exact le_refl _
    · have := hbound msg r hs
      omega

/-- The step delivers directly to a waiting receiver while the sender's own
buffer still holds the copy it parked on an earlier attempt of this call. -/
def leavesCopy (m : Machine) : Action → Bool
  | .proceed _ =>
    match m.cpu with
    | .task i =>
      match m.pc i with
      | .send a =>
        decide ((m.sched.mailbox i).map Message.call = some a.call) &&
          match m.sched.resolveTargetLocked i a.capIdx with
          | .ok target =>
            decide ((m.sched.getTask target).map Task.state = some .blockedOnReceive)
          | .error _ => false
      | _ => false
    | _ => false
  | _ => false

theorem leavesCopy_eq (hw : m.Wf) {i j : Fin maxTasks} {t u : Task} {a : SendArgs}
    (hi : m.cpu = .task i) (ht : m.sched.tasks i = some t) (hp : m.pc i = .send a)
    (hc : t.capTable.channel a.capIdx = some j.val) (hu : m.sched.tasks j = some u)
    (hst : u.state = .blockedOnReceive) (sp : StackPointer) :
    m.leavesCopy (.proceed sp) = decide ((m.sched.mailbox i).map Message.call = some a.call) := by
  have hres := Scheduler.resolveTargetLocked_eq hw.indexed ht a.capIdx
  rw [hc] at hres
  simp [leavesCopy, hi, hp, hres, hw.indexed.getTask, hu, hst]

/-- A message delivered directly was nowhere before. -/
theorem Carried.nowhere_of_deposit (h : m.Carried w sent) (hw : m.Wf) {i j : Fin maxTasks}
    {t u : Task} {a : SendArgs} {sp : StackPointer} (hi : m.cpu = .task i)
    (ht : m.sched.tasks i = some t) (hp : m.pc i = .send a)
    (hc : t.capTable.channel a.capIdx = some j.val) (hu : m.sched.tasks j = some u)
    (hst : u.state = .blockedOnReceive) (hcopy : m.leavesCopy (.proceed sp) = false) :
    w a.call = .nowhere := by
  have hsend := h.control i
  rw [hp] at hsend
  refine hsend.resolve_right (fun hholds => ?_)
  rw [leavesCopy_eq hw hi ht hp hc hu hst] at hcopy
  simp [hholds.mailbox, SendArgs.message] at hcopy

theorem Effect.carried (he : m.Effect act m') (hw : m.Wf) (hv : m.Rendezvous) (hn : m.Numbered)
    (hsp : m.Spun) (hres : m.Resolved sent) (h : m.Carried w sent) (hact : act.isRevoke = false)
    (hcopy : m.leavesCopy act = false) (hmono : ∀ msg r, sent msg r → sent' msg r)
    (hnew : ∀ msg r, m.resolution act = some (msg, r) → sent' msg r) :
    ∃ w', m'.Carried w' sent' := by
  have outside : ∀ {i : Fin maxTasks} {msg : Message} {P : Prop}, (m.pc i).call = none →
      m.pc i ≠ .dead → m.sched.mailbox i = some msg → w msg.call = .parked i → P :=
    fun hp hlive hb hpk => absurd hpk (h.no_own hp hlive hb)
  have inside : ∀ {i : Fin maxTasks} {p : Pc} {msg : Message}, (m.pc i).call = p.call →
      m.pc i ≠ .dead → m.sched.mailbox i = some msg → w msg.call = .parked i →
      p.call = some msg.call ∨ p = .dead :=
    fun hp hlive hb hpk => .inl (hp ▸ (h.own _ _ hb hpk).resolve_right hlive)
  cases he with
  | @refused i =>
    exact ⟨w, h.quiet hmono rfl rfl (Function.update_eq_self i m.pc).symm (Nat.le_succ _) [_] rfl
      (by simp) (h.control i) (h.own i)⟩
  | @entered i _ _ _ _ a hi hp ha =>
    exact ⟨w, h.quiet hmono rfl rfl rfl (Nat.le_succ _) [] rfl (by simp)
      (.inl (h.fresh _ (ha ▸ le_refl _))) (fun _ => outside (by rw [hp]; rfl) (by simp [hp]))⟩
  | @asyncEntered i _ a hi hp ha =>
    exact ⟨w, h.quiet hmono rfl rfl rfl (Nat.le_succ _) [] rfl (by simp)
      (h.fresh _ (ha ▸ le_refl _)) (fun _ => outside (by rw [hp]; rfl) (by simp [hp]))⟩
  | @receiveEntered i _ p hi hp hp' =>
    exact ⟨w, h.quiet hmono rfl rfl rfl (le_refl _) [] rfl (by simp)
      (by rcases hp' with rfl | rfl <;> trivial)
      (fun _ => outside (by rw [hp]; rfl) (by simp [hp]))⟩
  | rejected _ ht | gone _ ht =>
    exact ⟨w, h.cleared hmono (.inl (Scheduler.queued_same ht rfl)) (Scheduler.mailbox_set ..) rfl
      (le_refl _) [_] rfl (by simp)⟩
  | @foundGone i _ t a r hi ht hp =>
    have hsend := h.control i
    rw [hp] at hsend
    exact ⟨w, h.quiet hmono rfl rfl rfl (le_refl _) [] rfl (by simp) hsend
      (fun _ => inside (by rw [hp]; rfl) (by simp [hp]))⟩
  | @consumed i _ t a hi ht hp hb =>
    refine ⟨w, h.quiet hmono rfl rfl rfl (le_refl _) [_] rfl (by simp) trivial (fun msg hb' => ?_)⟩
    cases hb.symm.trans ((Scheduler.mailbox_eq ht).symm.trans hb')
  | @retried i _ t a msg hi ht hp hb =>
    have hholds := h.holds_of_waiting (.inr hp) (by simp [Scheduler.mailbox_eq ht, hb])
    exact ⟨w, h.quiet hmono rfl rfl rfl (le_refl _) [] rfl (by simp) (.inr hholds)
      (fun _ => inside (by rw [hp]; rfl) (by simp [hp]))⟩
  | @asyncRefused i _ a e hi hp =>
    refine ⟨w, h.quiet hmono rfl rfl rfl (le_refl _) [_] rfl (by simp) trivial
      (fun msg hb hpk => ?_)⟩
    have hown := (h.own i msg hb hpk).resolve_right (by simp [hp])
    exact absurd hown (h.not_own (by rw [hp]; rfl) (h.nowhere_of_async hp) msg hb)
  | @parked i sp t a r hi ht hp hc =>
    exact ⟨_, h.parks hn hmono (hnew _ _ (resolution_eq hw hi ht (.inl hp) hc sp)) hp
      (Scheduler.queued_same ht rfl) (Scheduler.mailbox_set ..) rfl rfl rfl⟩
  | @deposited i sp t a j u hi ht hp hc hu hst =>
    have hnow := h.nowhere_of_deposit hw hi ht hp hc hu hst hcopy
    exact ⟨_, h.deposits hn hmono (hnew _ _ (resolution_eq hw hi ht (.inl hp) hc sp)) hp hnow
      (hv.receiving j u hu hst).pc (Scheduler.queued_same hu rfl) (Scheduler.mailbox_set ..) rfl rfl
      [_, _] rfl (by simp)⟩
  | @enqueued i sp t a j u queue hi ht hp hc hu hst hq =>
    refine ⟨_, h.enqueues hn hmono (hnew _ _ (resolution_eq hw hi ht (.inr hp) hc sp)) hp
      (Scheduler.mailbox_same hu rfl) ?_ rfl rfl [_, _] rfl (by simp)⟩
    rw [Scheduler.queued_eq hu, ← Lib.Ring.contents_enqueue hq]
    exact Scheduler.queued_set ..
  | @receivedQueue i _ t msg queue hi ht hp hq =>
    exact ⟨_, h.dequeues hmono hp ((Scheduler.queued_eq ht).trans hq) (Scheduler.mailbox_same ht rfl)
      (Scheduler.queued_set ..) rfl rfl rfl⟩
  | @receivedBuffer i _ t msg hi ht hp hq hb =>
    exact ⟨_, h.takes hmono hp ((Scheduler.mailbox_eq ht).trans hb) (Scheduler.queued_same ht rfl)
      (Scheduler.mailbox_set ..) rfl rfl rfl⟩
  | @receivedSender i _ t j u t' hi ht hp hq hb hu hst ht' =>
    obtain ⟨a, ha, _, hpj⟩ := hsp.waiting hv hi hp hu hst
    have hbox : m.sched.mailbox j = some (a.message j) := (Scheduler.mailbox_eq hu).trans ha.message
    have hholds := h.holds_of_waiting hpj (by simp [hbox])
    have hsent : sent (a.message j) i := by
      obtain ⟨r, hr⟩ := h.parked j _ hbox hholds.place
      have hchan := hres.target j a _ r (by rcases hpj with hpj | hpj <;> rw [hpj] <;> rfl) hr rfl
      rw [Scheduler.channel_eq hu, ha.channel] at hchan
      cases hchan
      exact hr
    obtain ⟨_, hqueued, hmailbox⟩ := Scheduler.fetched hu rfl ht' rfl
    refine ⟨_, h.fetches hn hmono hp hholds hpj hsent hqueued hmailbox rfl rfl
      [.delivered (a.message j) i] ?_ (by simp)⟩
    rw [ha.message]
    rfl
  | @receiveBlocked i _ t hi ht hp =>
    exact ⟨w, h.quiet hmono (Scheduler.queued_same ht rfl) (Scheduler.mailbox_same ht rfl) rfl
      (le_refl _) [] rfl (by simp) trivial (fun _ => outside (by rw [hp]; rfl) (by simp [hp]))⟩
  | @receiveEmpty i _ hi hp =>
    exact ⟨w, h.quiet hmono rfl rfl rfl (le_refl _) [_] rfl (by simp) trivial
      (fun _ => outside (by rw [hp]; rfl) (by simp [hp]))⟩
  | @stayed i _ p hi hp =>
    exact ⟨w, h.quiet hmono rfl rfl rfl (le_refl _) [] rfl (by simp) ((h.control i).paused hp)
      (fun _ => h.own_paused hp)⟩
  | @switched i _ t p j u sp hi ht hp hj hu hst =>
    have hin := Scheduler.SameMail.started (s := m.sched.set i (some { t.paused with rsp := sp }))
      (by rw [Scheduler.set_tasks, if_neg hj, hu]) hst
    exact ⟨w, h.quiet hmono (hin.queued.trans (Scheduler.queued_same ht rfl))
      (hin.mailbox.trans (Scheduler.mailbox_same ht rfl)) rfl (le_refl _) [] rfl (by simp)
      ((h.control i).paused hp) (fun _ => h.own_paused hp)⟩
  | idled | revokedNothing | bootHalted => exact ⟨w, h.mono hmono rfl rfl rfl rfl⟩
  | @started _ j u hb hu hst =>
    have hsame := Scheduler.SameMail.started hu hst
    exact ⟨w, h.quiet hmono hsame.queued hsame.mailbox (Function.update_eq_self j m.pc).symm
      (le_refl _) [] rfl (by simp) (h.control j) (h.own j)⟩
  | @died i t hi ht =>
    obtain ⟨hqueued, hmailbox, _⟩ := Scheduler.killed_mail ht
    exact ⟨w, h.quiet hmono hqueued hmailbox rfl (le_refl _) [] rfl (by simp) trivial
      (fun _ _ _ => .inr rfl)⟩
  | @succeeded i t j u hi ht hu hst =>
    obtain ⟨hqueued, hmailbox, _⟩ := Scheduler.killed_mail ht
    have hin := Scheduler.SameMail.started hu hst
    exact ⟨w, h.quiet hmono (hin.queued.trans hqueued) (hin.mailbox.trans hmailbox) rfl (le_refl _)
      [] rfl (by simp) trivial (fun _ _ _ => .inr rfl)⟩
  | @created i _ _ _ _ t hcpu hfree hid hst hrsp hb hq =>
    exact ⟨w, h.cleared hmono (.inr ((Scheduler.queued_set ..).trans (by rw [hq])))
      ((Scheduler.mailbox_set ..).trans (by rw [hb])) rfl (le_refl _) [] rfl (by simp)⟩
  | revoked => cases hact

def Addressed (m₀ : Machine) (as : List Action) (msg : Message) (r : TaskId) : Prop :=
  Occurred Machine.step (fun m act => m.resolution act = some (msg, r)) m₀ as

structure Traced (m₀ : Machine) (as : List Action) (m : Machine) : Prop where
  sound : m.Sound
  numbered : m.Numbered
  spun : m.Spun
  resolved : m.Resolved (m₀.Addressed as)
  carried : ∃ w, m.Carried w (m₀.Addressed as)

theorem Unused.traced (h : m.Unused) : m.Traced [] m where
  sound := h.accounted.sound
  numbered := h.accounted.numbered
  spun := h.accounted.spun
  resolved :=
    ⟨fun _ _ hs => absurd hs Lib.not_occurred_nil, fun _ _ _ _ _ hs => absurd hs Lib.not_occurred_nil,
      fun _ _ _ _ hs => absurd hs Lib.not_occurred_nil,
      fun _ _ _ _ _ hs => absurd hs Lib.not_occurred_nil⟩
  carried := by
    refine ⟨fun _ => .nowhere, ?_, fun _ _ => rfl, fun i => ?_, fun _ _ _ hw => ?_, fun i msg hk => ?_,
      fun _ _ _ hw => ?_, fun _ _ _ hw => ?_, fun i msg hk => ?_⟩
    · rw [h.mail_empty]
      exact .empty
    · rw [h.pc]
      trivial
    · cases hw
    · rw [h.queued_nil] at hk
      cases hk
    · cases hw
    · cases hw
    · rw [h.trace] at hk
      cases hk

theorem Traced.step {m₀ : Machine} {as : List Action} (h : m₀.Traced as m)
    (hr : Lib.Run (Lib.Steps Machine.step) m₀ as m) (hact : act.isRevoke = false)
    (hown : m.FromOwnCode act) (hcopy : m.leavesCopy act = false) (hs : m.step act = some m') :
    m₀.Traced (as ++ [act]) m' := by
  have he := step_effect h.sound.wf hs
  have hsnoc : ∀ msg r, m₀.Addressed (as ++ [act]) msg r ↔
      m₀.Addressed as msg r ∨ m.resolution act = some (msg, r) :=
    fun msg r => Lib.occurred_snoc hr
  obtain ⟨w, hw⟩ := h.carried
  exact ⟨h.sound.step hact hs, he.numbered h.numbered, he.spun h.sound.rendezvous h.spun hown,
    he.resolved h.sound.wf h.numbered h.resolved hact (fun msg r => (hsnoc msg r).mp),
    he.carried h.sound.wf h.sound.rendezvous h.numbered h.spun h.resolved hw hact hcopy
      (fun msg r hold => (hsnoc msg r).mpr (.inl hold))
      (fun msg r hnew => (hsnoc msg r).mpr (.inr hnew))⟩

def Lively (m : Machine) (act : Action) : Prop := act.isRevoke = false ∧ m.FromOwnCode act

instance (m : Machine) (act : Action) : Decidable (m.Lively act) :=
  inferInstanceAs (Decidable (_ ∧ _))

def Tidy (m : Machine) (act : Action) : Prop := m.Lively act ∧ m.leavesCopy act = false

instance (m : Machine) (act : Action) : Decidable (m.Tidy act) :=
  inferInstanceAs (Decidable (_ ∧ _))

theorem run_traced {m₀ : Machine} {as : List Action} (h : m₀.Unused)
    (hr : Lib.Run (Lib.Guarded Tidy (Lib.Steps Machine.step)) m₀ as m) : m₀.Traced as m :=
  hr.history h.traced (fun _ _ _ _ hs ht hstep =>
    ht.step (hs.mono (fun _ _ _ h => h.2)) hstep.1.1.1 hstep.1.1.2 hstep.1.2 hstep.2)

/-- Every message a task received was addressed to it by a send call, which
addressed nobody else, and has been received once. -/
theorem message_provenance {m₀ : Machine} {as : List Action} (h0 : m₀.Unused)
    (hr : Lib.Run (Lib.Guarded Tidy (Lib.Steps Machine.step)) m₀ as m) (i : Fin maxTasks)
    (msg : Message) (hmem : .receiveReturned i (.ok msg) ∈ m.trace) :
    m₀.Addressed as msg i ∧ (∀ r, m₀.Addressed as msg r → r = i) ∧
      ∀ k, m.receipts k msg.call = if k = i then 1 else 0 := by
  have h := run_traced h0 hr
  obtain ⟨w, hw⟩ := h.carried
  have hsent := hw.received i msg hmem
  refine ⟨hsent, fun r hs => h.resolved.unique msg msg r i hs hsent rfl, fun k => ?_⟩
  have hcount := hw.lossy.receipts k msg.call
  rw [hw.received_place hmem] at hcount
  simp only [mail] at hcount
  rw [receipts, hcount]
  grind

def watched : List Task :=
  [Task.new 0 0 0 CapTable.new, Task.new 0 0 1 CapTable.new,
    Task.new 0 0 2 (CapTable.ofList [⟨.ipcChannel 1, true, true, true, false, 1, none⟩])]

theorem unused_watched : (boot (Scheduler.ofList watched)).Unused := by
  apply unused_ofList (atBoot_ofList (by decide) (by decide))
  simp [watched, Task.new, MessageQueue.new]

/-- The sender parks its message, the target dies, the sender is preempted
before it looks, and the watchdog creates the target again. -/
def restart : List Action :=
  [.yield ⟨1, Nat.one_ne_zero⟩, .yield ⟨1, Nat.one_ne_zero⟩, .yield ⟨1, Nat.one_ne_zero⟩,
    .sendTyped 0 0 0 [], .proceed ⟨1, Nat.one_ne_zero⟩, .proceed ⟨1, Nat.one_ne_zero⟩,
    .yield ⟨1, Nat.one_ne_zero⟩, .terminate, .tick ⟨1, Nat.one_ne_zero⟩,
    .create ⟨1, Nat.one_lt_succ_succ _⟩ false 0 0 CapTable.new, .yield ⟨1, Nat.one_ne_zero⟩]

def refetch : List Action :=
  [.yield ⟨1, Nat.one_ne_zero⟩, .proceed ⟨1, Nat.one_ne_zero⟩, .proceed ⟨1, Nat.one_ne_zero⟩,
    .proceed ⟨1, Nat.one_ne_zero⟩, .yield ⟨1, Nat.one_ne_zero⟩, .receiveTyped,
    .proceed ⟨1, Nat.one_ne_zero⟩]

theorem message_provenance_refetch : ∃ m msg,
    Lib.Run (Lib.Guarded Tidy (Lib.Steps Machine.step)) (boot (Scheduler.ofList watched))
      (restart ++ refetch) m ∧
    .receiveReturned ⟨1, by decide⟩ (.ok msg) ∈ m.trace ∧ msg.sender = 2 ∧
    (boot (Scheduler.ofList watched)).Addressed (restart ++ refetch) msg 1 ∧
    m.receipts ⟨1, by decide⟩ msg.call = 1 := by
  obtain ⟨m, msg, hr, hmem, hs⟩ : ∃ m msg,
      Lib.Run (Lib.Guarded Tidy (Lib.Steps Machine.step)) (boot (Scheduler.ofList watched))
        (restart ++ refetch) m ∧
      .receiveReturned ⟨1, by decide⟩ (.ok msg) ∈ m.trace ∧ msg.sender = 2 :=
    ⟨_, _, Lib.guarded_of_execute rfl (by decide), List.mem_of_getElem? (i := 0) rfl, rfl⟩
  obtain ⟨hsent, _, honce⟩ := message_provenance unused_watched hr _ msg hmem
  exact ⟨m, msg, hr, hmem, hs, hsent, honce _⟩

/-- The new target blocks on a receive before the sender looks. The sender
delivers directly, leaves the copy in its own buffer, and receives it. -/
def echo : List Action :=
  [.receiveTyped, .proceed ⟨1, Nat.one_ne_zero⟩, .proceed ⟨1, Nat.one_ne_zero⟩,
    .proceed ⟨1, Nat.one_ne_zero⟩, .proceed ⟨1, Nat.one_ne_zero⟩, .receiveTyped,
    .proceed ⟨1, Nat.one_ne_zero⟩]

/-- The sender receives its own message, which no call addressed to it. -/
theorem own_message_received : ∃ m msg,
    Lib.Run (Lib.Guarded Lively (Lib.Steps Machine.step)) (boot (Scheduler.ofList watched))
      (restart ++ echo) m ∧
    .receiveReturned ⟨2, by decide⟩ (.ok msg) ∈ m.trace ∧ msg.sender = 2 ∧
    ¬ (boot (Scheduler.ofList watched)).Addressed (restart ++ echo) msg 2 := by
  refine ⟨_, _, Lib.guarded_of_execute rfl (by decide), List.mem_of_getElem? (i := 0) rfl, rfl, ?_⟩
  have hnever : Lib.Run (Lib.Guarded (fun m act => (m.resolution act).map Prod.snd ≠ some 2)
      (Lib.Steps Machine.step)) (boot (Scheduler.ofList watched)) (restart ++ echo) _ :=
    Lib.guarded_of_execute rfl (by decide)
  refine (hnever.mono (fun m act m' hstep => ⟨fun hres => hstep.1 ?_, hstep.2⟩)).not_occurred
  rw [hres]
  rfl

end Machine

end Runix
