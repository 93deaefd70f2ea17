import Runix.Proofs.Calls
import Runix.Lib.Custody

namespace Runix

open Lib (Place Mailboxes Custody)

/-- The places where a task's buffer holds the message of its call or nothing. -/
def Pc.ownsBuffer : Pc → Bool
  | .sendGone _ | .sendWait _ | .sendCheck _ => true
  | _ => false

def Event.isReceipt (i : Fin maxTasks) (n : Nat) : Event → Bool
  | .receiveReturned j (.ok msg) => j = i && msg.call = n
  | _ => false

namespace Scheduler

variable {s s' : Scheduler} {i : Fin maxTasks} {t t' : Task}

def queued (s : Scheduler) (i : Fin maxTasks) : List Message :=
  (s.tasks i).elim [] (fun t => t.msgQueue.contents)

def mailbox (s : Scheduler) (i : Fin maxTasks) : Option Message :=
  (s.tasks i).bind Task.ipcBuffer

def channel (s : Scheduler) (i : Fin maxTasks) (capIdx : Nat) : Option TaskId :=
  (s.tasks i).bind (fun t => t.capTable.channel capIdx)

theorem queued_set (s : Scheduler) (i : Fin maxTasks) (t : Task) :
    (s.set i (some t)).queued = Function.update s.queued i t.msgQueue.contents := by
  funext k
  simp only [queued, set_tasks, Function.update_apply]
  split <;> rfl

theorem mailbox_set (s : Scheduler) (i : Fin maxTasks) (t : Task) :
    (s.set i (some t)).mailbox = Function.update s.mailbox i t.ipcBuffer := by
  funext k
  simp only [mailbox, set_tasks, Function.update_apply]
  split <;> rfl

theorem channel_set (s : Scheduler) (i : Fin maxTasks) (t : Task) :
    (s.set i (some t)).channel = Function.update s.channel i t.capTable.channel := by
  funext k c
  by_cases hk : k = i <;> simp [channel, set_tasks, hk]

theorem queued_eq (ht : s.tasks i = some t) : s.queued i = t.msgQueue.contents := by
  simp [queued, ht]

theorem mailbox_eq (ht : s.tasks i = some t) : s.mailbox i = t.ipcBuffer := by
  simp [mailbox, ht]

theorem channel_eq (ht : s.tasks i = some t) : s.channel i = t.capTable.channel := by
  funext c
  simp [channel, ht]

/-- Replacing a task by one with the same capabilities. -/
theorem channel_same (ht : s.tasks i = some t) (hc : t'.capTable = t.capTable) :
    (s.set i (some t')).channel = s.channel := by
  rw [channel_set, hc, ← channel_eq ht, Function.update_eq_self]

theorem queued_same (ht : s.tasks i = some t) (hq : t'.msgQueue = t.msgQueue) :
    (s.set i (some t')).queued = s.queued := by
  rw [queued_set, hq, ← queued_eq ht, Function.update_eq_self]

theorem mailbox_same (ht : s.tasks i = some t) (hb : t'.ipcBuffer = t.ipcBuffer) :
    (s.set i (some t')).mailbox = s.mailbox := by
  rw [mailbox_set, hb, ← mailbox_eq ht, Function.update_eq_self]

/-- The message of a blocked sender was taken, and the receiver runs on. -/
theorem fetched {s₁ : Scheduler} {j : Fin maxTasks} {u : Task} (hu : s.tasks j = some u)
    (hs : s₁ = s.set j (some { u with ipcBuffer := none, state := .ready }))
    (ht' : s₁.tasks i = some t') (hs' : s' = s₁.set i (some { t' with state := .running })) :
    s'.channel = s.channel ∧ s'.queued = s.queued ∧
      s'.mailbox = Function.update s.mailbox j none := by
  refine ⟨?_, ?_, ?_⟩
  · calc s'.channel = s₁.channel := hs' ▸ channel_same ht' rfl
      _ = s.channel := hs ▸ channel_same hu rfl
  · calc s'.queued = s₁.queued := hs' ▸ queued_same ht' rfl
      _ = s.queued := hs ▸ queued_same hu rfl
  · calc s'.mailbox = s₁.mailbox := hs' ▸ mailbox_same ht' rfl
      _ = Function.update s.mailbox j none := hs ▸ mailbox_set ..

/-- A task died. Its messages stay where they are. -/
theorem killed_mail (ht : s.tasks i = some t) : (s.killed i t).queued = s.queued ∧
    (s.killed i t).mailbox = s.mailbox ∧ (s.killed i t).channel = s.channel := by
  have hcases : ∀ k, (∃ u u', s.tasks k = some u ∧ (s.killed i t).tasks k = some u' ∧
      u'.msgQueue = u.msgQueue ∧ u'.ipcBuffer = u.ipcBuffer ∧ u'.capTable = u.capTable) ∨
      (s.tasks k = none ∧ (s.killed i t).tasks k = none) := by
    intro k
    by_cases hk : k = i
    · subst hk
      exact .inl ⟨t, { t with state := .terminated }, ht, if_pos rfl, rfl, rfl, rfl⟩
    · cases hu : s.tasks k with
      | none => exact .inr ⟨rfl, by simp [killed, hk, hu]⟩
      | some u =>
        refine .inl ⟨u, u.woken i, rfl, by simp [killed, hk, hu], ?_⟩
        unfold Task.woken
        split <;> exact ⟨rfl, rfl, rfl⟩
  refine ⟨?_, ?_, ?_⟩
  · funext k
    rcases hcases k with ⟨u, u', hu, hu', heq, _⟩ | ⟨hn, hn'⟩
    · rw [queued_eq hu, queued_eq hu', heq]
    · simp [queued, hn, hn']
  · funext k
    rcases hcases k with ⟨u, u', hu, hu', _, heq, _⟩ | ⟨hn, hn'⟩
    · rw [mailbox_eq hu, mailbox_eq hu', heq]
    · simp [mailbox, hn, hn']
  · funext k
    rcases hcases k with ⟨u, u', hu, hu', _, _, heq⟩ | ⟨hn, hn'⟩
    · rw [channel_eq hu, channel_eq hu', heq]
    · funext c
      simp [channel, hn, hn']

/-- The two schedulers hold the same messages and the same channels, and nobody
was woken from a send. -/
structure SameMail (s s' : Scheduler) : Prop where
  queued : s'.queued = s.queued
  mailbox : s'.mailbox = s.mailbox
  channel : s'.channel = s.channel
  blocked : ∀ k t r, s.tasks k = some t → t.state = .blockedOnSend r →
    ∃ t' r', s'.tasks k = some t' ∧ t'.state = .blockedOnSend r'

theorem SameMail.of_tasks (h : s'.tasks = s.tasks) : SameMail s s' where
  queued := by funext k; simp [Scheduler.queued, h]
  mailbox := by funext k; simp [Scheduler.mailbox, h]
  channel := by funext k c; simp [Scheduler.channel, h]
  blocked k t r ht hst := ⟨t, r, h ▸ ht, hst⟩

theorem SameMail.set (ht : s.tasks i = some t) (hq : t'.msgQueue = t.msgQueue)
    (hb : t'.ipcBuffer = t.ipcBuffer) (hc : t'.capTable = t.capTable)
    (hst : ∀ r, t.state = .blockedOnSend r → ∃ r', t'.state = .blockedOnSend r') :
    SameMail s (s.set i (some t')) where
  queued := queued_same ht hq
  mailbox := mailbox_same ht hb
  channel := channel_same ht hc
  blocked k u r hu hbl := by
    rw [set_tasks]
    split
    · rename_i hk
      subst hk
      cases ht.symm.trans hu
      obtain ⟨r', hr'⟩ := hst r hbl
      exact ⟨t', r', rfl, hr'⟩
    · exact ⟨u, r, hu, hbl⟩

theorem SameMail.started (ht : s.tasks i = some t) (hst : t.state = .ready) :
    SameMail s (s.started i t) := by
  have hset : SameMail s (s.set i (some { t with state := .running })) :=
    .set ht rfl rfl rfl (fun r hr => by cases hst.symm.trans hr)
  exact ⟨hset.queued, hset.mailbox, hset.channel, hset.blocked⟩

theorem SameMail.trans {s'' : Scheduler} (h : SameMail s s') (h' : SameMail s' s'') :
    SameMail s s'' where
  queued := h'.queued.trans h.queued
  mailbox := h'.mailbox.trans h.mailbox
  channel := h'.channel.trans h.channel
  blocked k t r ht hst := by
    obtain ⟨t', r', ht', hst'⟩ := h.blocked k t r ht hst
    exact h'.blocked k t' r' ht' hst'

end Scheduler

namespace Machine

variable {m m' : Machine} {act : Action} {w w' : Nat → Place (Fin maxTasks)}

def mail (m : Machine) : Mailboxes (Fin maxTasks) Nat where
  queue i n := (m.sched.queued i).countP (fun msg => msg.call = n)
  buffer i := (m.sched.mailbox i).map Message.call
  receipts i n := m.trace.countP (Event.isReceipt i n)

def CallOk (m : Machine) (w : Nat → Place (Fin maxTasks)) (i : Fin maxTasks) : Pc → Prop
  | .send a => w a.call = .nowhere ∨ w a.call = .parked i
  | .sendGone a | .sendAsync a => w a.call = .nowhere
  | .sendWait a | .sendCheck a => w a.call = .parked i ∨
      ∃ r : Fin maxTasks, m.sched.channel i a.capIdx = some r.val ∧ w a.call = .received r
  | _ => True

def ParkedBy (m : Machine) (i : Fin maxTasks) (n : Nat) : Prop :=
  (∃ a, (m.pc i).sendArgs = some a ∧ a.call = n) ∧
    ∃ t r, m.sched.tasks i = some t ∧ t.state = .blockedOnSend r

def Outcome (m : Machine) (w : Nat → Place (Fin maxTasks)) (i : Fin maxTasks) (n capIdx : Nat) :
    Except IpcError Unit → Prop
  | .ok _ => ∃ r : Fin maxTasks, m.sched.channel i capIdx = some r.val ∧
      (w n = .queued r ∨ w n = .deposited r ∨ w n = .received r)
  | .error _ => w n = .nowhere

structure Ledger (m : Machine) (w : Nat → Place (Fin maxTasks)) : Prop where
  custody : Custody True m.mail w
  fresh : ∀ n, m.calls ≤ n → w n = .nowhere
  control : ∀ i, m.CallOk w i (m.pc i)
  parked : ∀ i n, w n = .parked i → m.ParkedBy i n
  deposited : ∀ i n, w n = .deposited i → (m.pc i).ownsBuffer = false
  outcome : ∀ i n c res, .sendReturned i n c res ∈ m.trace → m.Outcome w i n c res

/-- How the messages may move in a step of task `i`: its own message enters the
system, parked messages are fetched by the target, accepted ones are
received. -/
structure Shift (m : Machine) (i : Fin maxTasks) (w w' : Nat → Place (Fin maxTasks)) : Prop where
  fresh : ∀ n, w n = .nowhere → w' n = .nowhere ∨ (m.pc i).call = some n
  parked : ∀ n k, w n = .parked k → w' n = .parked k ∨
    ∃ a, ∃ r : Fin maxTasks, (m.pc k = .sendWait a ∨ m.pc k = .sendCheck a) ∧ a.call = n ∧
      m.sched.channel k a.capIdx = some r.val ∧ w' n = .received r
  accepted : ∀ n j, w n = .queued j ∨ w n = .deposited j ∨ w n = .received j →
    w' n = w n ∨ w' n = .received j

theorem Shift.refl (m : Machine) (i : Fin maxTasks) (w : Nat → Place (Fin maxTasks)) :
    m.Shift i w w :=
  ⟨fun _ h => .inl h, fun _ _ h => .inl h, fun _ _ _ => .inl rfl⟩

theorem callOk_congr (hc : m'.sched.channel = m.sched.channel) {i : Fin maxTasks} {p : Pc} :
    m'.CallOk w i p = m.CallOk w i p := by
  unfold CallOk
  rw [hc]

theorem outcome_congr (hc : m'.sched.channel = m.sched.channel) {i : Fin maxTasks} {n c : Nat}
    {res : Except IpcError Unit} : m'.Outcome w i n c res = m.Outcome w i n c res := by
  unfold Outcome
  rw [hc]

section Moves
variable {i k : Fin maxTasks} {n : Nat}

/-- The message of the running call enters the system. -/
theorem Shift.enter (hw : w n = .nowhere) (hp : (m.pc i).call = some n) (p : Place (Fin maxTasks)) :
    m.Shift i w (Function.update w n p) := by
  refine ⟨fun c hc => ?_, fun c k hc => .inl ?_, fun c j hc => .inl ?_⟩
  · by_cases hcn : c = n
    · exact .inr (hcn ▸ hp)
    · exact .inl (by rwa [Function.update_of_ne hcn])
  all_goals
    rw [Function.update_of_ne (by rintro rfl; simp [hw] at hc)]
  exact hc

/-- An accepted message is received. -/
theorem Shift.receive (hw : w n = .queued k ∨ w n = .deposited k) :
    m.Shift i w (Function.update w n (.received k)) := by
  refine ⟨fun c hc => .inl ?_, fun c j hc => .inl ?_, fun c j hc => ?_⟩
  · rwa [Function.update_of_ne (by rintro rfl; simp [hc] at hw)]
  · rwa [Function.update_of_ne (by rintro rfl; simp [hc] at hw)]
  · by_cases hcn : c = n
    · subst hcn
      rw [Function.update_self]
      grind
    · exact .inl (Function.update_of_ne hcn ..)

/-- A parked message is fetched by the target of its call. -/
theorem Shift.fetch {a : SendArgs} {r : Fin maxTasks} (hw : w a.call = .parked k)
    (hp : m.pc k = .sendWait a ∨ m.pc k = .sendCheck a)
    (hc : m.sched.channel k a.capIdx = some r.val) :
    m.Shift i w (Function.update w a.call (.received r)) := by
  refine ⟨fun c hc => .inl ?_, fun c j hcw => ?_, fun c j hc => .inl ?_⟩
  · rwa [Function.update_of_ne (by rintro rfl; simp [hc] at hw)]
  · by_cases hcn : c = a.call
    · subst hcn
      cases hw.symm.trans hcw
      exact .inr ⟨a, r, hp, rfl, hc, Function.update_self ..⟩
    · exact .inl (by rwa [Function.update_of_ne hcn])
  · rw [Function.update_of_ne (by rintro rfl; simp [hw] at hc)]

end Moves

/-- The calls of the other tasks see a legal move. -/
theorem CallOk.shift {i k : Fin maxTasks} (h : m.CallOk w k (m.pc k)) (hs : m.Shift i w w')
    (hn : m.Numbered) (hk : k ≠ i) (hc : m'.sched.channel = m.sched.channel) :
    m'.CallOk w' k (m.pc k) := by
  have hfresh : ∀ a, (m.pc k).args = some a → w a.call = .nowhere → w' a.call = .nowhere := by
    intro a ha hw
    refine (hs.fresh _ hw).resolve_right (fun hi => hk (hn.owner k i a.call ?_ hi))
    simp [Pc.call, ha]
  have hwait : ∀ a, m.pc k = .sendWait a ∨ m.pc k = .sendCheck a →
      (w a.call = .parked k ∨ ∃ r : Fin maxTasks, m.sched.channel k a.capIdx = some r.val ∧
        w a.call = .received r) →
      w' a.call = .parked k ∨ ∃ r : Fin maxTasks, m'.sched.channel k a.capIdx = some r.val ∧
        w' a.call = .received r := by
    intro a hp hw
    rw [hc]
    rcases hw with hw | ⟨r, hr, hw⟩
    · rcases hs.parked _ k hw with hw' | ⟨b, r, hp', _, hr, hw'⟩
      · exact .inl hw'
      · have hab : b = a := by rcases hp with hp | hp <;> rcases hp' with hp' | hp' <;> grind
        exact .inr ⟨r, hab ▸ hr, hw'⟩
    · rcases hs.accepted _ r (.inr (.inr hw)) with hw' | hw'
      · exact .inr ⟨r, hr, hw'.trans hw⟩
      · exact .inr ⟨r, hr, hw'⟩
  cases hp : m.pc k with
  | send a =>
    rw [hp] at h
    rcases h with hw | hw
    · exact .inl (hfresh a (by rw [hp]; rfl) hw)
    · refine .inr ((hs.parked _ k hw).resolve_right ?_)
      rintro ⟨b, r, hp' | hp', _⟩ <;> cases hp.symm.trans hp'
  | sendGone a | sendAsync a =>
    rw [hp] at h
    exact hfresh a (by rw [hp]; rfl) h
  | sendWait a =>
    rw [hp] at h
    exact hwait a (.inl hp) h
  | sendCheck a =>
    rw [hp] at h
    exact hwait a (.inr hp) h
  | user | receive | receiveWait | receiveAsync | dead => trivial

/-- What a returned call promised stays true. -/
theorem Outcome.shift {i k : Fin maxTasks} {n c : Nat} {res : Except IpcError Unit}
    (h : m.Outcome w k n c res) (hs : m.Shift i w w') (hfree : (m.pc i).call ≠ some n)
    (hc : m'.sched.channel = m.sched.channel) : m'.Outcome w' k n c res := by
  cases res with
  | ok _ =>
    obtain ⟨r, hr, hw⟩ := h
    refine ⟨r, by rw [hc, hr], ?_⟩
    rcases hs.accepted n r hw with hw' | hw'
    · rwa [hw']
    · exact .inr (.inr hw')
  | error _ => exact (hs.fresh n h).resolve_right hfree

/-- The frame rule of the ledger. -/
theorem Ledger.advance (h : m.Ledger w) (hn : m.Numbered) {i : Fin maxTasks} {p : Pc}
    (hpc : m'.pc = Function.update m.pc i p) (hc : m'.sched.channel = m.sched.channel)
    (hcalls : m.calls ≤ m'.calls) (hs : m.Shift i w w') (hcust : Custody True m'.mail w')
    (hcall : m.CallOk w' i p) (hparked : ∀ k n, w' n = .parked k → m'.ParkedBy k n)
    (hdep : ∀ k n, w' n = .deposited k → (m'.pc k).ownsBuffer = false)
    (hev : ∀ k n c res, .sendReturned k n c res ∈ m'.trace →
      .sendReturned k n c res ∈ m.trace ∨ m.Outcome w' k n c res) : m'.Ledger w' where
  custody := hcust
  fresh n hle := by
    refine (hs.fresh n (h.fresh n (hcalls.trans hle))).resolve_right (fun hi => ?_)
    have := hn.bound i n hi
    omega
  control k := by
    rw [hpc, Function.update_apply]
    split
    · rename_i hk
      rw [callOk_congr hc]
      exact hk ▸ hcall
    · rename_i hk
      exact (h.control k).shift hs hn hk hc
  parked := hparked
  deposited := hdep
  outcome k n c res hmem := by
    rcases hev k n c res hmem with hold | hnew
    · exact (h.outcome k n c res hold).shift hs ((hn.returned k n c res hold).2 i) hc
    · rwa [outcome_congr hc]

theorem mail_eq (hs : Scheduler.SameMail m.sched m'.sched)
    (hr : ∀ k n, m'.trace.countP (Event.isReceipt k n) = m.trace.countP (Event.isReceipt k n)) :
    m'.mail = m.mail := by
  simp only [mail, hs.queued, hs.mailbox, hr]

theorem mail_queue_eq (h : m'.sched.queued = m.sched.queued) : m'.mail.queue = m.mail.queue := by
  simp only [mail, h]

theorem mail_queue_set {i : Fin maxTasks} {q : List Message}
    (h : m'.sched.queued = Function.update m.sched.queued i q) (k : Fin maxTasks) (n : Nat) :
    m'.mail.queue k n =
      if k = i then q.countP (fun msg => msg.call = n) else m.mail.queue k n := by
  simp only [mail, h, Function.update_apply]
  split <;> rfl

theorem mail_queue_of {i : Fin maxTasks} {t : Task} (ht : m.sched.tasks i = some t) (n : Nat) :
    m.mail.queue i n = t.msgQueue.contents.countP (fun msg => msg.call = n) := by
  simp only [mail, Scheduler.queued_eq ht]

theorem mail_buffer_eq (h : m'.sched.mailbox = m.sched.mailbox) :
    m'.mail.buffer = m.mail.buffer := by
  simp only [mail, h]

theorem mail_buffer_set {i : Fin maxTasks} {b : Option Message} {c : Option Nat}
    (h : m'.sched.mailbox = Function.update m.sched.mailbox i b) (hc : b.map Message.call = c) :
    m'.mail.buffer = Function.update m.mail.buffer i c := by
  subst hc
  funext k
  simp only [mail, h, Function.update_apply]
  split <;> rfl

theorem mail_receipts_eq (evs : List Event) (htr : m'.trace = evs ++ m.trace)
    (hrec : ∀ k n, evs.countP (Event.isReceipt k n) = 0) : m'.mail.receipts = m.mail.receipts := by
  funext k n
  simp only [mail, htr, List.countP_append, hrec, Nat.zero_add]

theorem mail_receipts_received {i : Fin maxTasks} {msg : Message} (evs : List Event)
    (htr : m'.trace = .receiveReturned i (.ok msg) :: evs ++ m.trace)
    (hrec : ∀ k n, evs.countP (Event.isReceipt k n) = 0) (k : Fin maxTasks) (n : Nat) :
    m'.mail.receipts k n =
      m.mail.receipts k n + if k = i ∧ n = msg.call then 1 else 0 := by
  simp only [mail, htr, List.countP_append, List.countP_cons, hrec, Event.isReceipt]
  grind

/-- A step that moves no message. -/
theorem Ledger.quiet (h : m.Ledger w) (hn : m.Numbered) {i : Fin maxTasks} {p : Pc}
    (hs : Scheduler.SameMail m.sched m'.sched) (evs : List Event)
    (hpc : m'.pc = Function.update m.pc i p) (hcalls : m.calls ≤ m'.calls)
    (htr : m'.trace = evs ++ m.trace) (hrec : ∀ k n, evs.countP (Event.isReceipt k n) = 0)
    (hev : ∀ k n c res, .sendReturned k n c res ∈ evs → m.Outcome w k n c res)
    (hcall : m.CallOk w i p) (hargs : ∀ n, w n = .parked i → p.sendArgs = (m.pc i).sendArgs)
    (hsync : p.ownsBuffer = true → ∀ n, w n ≠ .deposited i) : m'.Ledger w := by
  have hmail : m'.mail = m.mail :=
    mail_eq hs (fun k n => by rw [htr, List.countP_append, hrec, Nat.zero_add])
  refine h.advance hn hpc hs.channel hcalls (.refl m i w) (hmail ▸ h.custody) hcall
    (fun k n hw => ?_) (fun k n hw => ?_) (fun k n c res hmem => ?_)
  · obtain ⟨⟨a, ha, hn⟩, t, r, ht, hst⟩ := h.parked k n hw
    refine ⟨⟨a, ?_, hn⟩, hs.blocked k t r ht hst⟩
    rw [hpc, Function.update_apply]
    split
    · rename_i hk
      subst hk
      rw [hargs n hw, ha]
    · exact ha
  · rw [hpc, Function.update_apply]
    split
    · rename_i hk
      subst hk
      cases hp : p.ownsBuffer with
      | false => rfl
      | true => exact absurd hw (hsync hp n)
    · exact h.deposited k n hw
  · rw [htr] at hmem
    rcases List.mem_append.mp hmem with hnew | hold
    · exact .inr (hev k n c res hnew)
    · exact .inl hold

section Own
variable {i : Fin maxTasks} {t : Task} {a : SendArgs}

theorem Ledger.call (h : m.Ledger w) {p : Pc} (hp : m.pc i = p) : m.CallOk w i p :=
  hp ▸ h.control i

/-- A task parks no message but that of the call it is in. -/
theorem Ledger.not_parked (h : m.Ledger w)
    (ha : ∀ a, (m.pc i).sendArgs = some a → w a.call ≠ .parked i) (n : Nat) : w n ≠ .parked i := by
  intro hw
  obtain ⟨⟨a, hpa, rfl⟩, _⟩ := h.parked i n hw
  exact ha a hpa hw

theorem Ledger.not_deposited (h : m.Ledger w) (howns : (m.pc i).ownsBuffer = true) (n : Nat) :
    w n ≠ .deposited i := by
  intro hd
  cases howns.symm.trans (h.deposited i n hd)

theorem Ledger.buffer_none (h : m.Ledger w) (ht : m.sched.tasks i = some t)
    (hp : ∀ n, w n ≠ .parked i) (hd : ∀ n, w n ≠ .deposited i) : t.ipcBuffer = none := by
  cases hb : t.ipcBuffer with
  | none => rfl
  | some msg =>
    have hmail : m.mail.buffer i = some msg.call := by
      simp [mail, Scheduler.mailbox_eq ht, hb]
    rcases h.custody.buffer i msg.call hmail with hw | hw
    · exact absurd hw (hp _)
    · exact absurd hw (hd _)

/-- A message parked by a task that is about to use its capability. -/
theorem Ledger.sending (h : m.Ledger w) (hv : m.Rendezvous) (hp : (m.pc i).sendArgs = some a)
    (ht : m.sched.tasks i = some t) (hw : w a.call = .parked i) :
    ∃ r, t.state = .blockedOnSend r ∧ m.Sending i t r a := by
  obtain ⟨_, t', r, ht', hst⟩ := h.parked i a.call hw
  cases ht.symm.trans ht'
  exact hv.send_blocked hp ht (hst ▸ .send r)

/-- A call returns and no message moves. -/
theorem Ledger.returned (h : m.Ledger w) (hn : m.Numbered) {res : Except IpcError Unit}
    (hs : Scheduler.SameMail m.sched m'.sched) (hpc : m'.pc = Function.update m.pc i .user)
    (hcalls : m'.calls = m.calls)
    (htr : m'.trace = .sendReturned i a.call a.capIdx res :: m.trace)
    (hout : m.Outcome w i a.call a.capIdx res) (hp : ∀ n, w n ≠ .parked i) : m'.Ledger w := by
  refine h.quiet hn hs [.sendReturned i a.call a.capIdx res] hpc (le_of_eq hcalls.symm) htr
    (by simp [Event.isReceipt]) (fun k n c res' hmem => ?_) trivial (fun n hw => absurd hw (hp n))
    (by simp [Pc.ownsBuffer])
  cases List.mem_singleton.mp hmem
  exact hout

/-- A call fails and clears the buffer, which holds nothing. -/
theorem Ledger.cleared (h : m.Ledger w) (hn : m.Numbered) {e : IpcError}
    (ht : m.sched.tasks i = some t) (hd : ∀ n, w n ≠ .deposited i)
    (hp : ∀ b, (m.pc i).sendArgs = some b → w b.call ≠ .parked i) (hnow : w a.call = .nowhere)
    (hs : m'.sched = m.sched.set i (some { t with ipcBuffer := none }))
    (hpc : m'.pc = Function.update m.pc i .user) (hcalls : m'.calls = m.calls)
    (htr : m'.trace = .sendReturned i a.call a.capIdx (.error e) :: m.trace) : m'.Ledger w := by
  have hnp := h.not_parked hp
  have hnone := h.buffer_none ht hnp hd
  refine h.returned hn ?_ hpc hcalls htr hnow hnp
  rw [hs]
  exact .set ht rfl hnone.symm rfl (fun r hst => ⟨r, hst⟩)

/-- Control moves without a call returning, and no message moves. -/
theorem Ledger.moved (h : m.Ledger w) (hn : m.Numbered) {p : Pc}
    (hs : Scheduler.SameMail m.sched m'.sched) (hpc : m'.pc = Function.update m.pc i p)
    (hcalls : m.calls ≤ m'.calls) (htr : m'.trace = m.trace) (hcall : m.CallOk w i p)
    (hargs : ∀ n, w n = .parked i → p.sendArgs = (m.pc i).sendArgs)
    (hsync : p.ownsBuffer = true → ∀ n, w n ≠ .deposited i) : m'.Ledger w :=
  h.quiet hn hs [] hpc hcalls htr (fun _ _ => rfl) (fun _ _ _ _ hmem => by cases hmem) hcall
    hargs hsync

/-- Control moves over a call of the scheduler. -/
theorem Ledger.paused (h : m.Ledger w) (hn : m.Numbered) {p : Pc}
    (hs : Scheduler.SameMail m.sched m'.sched) (hp : Paused (m.pc i) p)
    (hpc : m'.pc = Function.update m.pc i p) (hcalls : m'.calls = m.calls)
    (htr : m'.trace = m.trace) : m'.Ledger w := by
  refine h.moved hn hs hpc (le_of_eq hcalls.symm) htr ?_ (fun _ _ => hp.same.1) (fun hsync n hd => ?_)
  · have hcall := h.control i
    generalize m.pc i = q at hcall hp
    cases hp with
    | here => exact hcall
    | send a => exact hcall
    | receive => trivial
  · have hout := h.deposited i n hd
    generalize m.pc i = q at hout hp
    cases hp with
    | here => cases hsync.symm.trans hout
    | send a => cases hout
    | receive => cases hsync

theorem Ledger.deposited_moved (h : m.Ledger w) {p : Pc}
    (hpc : m'.pc = Function.update m.pc i p) (hp : p.ownsBuffer = false) {k : Fin maxTasks} {n : Nat}
    (hd : w n = .deposited k) : (m'.pc k).ownsBuffer = false := by
  rw [hpc, Function.update_apply]
  split
  · exact hp
  · exact h.deposited k n hd

theorem Ledger.parked_moved (h : m.Ledger w) {p : Pc} (hpc : m'.pc = Function.update m.pc i p)
    {k : Fin maxTasks} {n : Nat} (hk : k ≠ i) (hpk : w n = .parked k)
    (hst : ∀ t r, m.sched.tasks k = some t → t.state = .blockedOnSend r →
      ∃ t' r', m'.sched.tasks k = some t' ∧ t'.state = .blockedOnSend r') : m'.ParkedBy k n := by
  obtain ⟨ha, t, r, ht, hr⟩ := h.parked k n hpk
  refine ⟨?_, hst t r ht hr⟩
  rwa [hpc, Function.update_of_ne hk]

end Own

end Machine

end Runix
