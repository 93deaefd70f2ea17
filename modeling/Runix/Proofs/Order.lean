import Runix.Proofs.Provenance

namespace Runix

open Lib (Place)

namespace Machine

variable {m m' : Machine} {act : Action} {w : Nat → Place (Fin maxTasks)}
  {sent : Message → TaskId → Prop}

def Stuck (m : Machine) : Prop :=
  ∀ i t a, (m.pc i).sendArgs = some a → m.sched.tasks i = some t →
    t.ipcBuffer.map Message.call = some a.call → ∃ r, t.state = .blockedOnSend r

/-- The frame rule: other tasks keep their buffer and are not woken from a send,
or are in no send call, or have nothing parked any more. -/
theorem Stuck.frame (h : m.Stuck) {i : Fin maxTasks} {p : Pc}
    (hpc : m'.pc = Function.update m.pc i p)
    (hself : ∀ t a, p.sendArgs = some a → m'.sched.tasks i = some t →
      t.ipcBuffer.map Message.call = some a.call → ∃ r, t.state = .blockedOnSend r)
    (hother : ∀ k t, k ≠ i → m'.sched.tasks k = some t → (m.pc k).sendArgs = none ∨
      t.ipcBuffer = none ∨ ∃ t₀, m.sched.tasks k = some t₀ ∧ t.ipcBuffer = t₀.ipcBuffer ∧
        ∀ r, t₀.state = .blockedOnSend r → t.state = .blockedOnSend r) : m'.Stuck := by
  intro k t a hk ht hb
  rw [hpc, Function.update_apply] at hk
  split at hk
  · rename_i hki
    subst hki
    exact hself t a hk ht hb
  · rename_i hki
    rcases hother k t hki ht with hnone | hnone | ⟨t₀, ht₀, hbuf, hst⟩
    · cases hnone.symm.trans hk
    · simp [hnone] at hb
    · obtain ⟨r, hr⟩ := h k t₀ a hk ht₀ (hbuf ▸ hb)
      exact ⟨r, hst r hr⟩

/-- Only the control of task `i` moves, within its call or out of the loop. -/
theorem Stuck.moved (h : m.Stuck) {i : Fin maxTasks} {p : Pc}
    (hpc : m'.pc = Function.update m.pc i p) (hs : m'.sched.tasks = m.sched.tasks)
    (hp : p.sendArgs = none ∨ p.sendArgs = (m.pc i).sendArgs) : m'.Stuck := by
  refine h.frame hpc (fun t a ha ht hb => ?_) (fun k t _ ht => .inr (.inr ⟨t, hs ▸ ht, rfl, fun _ => id⟩))
  rcases hp with hp | hp
  · cases hp.symm.trans ha
  · exact h i t a (hp ▸ ha) (hs ▸ ht) hb

/-- Task `i` leaves the loop and changes one task. -/
theorem Stuck.replaced (h : m.Stuck) {i j : Fin maxTasks} {u u' : Task} {p : Pc}
    (hpc : m'.pc = Function.update m.pc i p) (hu : m.sched.tasks j = some u)
    (hs : m'.sched.tasks = Function.update m.sched.tasks j (some u')) (hp : p.sendArgs = none)
    (hj : j = i ∨ (m.pc j).sendArgs = none ∨ (u'.ipcBuffer = u.ipcBuffer ∧
      ∀ r, u.state = .blockedOnSend r → u'.state = .blockedOnSend r)) : m'.Stuck := by
  refine h.frame hpc (fun t a ha => by cases hp.symm.trans ha) (fun k t hk ht => ?_)
  rw [hs, Function.update_apply] at ht
  split at ht
  · rename_i hkj
    subst hkj
    cases ht
    rcases hj with hj | hj | ⟨hb, hst⟩
    · exact absurd hj hk
    · exact .inl hj
    · exact .inr (.inr ⟨u, hu, hb, hst⟩)
  · exact .inr (.inr ⟨t, ht, rfl, fun _ => id⟩)

/-- A Ready task is not blocked on a send, before or after it is started. -/
theorem Stuck.started (h : m.Stuck) {j : Fin maxTasks} {u : Task} (hu : m.sched.tasks j = some u)
    (hst : u.state = .ready) (hs : m'.sched = m.sched.started j u) (hpc : m'.pc = m.pc) :
    m'.Stuck := by
  intro k v a hk hv hb
  rw [hpc] at hk
  rw [hs, Scheduler.started, Scheduler.set_tasks] at hv
  split at hv
  · rename_i hkj
    subst hkj
    cases hv
    obtain ⟨r, hr⟩ := h k u a hk hu hb
    cases hst.symm.trans hr
  · exact h k v a hk hv hb

theorem sendArgs_of_inReceive {p : Pc} (h : p.inReceive = true) : p.sendArgs = none := by
  cases p <;> first | rfl | cases h

theorem Effect.stuck (he : m.Effect act m') (hv : m.Rendezvous) (hc : m.Carried w sent)
    (h : m.Stuck) (hact : act.isTraffic = true) : m'.Stuck := by
  cases he with
  | refused | idled | revokedNothing | bootHalted => exact h
  | @entered i _ _ _ _ a hi hp ha =>
    refine h.frame rfl (fun t b hb ht hbuf => ?_)
      (fun k t _ ht => .inr (.inr ⟨t, ht, rfl, fun _ => id⟩))
    cases hb
    obtain ⟨msg, hmsg, hcall⟩ := Option.map_eq_some_iff.mp hbuf
    have hbox : m.sched.mailbox i = some msg := (Scheduler.mailbox_eq ht).trans hmsg
    have hplace := hc.lossy.buffer i msg.call (by simp [mail, hbox])
    have hnow := hc.fresh msg.call (by omega)
    rcases hplace with hplace | hplace <;> cases hnow.symm.trans hplace
  | asyncEntered | foundGone | consumed | asyncRefused | receiveEmpty =>
    exact h.moved rfl rfl (.inl rfl)
  | receiveEntered _ _ hp' =>
    exact h.moved rfl rfl (.inl (by rcases hp' with rfl | rfl <;> rfl))
  | retried _ _ hp => exact h.moved rfl rfl (.inr (by rw [hp]; rfl))
  | stayed _ hp => exact h.moved rfl rfl (.inr hp.same.1)
  | rejected _ ht | gone _ ht | receivedQueue _ ht | receivedBuffer _ ht | receiveBlocked _ ht =>
    exact h.replaced rfl ht rfl rfl (.inl rfl)
  | @parked i _ t a r hi ht hp =>
    refine h.frame rfl (fun u b _ hu _ => ?_) (fun k u hk hu => .inr (.inr ⟨u, ?_, rfl, fun _ => id⟩))
    · cases (Scheduler.set_tasks_self ..).symm.trans hu
      exact ⟨r, rfl⟩
    · exact ((setTask_tasks ..).trans (if_neg hk)).symm.trans hu
  | @deposited _ _ _ _ j u _ _ _ _ hu hst =>
    exact h.replaced rfl hu rfl rfl (.inr (.inl (sendArgs_of_inReceive (hv.receiving j u hu hst).pc)))
  | @enqueued _ _ _ _ j u _ _ _ _ _ hu =>
    refine h.replaced rfl hu rfl rfl (.inr (.inr ⟨rfl, fun r hr => ?_⟩))
    simp [hr]
  | @receivedSender i _ t j u t' hi ht hp hq hb hu hst ht' =>
    refine h.frame rfl (fun _ _ ha => by cases ha) (fun k v hk hv => ?_)
    change ((m.setTask j _).setTask i _).sched.tasks k = some v at hv
    rw [setTask_tasks, if_neg hk, setTask_tasks] at hv
    split at hv
    · cases hv
      exact .inr (.inl rfl)
    · exact .inr (.inr ⟨v, hv, rfl, fun _ => id⟩)
  | @switched i _ t p j u sp hi ht hp hj hu hst =>
    have hout : ({ m.setPc i p with
        sched := m.sched.set i (some { t.paused with rsp := sp }) } : Machine).Stuck := by
      refine h.frame rfl (fun v a ha hv hb => ?_)
        (fun k v hk hv => .inr (.inr ⟨v, ?_, rfl, fun _ => id⟩))
      · cases (Scheduler.set_tasks_self ..).symm.trans hv
        obtain ⟨r, hr⟩ := h i t a (hp.same.1 ▸ ha) ht hb
        exact ⟨r, by simp [Task.paused, hr]⟩
      · exact ((Scheduler.set_tasks ..).trans (if_neg hk)).symm.trans hv
    exact hout.started (u := u) (by simpa [Scheduler.set_tasks, hj] using hu) hst rfl rfl
  | started _ hu hst => exact h.started hu hst rfl rfl
  | died | succeeded | created | revoked => cases hact

/-- A message that has been accepted for task `i` and not yet received. The
buffer of a task in a send call may hold its own message instead. -/
inductive Waiting (m : Machine) (i : Fin maxTasks) (msg : Message) : Prop where
  | queue (h : msg ∈ m.sched.queued i)
  | buffer (hb : m.sched.mailbox i = some msg) (hp : (m.pc i).call ≠ some msg.call)

def InOrder (later earlier : Event) : Prop :=
  ∀ i x y, later = .receiveReturned i (.ok x) → earlier = .receiveReturned i (.ok y) →
    x.sender = y.sender → y.call < x.call

/-- The messages of each sender wait, and were received, in the order of the
calls that sent them. -/
structure Ordered (m : Machine) : Prop where
  queue : ∀ i, (m.sched.queued i).Pairwise (fun x y => x.sender = y.sender → x.call < y.call)
  buffer : ∀ i msg, m.sched.mailbox i = some msg → (m.pc i).call ≠ some msg.call →
    ∀ x ∈ m.sched.queued i, x.sender ≠ msg.sender
  received : ∀ i x y, .receiveReturned i (.ok x) ∈ m.trace → m.Waiting i y →
    x.sender = y.sender → x.call < y.call
  trace : m.trace.Pairwise InOrder

section Order
variable {i j : Fin maxTasks} {a : SendArgs} {p : Pc}

theorem pairwise_quiet {evs tr : List Event} (hev : ∀ k msg, .receiveReturned k (.ok msg) ∉ evs)
    (h : tr.Pairwise InOrder) : (evs ++ tr).Pairwise InOrder := by
  have hout : ∀ e ∈ evs, ∀ e', InOrder e e' := by
    rintro e he e' k x y rfl
    exact absurd he (hev k x)
  induction evs with
  | nil => exact h
  | cons e evs ih =>
    refine List.pairwise_cons.mpr ⟨fun e' _ => hout e List.mem_cons_self e', ?_⟩
    exact ih (fun k msg hmem => hev k msg (List.mem_cons_of_mem _ hmem))
      (fun e' he' => hout e' (List.mem_cons_of_mem _ he'))

/-- Nothing new waits. -/
theorem Ordered.fewer (h : m.Ordered)
    (hq : ∀ k, (m'.sched.queued k).Sublist (m.sched.queued k))
    (hb : ∀ k msg, m'.sched.mailbox k = some msg → (m'.pc k).call ≠ some msg.call →
      m.sched.mailbox k = some msg ∧ (m.pc k).call ≠ some msg.call)
    (hrec : ∀ k x, .receiveReturned k (.ok x) ∈ m'.trace →
      .receiveReturned k (.ok x) ∈ m.trace ∨ ∀ y, m'.Waiting k y → x.sender = y.sender →
        x.call < y.call)
    (htr : m'.trace.Pairwise InOrder) : m'.Ordered where
  queue k := (h.queue k).sublist (hq k)
  buffer k msg hk hp x hx := by
    obtain ⟨hk, hp⟩ := hb k msg hk hp
    exact h.buffer k msg hk hp x ((hq k).subset hx)
  received k x y hx hy hs := by
    rcases hrec k x hx with hold | hnew
    · refine h.received k x y hold ?_ hs
      cases hy with
      | queue hy => exact .queue ((hq k).subset hy)
      | buffer hb' hp =>
        obtain ⟨hb', hp⟩ := hb k y hb' hp
        exact .buffer hb' hp
    · exact hnew y hy hs
  trace := htr

/-- A step that accepts and returns no message. -/
theorem Ordered.quiet (h : m.Ordered) (hq : m'.sched.queued = m.sched.queued)
    (hb : ∀ k msg, m'.sched.mailbox k = some msg → (m'.pc k).call ≠ some msg.call →
      m.sched.mailbox k = some msg ∧ (m.pc k).call ≠ some msg.call)
    (evs : List Event) (htr : m'.trace = evs ++ m.trace)
    (hev : ∀ k msg, .receiveReturned k (.ok msg) ∉ evs) : m'.Ordered := by
  refine h.fewer (fun k => by rw [hq]) hb (fun k x hx => .inl ?_) ?_
  · rw [htr] at hx
    exact (List.mem_append.mp hx).resolve_left (hev k x)
  · rw [htr]
    exact pairwise_quiet hev h.trace

/-- Control moves; a copy of the task's own stays in the call it belongs to. -/
theorem Ordered.moved (h : m.Ordered) (hq : m'.sched.queued = m.sched.queued)
    (hb : m'.sched.mailbox = m.sched.mailbox) (hpc : m'.pc = Function.update m.pc i p)
    (evs : List Event) (htr : m'.trace = evs ++ m.trace)
    (hev : ∀ k msg, .receiveReturned k (.ok msg) ∉ evs)
    (hstay : ∀ msg, m.sched.mailbox i = some msg → (m.pc i).call = some msg.call →
      p.call = some msg.call) : m'.Ordered := by
  refine h.quiet hq (fun k msg hk hp => ?_) evs htr hev
  rw [hb] at hk
  refine ⟨hk, fun hc => hp ?_⟩
  rw [hpc, Function.update_apply]
  split
  · rename_i hki
    subst hki
    exact hstay msg hk hc
  · exact hc

/-- The buffer of task `i` is emptied when it leaves a call, or takes its own
message. -/
theorem Ordered.rewritten (h : m.Ordered) {b : Option Message}
    (hq : m'.sched.queued = m.sched.queued)
    (hb : m'.sched.mailbox = Function.update m.sched.mailbox i b)
    (hpc : m'.pc = Function.update m.pc i p) (evs : List Event) (htr : m'.trace = evs ++ m.trace)
    (hev : ∀ k msg, .receiveReturned k (.ok msg) ∉ evs)
    (hown : ∀ msg, b = some msg → p.call = some msg.call) : m'.Ordered := by
  refine h.quiet hq (fun k msg hk hp => ?_) evs htr hev
  rw [hb, Function.update_apply] at hk
  rw [hpc, Function.update_apply] at hp
  split at hk
  · rename_i hki
    rw [if_pos hki] at hp
    exact absurd (hown msg hk) hp
  · rename_i hki
    rw [if_neg hki] at hp
    exact ⟨hk, hp⟩

/-- A receive call of task `i` returns a message that is newer than those before
it and older than those that still wait. -/
theorem Ordered.receives (h : m.Ordered) (msg : Message)
    (hq : ∀ k, (m'.sched.queued k).Sublist (m.sched.queued k))
    (hb : ∀ k x, m'.sched.mailbox k = some x → m.sched.mailbox k = some x)
    (hp : (m.pc i).call = none) (hpc : m'.pc = Function.update m.pc i .user) (evs : List Event)
    (htr : m'.trace = .receiveReturned i (.ok msg) :: evs ++ m.trace)
    (hev : ∀ k msg, .receiveReturned k (.ok msg) ∉ evs)
    (hbefore : ∀ y, .receiveReturned i (.ok y) ∈ m.trace → y.sender = msg.sender →
      y.call < msg.call)
    (hafter : ∀ y, m'.Waiting i y → msg.sender = y.sender → msg.call < y.call) : m'.Ordered := by
  refine h.fewer hq (fun k x hk hpk => ⟨hb k x hk, fun hc => hpk ?_⟩) (fun k x hx => ?_) ?_
  · rw [hpc, Function.update_apply]
    split
    · rename_i hki
      rw [hki, hp] at hc
      cases hc
    · exact hc
  · refine (mem_trace_received evs htr hev hx).imp_right ?_
    rintro ⟨rfl, rfl⟩
    exact hafter
  · rw [htr]
    refine List.pairwise_cons.mpr ⟨?_, pairwise_quiet hev h.trace⟩
    rintro e he k x y heq rfl hs
    cases heq
    exact hbefore y ((List.mem_append.mp he).resolve_left (hev i y)) hs.symm

/-- A message of a call under way is newer than all messages of its sender that
have been received or queued. -/
theorem Carried.newer (hc : m.Carried w sent) (hres : m.Resolved sent)
    (ha : (m.pc i).args = some a) (hw : w a.call = .nowhere ∨ w a.call = .parked i)
    {x : Message} (hx : .receiveReturned j (.ok x) ∈ m.trace ∨ x ∈ m.sched.queued j)
    (hs : x.sender = i) : x.call < a.call := by
  have hsent : sent x j := hx.elim (hc.received j x) (hc.queued j x)
  refine lt_of_le_of_ne (hres.latest i a x j ha hsent hs) (fun heq => ?_)
  have hplace : w a.call = .received j ∨ w a.call = .queued j := by
    rw [← heq]
    exact hx.imp hc.received_place hc.queued_place
  grind

/-- A new message is accepted for task `j`, newer than all it has received from
the sender. -/
theorem Ordered.accepts (h : m.Ordered) {msg : Message}
    (hqueue : ∀ k, (m'.sched.queued k).Pairwise (fun x y => x.sender = y.sender → x.call < y.call))
    (hbuffer : ∀ k x, m'.sched.mailbox k = some x → (m'.pc k).call ≠ some x.call →
      ∀ y ∈ m'.sched.queued k, y.sender ≠ x.sender)
    (hwait : ∀ k y, m'.Waiting k y → m.Waiting k y ∨ (k = j ∧ y = msg))
    (hbefore : ∀ y, .receiveReturned j (.ok y) ∈ m.trace → y.sender = msg.sender →
      y.call < msg.call)
    (evs : List Event) (htr : m'.trace = evs ++ m.trace)
    (hev : ∀ k msg, .receiveReturned k (.ok msg) ∉ evs) : m'.Ordered := by
  refine ⟨hqueue, hbuffer, fun k x y hx hy hs => ?_, htr ▸ pairwise_quiet hev h.trace⟩
  rw [htr] at hx
  have hx := (List.mem_append.mp hx).resolve_left (hev k x)
  rcases hwait k y hy with hold | ⟨rfl, rfl⟩
  · exact h.received k x y hx hold hs
  · exact hbefore x hx hs

/-- A sender comes back from a call whose message it has not parked: what its
buffer holds has been waiting before. -/
theorem not_own_update (hpc : m'.pc = Function.update m.pc i .user)
    (hself : ∀ x, m.sched.mailbox i = some x → (m.pc i).call ≠ some x.call) {k : Fin maxTasks}
    {x : Message} (hk : m.sched.mailbox k = some x) (hp : (m'.pc k).call ≠ some x.call) :
    (m.pc k).call ≠ some x.call := by
  rw [hpc, Function.update_apply] at hp
  split at hp
  · rename_i hki
    subst hki
    exact hself x hk
  · exact hp

/-- A message is deposited with a receiver that has nothing else. -/
theorem Ordered.deposits (h : m.Ordered) {msg : Message} (hq : m'.sched.queued = m.sched.queued)
    (hb : m'.sched.mailbox = Function.update m.sched.mailbox j (some msg))
    (hempty : m.sched.queued j = []) (hpc : m'.pc = Function.update m.pc i .user)
    (hself : ∀ x, m.sched.mailbox i = some x → (m.pc i).call ≠ some x.call)
    (hbefore : ∀ y, .receiveReturned j (.ok y) ∈ m.trace → y.sender = msg.sender →
      y.call < msg.call)
    (evs : List Event) (htr : m'.trace = evs ++ m.trace)
    (hev : ∀ k msg, .receiveReturned k (.ok msg) ∉ evs) : m'.Ordered := by
  refine h.accepts (fun k => hq ▸ h.queue k) (fun k x hk hp y hy => ?_) (fun k y hy => ?_) hbefore
    evs htr hev
  · rw [hq] at hy
    rw [hb, Function.update_apply] at hk
    split at hk
    · rename_i hkj
      rw [hkj, hempty] at hy
      cases hy
    · exact h.buffer k x hk (not_own_update hpc hself hk hp) y hy
  · cases hy with
    | queue hy => exact .inl (.queue (hq ▸ hy))
    | buffer hk hp =>
      rw [hb, Function.update_apply] at hk
      split at hk
      · rename_i hkj
        exact .inr ⟨hkj, (Option.some.inj hk).symm⟩
      · exact .inl (.buffer hk (not_own_update hpc hself hk hp))

/-- A message is queued for a task whose buffer holds none of this sender's. -/
theorem Ordered.enqueues (h : m.Ordered) (msg : Message) (hb : m'.sched.mailbox = m.sched.mailbox)
    (hq : m'.sched.queued = Function.update m.sched.queued j (m.sched.queued j ++ [msg]))
    (hpc : m'.pc = Function.update m.pc i .user)
    (hself : ∀ x, m.sched.mailbox i = some x → (m.pc i).call ≠ some x.call)
    (hover : ∀ x, m.sched.mailbox j = some x → x.sender ≠ msg.sender)
    (hold : ∀ x ∈ m.sched.queued j, x.sender = msg.sender → x.call < msg.call)
    (hbefore : ∀ y, .receiveReturned j (.ok y) ∈ m.trace → y.sender = msg.sender →
      y.call < msg.call)
    (evs : List Event) (htr : m'.trace = evs ++ m.trace)
    (hev : ∀ k msg, .receiveReturned k (.ok msg) ∉ evs) : m'.Ordered := by
  have hcases : ∀ k y, y ∈ m'.sched.queued k → y ∈ m.sched.queued k ∨ (k = j ∧ y = msg) := by
    intro k y hy
    rw [hq, Function.update_apply] at hy
    split at hy
    · rename_i hkj
      subst hkj
      exact (List.mem_append.mp hy).imp_right (fun hy => ⟨rfl, List.mem_singleton.mp hy⟩)
    · exact .inl hy
  refine h.accepts (fun k => ?_) (fun k x hk hp y hy => ?_) (fun k y hy => ?_) hbefore evs htr hev
  · rw [hq, Function.update_apply]
    split
    · refine List.pairwise_append.mpr ⟨h.queue j, List.pairwise_singleton .., fun x hx y hy => ?_⟩
      cases List.mem_singleton.mp hy
      exact hold x hx
    · exact h.queue k
  · rw [hb] at hk
    rcases hcases k y hy with hy | ⟨rfl, rfl⟩
    · exact h.buffer k x hk (not_own_update hpc hself hk hp) y hy
    · exact (hover x hk).symm
  · cases hy with
    | queue hy => exact (hcases k y hy).imp_left .queue
    | buffer hk hp =>
      rw [hb] at hk
      exact .inl (.buffer hk (not_own_update hpc hself hk hp))

end Order

/-- The step queues a message for a task whose buffer still holds an earlier
message of the same sender. -/
def overtakes (m : Machine) : Action → Bool
  | .proceed _ =>
    match m.cpu with
    | .task i =>
      match m.pc i with
      | .sendAsync a =>
        match m.sched.resolveTargetLocked i a.capIdx with
        | .ok target =>
          decide (((m.sched.getTask target).bind Task.ipcBuffer).map Message.sender = some i.val)
        | .error _ => false
      | _ => false
    | _ => false
  | _ => false

theorem overtakes_eq (hw : m.Wf) {i j : Fin maxTasks} {t u : Task} {a : SendArgs}
    (hi : m.cpu = .task i) (ht : m.sched.tasks i = some t) (hp : m.pc i = .sendAsync a)
    (hc : t.capTable.channel a.capIdx = some j.val) (hu : m.sched.tasks j = some u)
    (sp : StackPointer) :
    m.overtakes (.proceed sp) = decide (u.ipcBuffer.map Message.sender = some i.val) := by
  have hres := Scheduler.resolveTargetLocked_eq hw.indexed ht a.capIdx
  rw [hc] at hres
  simp [overtakes, hi, hp, hres, hw.indexed.getTask, hu]

/-- While nobody dies, no sender delivers over its own parked copy. -/
theorem Stuck.leavesCopy (h : m.Stuck) (hw : m.Wf) (hv : m.Rendezvous) (act : Action) :
    m.leavesCopy act = false := by
  cases act with
  | proceed sp =>
    cases hi : m.cpu with
    | task i =>
      cases hp : m.pc i with
      | send a =>
        obtain ⟨_, t, ht⟩ := hw.current i hi
        simp only [Machine.leavesCopy, hi, hp, Scheduler.mailbox_eq ht,
          Scheduler.resolveTargetLocked_eq hw.indexed ht]
        by_cases hown : t.ipcBuffer.map Message.call = some a.call
        · obtain ⟨r, hr⟩ := h i t a (by rw [hp]; rfl) ht hown
          obtain ⟨r', _, hs⟩ := hv.send_blocked (a := a) (by rw [hp]; rfl) ht (hr ▸ .send r)
          obtain ⟨k, v, hv, rfl, _, hne⟩ := hs.target
          simp [hs.channel, hw.indexed.getTask, hv, hne]
        · simp [hown]
      | _ => simp [Machine.leavesCopy, hi, hp]
    | _ => simp [Machine.leavesCopy, hi]
  | _ => rfl

theorem Effect.ordered (he : m.Effect act m') (hw : m.Wf) (hv : m.Rendezvous) (hsp : m.Spun)
    (hres : m.Resolved sent) (hc : m.Carried w sent) (h : m.Ordered) (hact : act.isTraffic = true)
    (hcopy : m.leavesCopy act = false) (hover : m.overtakes act = false) : m'.Ordered := by
  have outside : ∀ {i : Fin maxTasks} {msg : Message} {P : Prop}, (m.pc i).call = none →
      m.sched.mailbox i = some msg → (m.pc i).call = some msg.call → P :=
    fun hp _ hown => by cases hp.symm.trans hown
  cases he with
  | @refused i =>
    exact h.moved rfl rfl (Function.update_eq_self i m.pc).symm [_] rfl (by simp) (fun _ _ => id)
  | entered _ hp | asyncEntered _ hp =>
    exact h.moved rfl rfl rfl [] rfl (by simp) (fun _ => outside (by rw [hp]; rfl))
  | receiveEntered _ hp =>
    exact h.moved rfl rfl rfl [] rfl (by simp) (fun _ => outside (by rw [hp]; rfl))
  | rejected _ ht | gone _ ht =>
    exact h.rewritten (Scheduler.queued_same ht rfl) (Scheduler.mailbox_set ..) rfl [_] rfl (by simp)
      (fun _ hb => by cases hb)
  | parked _ ht =>
    refine h.rewritten (Scheduler.queued_same ht rfl) (Scheduler.mailbox_set ..) rfl [] rfl (by simp)
      (fun _ hb => ?_)
    cases hb
    rfl
  | foundGone _ _ hp | retried _ _ hp =>
    exact h.moved rfl rfl rfl [] rfl (by simp) (fun _ _ hown => by rw [hp] at hown; exact hown)
  | @consumed i _ t a hi ht hp hb =>
    refine h.moved rfl rfl rfl [_] rfl (by simp) (fun msg hb' => ?_)
    cases hb.symm.trans ((Scheduler.mailbox_eq ht).symm.trans hb')
  | receiveBlocked _ ht hp =>
    exact h.moved (Scheduler.queued_same ht rfl) (Scheduler.mailbox_same ht rfl) rfl [] rfl (by simp)
      (fun _ => outside (by rw [hp]; rfl))
  | receiveEmpty _ hp =>
    exact h.moved rfl rfl rfl [_] rfl (by simp) (fun _ => outside (by rw [hp]; rfl))
  | stayed _ hp =>
    exact h.moved rfl rfl rfl [] rfl (by simp) (fun _ _ hown => hp.call.trans hown)
  | @switched i _ t p j u sp hi ht hp hj hu hst =>
    have hin := Scheduler.SameMail.started (s := m.sched.set i (some { t.paused with rsp := sp }))
      (by rw [Scheduler.set_tasks, if_neg hj, hu]) hst
    exact h.moved (hin.queued.trans (Scheduler.queued_same ht rfl))
      (hin.mailbox.trans (Scheduler.mailbox_same ht rfl)) rfl [] rfl (by simp)
      (fun _ _ hown => hp.call.trans hown)
  | idled | revokedNothing => exact h
  | bootHalted => exact h.quiet rfl (fun _ _ hk hp => ⟨hk, hp⟩) [] rfl (by simp)
  | @started _ j u hb hu hst =>
    have hsame := Scheduler.SameMail.started hu hst
    exact h.moved hsame.queued hsame.mailbox (Function.update_eq_self j m.pc).symm [] rfl (by simp)
      (fun _ _ => id)
  | @asyncRefused i _ a e hi hp =>
    refine h.moved rfl rfl rfl [_] rfl (by simp) (fun msg hb hown => ?_)
    exact absurd hown (hc.not_own (by rw [hp]; rfl) (hc.nowhere_of_async hp) msg hb)
  | @deposited i sp t a j u hi ht hp hcap hu hst =>
    have hnow := hc.nowhere_of_deposit hw hi ht hp hcap hu hst hcopy
    have hempty : m.sched.queued j = [] :=
      (Scheduler.queued_eq hu).trans (hv.receiving j u hu hst).queue
    exact h.deposits (Scheduler.queued_same hu rfl) (Scheduler.mailbox_set ..) hempty rfl
      (hc.not_own (by rw [hp]; rfl) hnow)
      (fun y hy hs => hc.newer hres (by rw [hp]; rfl) (.inl hnow) (.inl hy) hs) [_, _] rfl (by simp)
  | @enqueued i sp t a j u queue hi ht hp hcap hu hst hq =>
    have hnow := hc.nowhere_of_async hp
    have hargs : (m.pc i).args = some a := by rw [hp]; rfl
    rw [overtakes_eq hw hi ht hp hcap hu] at hover
    refine h.enqueues (j := j) (a.message i) (Scheduler.mailbox_same hu rfl) ?_ rfl
      (hc.not_own (by rw [hp]; rfl) hnow)
      (fun x hx hs => of_decide_eq_false hover ?_) (fun x hx hs => hc.newer hres hargs (.inl hnow) (.inr hx) hs)
      (fun y hy hs => hc.newer hres hargs (.inl hnow) (.inl hy) hs) [_, _] rfl (by simp)
    · rw [Scheduler.queued_eq hu, ← Lib.Ring.contents_enqueue hq]
      exact Scheduler.queued_set ..
    · rw [← Scheduler.mailbox_eq hu, hx, Option.map_some, hs]
      rfl
  | @receivedQueue i _ t msg queue hi ht hp hq =>
    have hqueue : m.sched.queued i = msg :: Lib.Ring.contents queue := (Scheduler.queued_eq ht).trans hq
    have hset : (m.sched.set i (some { t with msgQueue := queue })).queued =
        Function.update m.sched.queued i (Lib.Ring.contents queue) := Scheduler.queued_set ..
    have hbox : (m.sched.set i (some { t with msgQueue := queue })).mailbox = m.sched.mailbox :=
      Scheduler.mailbox_same ht rfl
    have hhead : msg ∈ m.sched.queued i := by rw [hqueue]; exact List.mem_cons_self
    have hsorted := h.queue i
    rw [hqueue] at hsorted
    refine h.receives msg (fun k => ?_) (fun k x hx => hbox ▸ hx) (no_call_of_receiving hp).1 rfl [] rfl
      (by simp) (fun y hy hs => h.received i y msg hy (.queue hhead) hs) (fun y hy hs => ?_)
    · change ((m.sched.set i (some { t with msgQueue := queue })).queued k).Sublist _
      rw [hset, Function.update_apply]
      split
      · rename_i hki
        rw [hki, hqueue]
        exact List.sublist_cons_self ..
      · exact .refl _
    · cases hy with
      | queue hy =>
        change y ∈ (m.sched.set i (some { t with msgQueue := queue })).queued i at hy
        rw [hset, Function.update_self] at hy
        exact (List.pairwise_cons.mp hsorted).1 y hy hs
      | buffer hy _ =>
        have hne := h.buffer i y (hbox ▸ hy) (by simp [(no_call_of_receiving hp).1]) msg hhead
        exact absurd hs hne
  | @receivedBuffer i _ t msg hi ht hp hq hb =>
    have hnone := (no_call_of_receiving hp).1
    have hqueue : (m.sched.set i (some { t with ipcBuffer := none })).queued = m.sched.queued :=
      Scheduler.queued_same ht rfl
    have hbox : (m.sched.set i (some { t with ipcBuffer := none })).mailbox =
        Function.update m.sched.mailbox i none := Scheduler.mailbox_set ..
    have hmsg : m.Waiting i msg := .buffer ((Scheduler.mailbox_eq ht).trans hb) (by simp [hnone])
    refine h.receives msg (fun k => ?_) (fun k x hx => ?_) hnone rfl [] rfl (by simp)
      (fun y hy hs => h.received i y msg hy hmsg hs) (fun y hy _ => ?_)
    · change ((m.sched.set i (some { t with ipcBuffer := none })).queued k).Sublist _
      rw [hqueue]
    · change (m.sched.set i (some { t with ipcBuffer := none })).mailbox k = some x at hx
      rw [hbox, Function.update_apply] at hx
      split at hx
      · cases hx
      · exact hx
    · cases hy with
      | queue hy =>
        change y ∈ (m.sched.set i (some { t with ipcBuffer := none })).queued i at hy
        rw [hqueue, Scheduler.queued_eq ht, hq] at hy
        cases hy
      | buffer hy _ =>
        change (m.sched.set i (some { t with ipcBuffer := none })).mailbox i = some y at hy
        rw [hbox, Function.update_self] at hy
        cases hy
  | @receivedSender i _ t j u t' hi ht hp hq hb hu hst ht' =>
    obtain ⟨a, ha, hji, hpj⟩ := hsp.waiting hv hi hp hu hst
    have hholds := hc.holds_of_waiting hpj (by simp [Scheduler.mailbox_eq hu, ha.message])
    have hargs : (m.pc j).args = some a := by rcases hpj with hpj | hpj <;> rw [hpj] <;> rfl
    obtain ⟨_, hqueued, hmailbox⟩ := Scheduler.fetched hu rfl ht' rfl
    refine h.receives (a.message j) (fun k => ?_) (fun k x hx => ?_)
      (no_call_of_receiving hp).1 rfl [.delivered (a.message j) i] ?_ (by simp)
      (fun y hy hs => hc.newer hres hargs (.inr hholds.place) (.inl hy) hs) (fun y hy _ => ?_)
    · exact (congrFun hqueued k) ▸ .refl _
    · have hx := (congrFun hmailbox k).symm.trans hx
      rw [Function.update_apply] at hx
      split at hx
      · cases hx
      · exact hx
    · rw [ha.message]
      rfl
    · cases hy with
      | queue hy =>
        have hy : y ∈ m.sched.queued i := congrFun hqueued i ▸ hy
        rw [Scheduler.queued_eq ht, hq] at hy
        cases hy
      | buffer hy _ =>
        have hy := (congrFun hmailbox i).symm.trans hy
        rw [Function.update_of_ne hji.symm, Scheduler.mailbox_eq ht, hb] at hy
        cases hy
  | died | succeeded | created | revoked => cases hact

def KeepsOrder (m : Machine) (act : Action) : Prop :=
  act.isTraffic = true ∧ m.overtakes act = false

instance (m : Machine) (act : Action) : Decidable (m.KeepsOrder act) :=
  inferInstanceAs (Decidable (_ ∧ _))

structure Sequenced (m₀ : Machine) (as : List Action) (m : Machine) : Prop where
  traced : m₀.Traced as m
  stuck : m.Stuck
  ordered : m.Ordered

theorem Unused.sequenced (h : m.Unused) : m.Sequenced [] m where
  traced := h.traced
  stuck i t a hp := by
    rw [h.pc] at hp
    cases hp
  ordered := by
    refine ⟨fun i => ?_, fun i msg _ _ x hx => ?_, fun i x y hx => ?_, ?_⟩
    · rw [h.queued_nil]
      exact .nil
    · rw [h.queued_nil] at hx
      cases hx
    · rw [h.trace] at hx
      cases hx
    · rw [h.trace]
      exact .nil

theorem run_sequenced {m₀ : Machine} {as : List Action} (h : m₀.Unused)
    (hr : Lib.Run (Lib.Guarded KeepsOrder (Lib.Steps Machine.step)) m₀ as m) :
    m₀.Sequenced as m := by
  refine hr.history h.sequenced (fun as t a u hs ht hstep => ?_)
  obtain ⟨⟨hact, hover⟩, hstep⟩ := hstep
  have hsound := ht.traced.sound
  have he := step_effect hsound.wf hstep
  have hcopy := ht.stuck.leavesCopy hsound.wf hsound.rendezvous a
  obtain ⟨w, hw⟩ := ht.traced.carried
  exact ⟨ht.traced.step (hs.mono (fun _ _ _ h => h.2)) (isRevoke_of_traffic hact)
      (fromOwnCode_of_traffic t hact) hcopy hstep,
    he.stuck hsound.rendezvous hw ht.stuck hact,
    he.ordered hsound.wf hsound.rendezvous ht.traced.spun ht.traced.resolved hw ht.ordered hact hcopy
      hover⟩

/-- Per-sender order: a message whose send returned Ok before the send of another
started is never received after it. -/
theorem per_sender_fifo {m₀ m₁ m₂ : Machine} {as bs : List Action} (h0 : m₀.Unused)
    (h₁ : Lib.Run (Lib.Guarded KeepsOrder (Lib.Steps Machine.step)) m₀ as m₁)
    (h₂ : Lib.Run (Lib.Guarded KeepsOrder (Lib.Steps Machine.step)) m₁ bs m₂)
    (s r : Fin maxTasks) (c : Nat) (x y : Message) (hx : x.sender = s) (hy : y.sender = s)
    (hok : .sendReturned s x.call c (.ok ()) ∈ m₁.trace) (hlater : m₁.calls ≤ y.call)
    (later between earlier : List Event) :
    m₂.trace ≠ later ++ .receiveReturned r (.ok x) :: (between ++ .receiveReturned r (.ok y) :: earlier) := by
  intro htr
  have hstarted := ((run_sequenced h0 h₁).traced.numbered.returned s x.call c _ hok).1
  have hsorted := (run_sequenced h0 (h₁.append h₂)).ordered.trace
  rw [htr] at hsorted
  have htail := (List.pairwise_append.mp hsorted).2.1
  have hlt := (List.pairwise_cons.mp htail).1 _
    (List.mem_append_right between List.mem_cons_self) r x y rfl rfl (hx.trans hy.symm)
  omega

def handOver : List Action :=
  [.yield ⟨1, Nat.one_ne_zero⟩, .yield ⟨1, Nat.one_ne_zero⟩, .receiveTyped,
    .proceed ⟨1, Nat.one_ne_zero⟩, .proceed ⟨1, Nat.one_ne_zero⟩, .sendTyped 0 0 0 [],
    .proceed ⟨1, Nat.one_ne_zero⟩]

def inTurn : List Action :=
  [.yield ⟨1, Nat.one_ne_zero⟩, .proceed ⟨1, Nat.one_ne_zero⟩, .yield ⟨1, Nat.one_ne_zero⟩,
    .sendAsync 0 0 0 [], .proceed ⟨1, Nat.one_ne_zero⟩, .yield ⟨1, Nat.one_ne_zero⟩, .receiveTyped,
    .proceed ⟨1, Nat.one_ne_zero⟩]

theorem per_sender_fifo_in_turn : ∃ m₁ m₂ x y,
    Lib.Run (Lib.Guarded KeepsOrder (Lib.Steps Machine.step)) (boot (Scheduler.ofList pair))
      handOver m₁ ∧
    Lib.Run (Lib.Guarded KeepsOrder (Lib.Steps Machine.step)) m₁ inTurn m₂ ∧
    .receiveReturned ⟨1, by decide⟩ (.ok x) ∈ m₂.trace ∧
    .receiveReturned ⟨1, by decide⟩ (.ok y) ∈ m₂.trace ∧ x.call < y.call ∧
    ∀ later between earlier, m₂.trace ≠ later ++ .receiveReturned ⟨1, by decide⟩ (.ok x) ::
      (between ++ .receiveReturned ⟨1, by decide⟩ (.ok y) :: earlier) := by
  have h₁ : ∃ m₁, Lib.Run (Lib.Guarded KeepsOrder (Lib.Steps Machine.step))
      (boot (Scheduler.ofList pair)) handOver m₁ ∧ ∃ m₂,
      Lib.Run (Lib.Guarded KeepsOrder (Lib.Steps Machine.step)) m₁ inTurn m₂ ∧ ∃ x y,
      .sendReturned ⟨0, by decide⟩ x.call 0 (.ok ()) ∈ m₁.trace ∧ x.sender = 0 ∧ y.sender = 0 ∧
      x.call < y.call ∧ m₁.calls ≤ y.call ∧
      .receiveReturned ⟨1, by decide⟩ (.ok x) ∈ m₂.trace ∧
      .receiveReturned ⟨1, by decide⟩ (.ok y) ∈ m₂.trace :=
    ⟨_, Lib.guarded_of_execute rfl (by decide), _, Lib.guarded_of_execute rfl (by decide), _, _,
      List.mem_of_getElem? (i := 1) rfl, rfl, rfl, by decide, by decide,
      List.mem_of_getElem? (i := 3) rfl, List.mem_of_getElem? (i := 0) rfl⟩
  obtain ⟨m₁, h₁, m₂, h₂, x, y, hok, hx, hy, hlt, hlater, hrx, hry⟩ := h₁
  exact ⟨m₁, m₂, x, y, h₁, h₂, hrx, hry, hlt,
    per_sender_fifo unused_pair h₁ h₂ _ _ 0 x y hx hy hok hlater⟩

/-- The first queues another before the second has run; the second takes the
queued message first. -/
def overtaken : List Action :=
  [.sendAsync 0 0 0 [], .proceed ⟨1, Nat.one_ne_zero⟩, .yield ⟨1, Nat.one_ne_zero⟩,
    .proceed ⟨1, Nat.one_ne_zero⟩, .receiveTyped, .proceed ⟨1, Nat.one_ne_zero⟩]

theorem queued_overtakes_deposited : ∃ m₁ m₂ x y earlier,
    Lib.Run (Lib.Steps Machine.step) (boot (Scheduler.ofList pair)) handOver m₁ ∧
    Lib.Run (Lib.Steps Machine.step) m₁ overtaken m₂ ∧
    (∀ a ∈ handOver ++ overtaken, a.isTraffic = true) ∧
    .sendReturned ⟨0, by decide⟩ x.call 0 (.ok ()) ∈ m₁.trace ∧ m₁.calls ≤ y.call ∧
    x.sender = 0 ∧ y.sender = 0 ∧
    m₂.trace = .receiveReturned ⟨1, by decide⟩ (.ok x) ::
      .receiveReturned ⟨1, by decide⟩ (.ok y) :: earlier :=
  ⟨_, _, _, _, _, Lib.run_of_execute rfl, Lib.run_of_execute rfl, by decide,
    List.mem_of_getElem? (i := 1) rfl, by decide, rfl, rfl, rfl⟩

end Machine

end Runix
