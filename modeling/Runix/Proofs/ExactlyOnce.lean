import Runix.Proofs.Routes

namespace Runix

namespace Machine

variable {m m' : Machine} {act : Action} {w : Nat → Lib.Place (Fin maxTasks)}

def pending (m : Machine) (k : Fin maxTasks) (n : Nat) : Nat :=
  (m.sched.queued k).countP (fun msg => msg.call = n) +
    if (m.sched.mailbox k).map Message.call = some n then 1 else 0

def receipts (m : Machine) (k : Fin maxTasks) (n : Nat) : Nat :=
  m.trace.countP (Event.isReceipt k n)

structure Unused (m : Machine) : Prop where
  atBoot : m.AtBoot
  pc : ∀ i, m.pc i = .user
  trace : m.trace = []
  empty : ∀ i t, m.sched.tasks i = some t → t.msgQueue.contents = [] ∧ t.ipcBuffer = none

structure Accounted (m : Machine) : Prop where
  sound : m.Sound
  numbered : m.Numbered
  spun : m.Spun
  ledger : ∃ w, m.Ledger w

theorem Unused.queued_nil (h : m.Unused) (i : Fin maxTasks) : m.sched.queued i = [] := by
  cases ht : m.sched.tasks i with
  | none => simp [Scheduler.queued, ht]
  | some t => rw [Scheduler.queued_eq ht, (h.empty i t ht).1]

theorem Unused.mail_empty (h : m.Unused) :
    m.mail = ⟨fun _ _ => 0, fun _ => none, fun _ _ => 0⟩ := by
  have hb : ∀ i, m.sched.mailbox i = none := by
    intro i
    cases ht : m.sched.tasks i with
    | none => simp [Scheduler.mailbox, ht]
    | some t => rw [Scheduler.mailbox_eq ht, (h.empty i t ht).2]
  simp [mail, h.queued_nil, hb, h.trace]

theorem Unused.accounted (h : m.Unused) : m.Accounted where
  sound := h.atBoot.sound
  numbered := by
    refine ⟨fun i n hi => ?_, fun i j n hi => ?_, fun i n c res hmem => ?_⟩
    · simp [h.pc, Pc.call, Pc.args] at hi
    · simp [h.pc, Pc.call, Pc.args] at hi
    · simp [h.trace] at hmem
  spun i t r a ht hst := by cases (h.atBoot.ready i t ht).symm.trans hst
  ledger := by
    refine ⟨fun _ => .nowhere, h.mail_empty ▸ .empty, fun _ _ => rfl, fun i => ?_, ?_, ?_, ?_⟩
    · rw [h.pc]
      trivial
    · intro i n hw
      cases hw
    · intro i n hw
      cases hw
    · intro i n c res hmem
      simp [h.trace] at hmem

theorem isRevoke_of_traffic {a : Action} (h : a.isTraffic = true) : a.isRevoke = false := by
  cases a with
  | revoke => cases h
  | _ => rfl

theorem Accounted.step (h : m.Accounted) (hact : act.isTraffic = true) (hk : m.KeepsMail act)
    (hs : m.step act = some m') : m'.Accounted := by
  have he := step_effect h.sound.wf hs
  obtain ⟨w, hw⟩ := h.ledger
  exact ⟨h.sound.step (isRevoke_of_traffic hact) hs, he.numbered h.numbered,
    he.spun h.sound.rendezvous h.spun (fromOwnCode_of_traffic m hact),
    he.ledger h.sound.wf h.sound.rendezvous h.numbered h.spun hw hact hk⟩

theorem Ledger.pending_eq (h : m.Ledger w) (k : Fin maxTasks) (n : Nat) :
    m.pending k n + m.receipts k n =
      if w n = .queued k ∨ w n = .parked k ∨ w n = .deposited k ∨ w n = .received k then 1
      else 0 := by
  have hq := h.custody.queue_eq k n
  have hb := h.custody.buffer_iff k n
  have hr := h.custody.receipts k n
  simp only [mail] at hq hb hr
  simp only [pending, receipts, hq, hb, hr]
  grind

/-- As long as no synchronous send writes its buffer over the message of another, every send that returned Ok has its message waiting for the target
once, or received by the target once, and nowhere else; and the message of a
failed send is never received. -/
theorem exactly_once {m₀ : Machine} {as : List Action} (h0 : m₀.Unused)
    (hr : Lib.Run (Lib.Guarded KeepsMail (Lib.Steps Machine.step)) m₀ as m)
    (has : ∀ a ∈ as, a.isTraffic = true) :
    (∀ i n c, .sendReturned i n c (.ok ()) ∈ m.trace → ∃ r : Fin maxTasks,
      m.sched.channel i c = some r.val ∧
      ∀ k, m.pending k n + m.receipts k n = if k = r then 1 else 0) ∧
    ∀ i n c e, .sendReturned i n c (.error e) ∈ m.trace → ∀ k, m.receipts k n = 0 := by
  have hacc : m.Accounted :=
    (hr.guard (fun _ a => a.isTraffic = true) (fun a ha _ => has a ha)).invariant h0.accounted
      (fun _ _ _ hs hstep => hs.step hstep.1 hstep.2.1 hstep.2.2)
  obtain ⟨w, hw⟩ := hacc.ledger
  refine ⟨fun i n c hmem => ?_, fun i n c e hmem k => ?_⟩
  · obtain ⟨r, hchan, hplace⟩ := hw.outcome i n c _ hmem
    refine ⟨r, hchan, fun k => ?_⟩
    rw [hw.pending_eq]
    rcases hplace with hplace | hplace | hplace <;> rw [hplace] <;> grind
  · have hnow : w n = .nowhere := hw.outcome i n c _ hmem
    have hsum := hw.pending_eq k n
    rw [hnow] at hsum
    simp only [reduceCtorEq, or_self, if_false] at hsum
    omega

theorem unused_ofList {ts : List Task} (hb : (boot (Scheduler.ofList ts)).AtBoot)
    (hempty : ∀ t ∈ ts, t.msgQueue.contents = [] ∧ t.ipcBuffer = none) :
    (boot (Scheduler.ofList ts)).Unused where
  atBoot := hb
  pc _ := rfl
  trace := rfl
  empty _ t ht := hempty t (List.mem_of_find?_eq_some ht)

theorem unused_pair : (boot (Scheduler.ofList pair)).Unused := by
  apply unused_ofList atBoot_pair
  simp [pair, Task.new, MessageQueue.new]

/-- The second task waits for a message. The first deposits one and queues
another, and the second takes the queued one. -/
def crossed : List Action :=
  [.yield ⟨1, Nat.one_ne_zero⟩, .yield ⟨1, Nat.one_ne_zero⟩, .receiveTyped,
    .proceed ⟨1, Nat.one_ne_zero⟩, .proceed ⟨1, Nat.one_ne_zero⟩, .sendTyped 0 0 0 [],
    .proceed ⟨1, Nat.one_ne_zero⟩, .sendAsync 0 0 0 [], .proceed ⟨1, Nat.one_ne_zero⟩,
    .yield ⟨1, Nat.one_ne_zero⟩, .proceed ⟨1, Nat.one_ne_zero⟩]

def peers : List Task :=
  [Task.new 0 0 0 (CapTable.ofList [⟨.ipcChannel 1, true, true, true, false, 1, none⟩]),
    Task.new 0 0 1 (CapTable.ofList [⟨.ipcChannel 0, true, true, true, false, 2, none⟩])]

theorem unused_peers : (boot (Scheduler.ofList peers)).Unused := by
  refine unused_ofList (atBoot_ofList (by decide) (by decide)) ?_
  simp [peers, Task.new, MessageQueue.new]

/-- With the deposited message still in its buffer the second task sends to the first, which waits
for it. -/
def handshake : List Action :=
  crossed ++ [.yield ⟨1, Nat.one_ne_zero⟩, .receiveTyped, .proceed ⟨1, Nat.one_ne_zero⟩,
    .proceed ⟨1, Nat.one_ne_zero⟩, .sendTyped 0 0 0 [], .proceed ⟨1, Nat.one_ne_zero⟩]

theorem exactly_once_handshake : ∃ m,
    Lib.Run (Lib.Guarded KeepsMail (Lib.Steps Machine.step)) (boot (Scheduler.ofList peers))
      handshake m ∧
    (.sendReturned ⟨0, by decide⟩ 0 0 (.ok ()) ∈ m.trace ∧
      ∃ r : Fin maxTasks, m.sched.channel ⟨0, by decide⟩ 0 = some r.val ∧
        ∀ k, m.pending k 0 + m.receipts k 0 = if k = r then 1 else 0) ∧
    .sendReturned ⟨1, by decide⟩ 2 0 (.ok ()) ∈ m.trace ∧
      ∃ r : Fin maxTasks, m.sched.channel ⟨1, by decide⟩ 0 = some r.val ∧
        ∀ k, m.pending k 2 + m.receipts k 2 = if k = r then 1 else 0 := by
  obtain ⟨m, hr, hmem, hmem'⟩ : ∃ m,
      Lib.Run (Lib.Guarded KeepsMail (Lib.Steps Machine.step)) (boot (Scheduler.ofList peers))
        handshake m ∧ .sendReturned ⟨0, by decide⟩ 0 0 (.ok ()) ∈ m.trace ∧
        .sendReturned ⟨1, by decide⟩ 2 0 (.ok ()) ∈ m.trace :=
    ⟨_, Lib.guarded_of_execute rfl (by decide +kernel), List.mem_of_getElem? (i := 6) rfl,
      List.mem_of_getElem? (i := 1) rfl⟩
  have hsent := (exactly_once unused_peers hr (by decide)).1
  exact ⟨m, hr, ⟨hmem, hsent _ 0 0 hmem⟩, hmem', hsent _ 2 0 hmem'⟩

/-- With the deposited message still in its buffer the second task sends to the first, which does
not wait for it. -/
def overwrite : List Action :=
  crossed ++ [.sendTyped 0 0 0 [], .proceed ⟨1, Nat.one_ne_zero⟩]

/-- The deposited message, whose send returned Ok, is lost. -/
theorem accepted_message_lost : ∃ m,
    Lib.Run (Lib.Steps Machine.step) (boot (Scheduler.ofList pair)) overwrite m ∧
    .sendReturned ⟨0, by decide⟩ 0 0 (.ok ()) ∈ m.trace ∧
    ∀ k, m.pending k 0 = 0 ∧ m.receipts k 0 = 0 := by
  have hlost : ((Lib.execute Machine.step (boot (Scheduler.ofList pair)) overwrite).map
      (fun m => decide (∀ k, m.pending k 0 = 0 ∧ m.receipts k 0 = 0))) = some true := by
    decide
  refine ⟨_, Lib.run_of_execute rfl, List.mem_of_getElem? (i := 5) rfl, ?_⟩
  exact of_decide_eq_true (Option.some.inj hlost)

end Machine

end Runix
