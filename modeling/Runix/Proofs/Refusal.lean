import Runix.Dispatch
import Runix.Proofs.ExactlyOnce

namespace Runix

def Task.ipcView (t : Task) : TaskState × MessageQueue × Option Message × CapTable :=
  (t.state, t.msgQueue, t.ipcBuffer, t.capTable)

namespace Scheduler

variable {s s' : Scheduler} {current : TaskId} {a : SendArgs}

def Untouched (s s' : Scheduler) : Prop :=
  ∀ i, (s'.tasks i).map Task.ipcView = (s.tasks i).map Task.ipcView

theorem Untouched.refl (s : Scheduler) : s.Untouched s := fun _ => rfl

def bufferOf (s : Scheduler) (id : TaskId) : Option Message := (s.getTask id).bind Task.ipcBuffer

/-- Emptying a buffer is noticed exactly if it was not empty. -/
theorem untouched_clear (id : TaskId) :
    s.Untouched (s.modify id (fun t => { t with ipcBuffer := none })) ↔ s.bufferOf id = none := by
  cases ht : s.getTask id with
  | none =>
    rw [modify_none ht, bufferOf, ht]
    exact iff_of_true (Untouched.refl s) rfl
  | some t =>
    obtain ⟨_, hlt, hslot⟩ := getTask_some ht
    rw [modify_some ht hlt, bufferOf, ht, Option.bind_some]
    constructor
    · intro h
      have hview := h ⟨id, hlt⟩
      rw [set_tasks_self, hslot, Option.map_some, Option.map_some, Option.some.injEq] at hview
      simp only [Task.ipcView, Prod.mk.injEq] at hview
      exact hview.2.2.1.symm
    · intro hnone i
      rw [set_tasks]
      split
      · rename_i hi
        rw [hi, hslot, Option.map_some, Option.map_some, Task.ipcView, Task.ipcView, hnone]
      · rfl

/-- A region that ends with an error has emptied the caller's buffer. -/
theorem sendRegion_error {e : IpcError} (h : s.sendRegion current a = (s', .error e)) :
    s' = s.modify current (fun sender => { sender with ipcBuffer := none }) := by
  unfold sendRegion at h
  split at h
  · cases h
    rfl
  · split at h <;> cases h

theorem sendRegion_gone (h : s.sendRegion current a = (s', .ok .gone)) : s' = s := by
  unfold sendRegion at h
  split at h
  · cases h
  · split at h
    · cases h
      rfl
    · cases h
      rfl
    · cases h
    · cases h

theorem sendAsyncRegion_error {e : IpcError} (h : s.sendAsyncRegion current a = (s', .error e)) :
    s' = s := by
  unfold sendAsyncRegion at h
  split at h
  · cases h
    rfl
  · split at h
    · cases h
      rfl
    · split at h
      · cases h
        rfl
      · split at h
        · cases h
        · cases h
          rfl

/-- A round that returns an error has emptied the caller's buffer. -/
theorem sendRound_error {e : IpcError} (h : s.sendRound current a = (s', .returned (.error e))) :
    s' = s.modify current (fun sender => { sender with ipcBuffer := none }) := by
  unfold sendRound at h
  split at h
  · rename_i hregion
    cases h
    exact sendRegion_error hregion
  · cases h
  · rename_i hregion
    cases h
    rw [sendRegion_gone hregion]
  · cases h

def SendClear (s : Scheduler) (call capIdx : Nat) (tag version : UInt16) (payload : List UInt8) :
    Prop :=
  (∃ e, checkSend call capIdx tag version payload = .error e) ∨
    ∀ current, s.currentTaskId = some current → s.bufferOf current = none

theorem sysSendTyped_untouched {call capIdx : Nat} {tag version : UInt16} {payload : List UInt8}
    {e : IpcError}
    (h : s.sysSendTyped call capIdx tag version payload = (s', .returned (.error e))) :
    s.Untouched s' ↔ s.SendClear call capIdx tag version payload := by
  unfold sysSendTyped at h
  unfold SendClear
  split at h
  · rename_i hcheck
    cases h
    exact iff_of_true (Untouched.refl s) (.inl ⟨e, hcheck⟩)
  · rename_i a hcheck
    split at h
    · rename_i hcurrent
      cases h
      refine iff_of_true (Untouched.refl s) (.inr fun current hc => ?_)
      rw [hcurrent] at hc
      cases hc
    · rename_i current hcurrent
      rw [sendRound_error h, untouched_clear]
      constructor
      · intro hnone
        refine .inr fun current' hc => ?_
        cases hcurrent.symm.trans hc
        exact hnone
      · rintro (⟨e', he⟩ | hclear)
        · rw [hcheck] at he
          cases he
        · exact hclear current hcurrent

theorem sysSendAsync_untouched {call capIdx : Nat} {tag version : UInt16} {payload : List UInt8}
    {e : IpcError} (h : s.sysSendAsync call capIdx tag version payload = (s', .error e)) :
    s.Untouched s' := by
  unfold sysSendAsync at h
  split at h
  · cases h
    exact Untouched.refl s
  · split at h
    · cases h
      exact Untouched.refl s
    · rename_i current _
      cases hregion : s.sendAsyncRegion current _ with
      | mk next result =>
        rw [hregion] at h
        cases result with
        | ok target => cases h
        | error e' =>
          cases h
          rw [sendAsyncRegion_error hregion]
          exact Untouched.refl s

end Scheduler

def Pc.validates : Pc → Bool
  | .send _ | .sendGone _ => true
  | _ => false

namespace Machine

variable {m m' : Machine} {i : Fin maxTasks} {sp : StackPointer}

theorem enterSend_sched (m : Machine) (i : Fin maxTasks) (capIdx : Nat) (tag version : UInt16)
    (payload : List UInt8) (next : SendArgs → Pc) :
    (m.enterSend i capIdx tag version payload next).sched = m.sched := by
  unfold enterSend
  split <;> rfl

theorem switchTo_log (m : Machine) (d : Scheduler × Option Switch) (sp : StackPointer) :
    (m.switchTo d sp).trace = m.trace := by
  unfold switchTo
  split
  · rfl
  · split <;> rfl

def ReturnsError (m m' : Machine) (i : Fin maxTasks) : Prop :=
  ∃ n c e, m'.trace = .sendReturned i n c (.error e) :: m.trace

theorem not_returnsError (h : m'.trace = m.trace) : ¬ m.ReturnsError m' i := by
  rintro ⟨n, c, e, hret⟩
  rw [h] at hret
  exact List.cons_ne_self _ _ hret.symm

theorem proceedSend_untouched {a : SendArgs} (h : m.ReturnsError (m.proceedSend i a) i) :
    m.sched.Untouched (m.proceedSend i a).sched ↔ m.sched.bufferOf i = none := by
  unfold proceedSend at h ⊢
  split
  · rename_i hregion
    rw [← Scheduler.untouched_clear, ← Scheduler.sendRegion_error hregion]
    rfl
  · rename_i hregion
    rw [hregion] at h
    obtain ⟨n, c, e, hret⟩ := h
    cases hret
  · rename_i hregion
    rw [hregion] at h
    exact absurd h (not_returnsError rfl)
  · rename_i hregion
    rw [hregion] at h
    exact absurd h (not_returnsError rfl)

theorem proceedSendAsync_untouched {a : SendArgs} (h : m.ReturnsError (m.proceedSendAsync i a) i) :
    m.sched.Untouched (m.proceedSendAsync i a).sched := by
  unfold proceedSendAsync at h ⊢
  split
  · rename_i hregion
    rw [Scheduler.sendAsyncRegion_error hregion]
    exact Scheduler.Untouched.refl m.sched
  · rename_i hregion
    rw [hregion] at h
    obtain ⟨n, c, e, hret⟩ := h
    cases hret

theorem proceedCheck_sched (m : Machine) (i : Fin maxTasks) (a : SendArgs) :
    (m.proceedCheck i a).sched = m.sched := by
  unfold proceedCheck
  split
  · rfl
  · split <;> rfl

theorem proceedReceive_not (m : Machine) (i : Fin maxTasks) : ¬ m.ReturnsError (m.proceedReceive i) i := by
  unfold proceedReceive
  split
  · rintro ⟨n, c, e, hret⟩
    cases hret
  · exact not_returnsError rfl

theorem proceedReceiveAsync_not (m : Machine) (i : Fin maxTasks) :
    ¬ m.ReturnsError (m.proceedReceiveAsync i) i := by
  unfold proceedReceiveAsync
  split
  · rintro ⟨n, c, e, hret⟩
    cases hret
  · rintro ⟨n, c, e, hret⟩
    cases hret

/-- The last section of a send that fails. -/
theorem proceed_untouched (hs : m.proceed i sp = some m') (h : m.ReturnsError m' i) :
    m.sched.Untouched m'.sched ↔ ((m.pc i).validates = true → m.sched.bufferOf i = none) := by
  unfold proceed at hs
  cases hpc : m.pc i
  all_goals
    rw [hpc] at hs
    cases hs
  case send a =>
    exact (proceedSend_untouched h).trans ⟨fun hnone _ => hnone, fun hnone => hnone rfl⟩
  case sendGone a =>
    exact (Scheduler.untouched_clear i.val).trans ⟨fun hnone _ => hnone, fun hnone => hnone rfl⟩
  case sendCheck a =>
    rw [proceedCheck_sched]
    exact iff_of_true (Scheduler.Untouched.refl _) nofun
  case sendAsync a => exact iff_of_true (proceedSendAsync_untouched h) nofun
  case sendWait a => exact absurd h (not_returnsError (switchTo_log ..))
  case receiveWait => exact absurd h (not_returnsError (switchTo_log ..))
  case receive => exact absurd h (m.proceedReceive_not i)
  case receiveAsync => exact absurd h (m.proceedReceiveAsync_not i)

/-- A region that finds the target gone has changed nothing yet. -/
theorem proceed_gone {a : SendArgs} (hs : m.proceed i sp = some m') (hpc : m.pc i = .send a)
    (hgone : m'.pc i = .sendGone a) : m'.sched = m.sched := by
  rw [proceed, hpc] at hs
  cases hs
  unfold proceedSend at hgone ⊢
  split
  · rename_i hregion
    rw [hregion] at hgone
    simp [returnSend, setPc_pc] at hgone
  · rename_i hregion
    rw [hregion] at hgone
    simp [returnSend, setPc_pc] at hgone
  · rename_i hregion
    exact Scheduler.sendRegion_gone hregion
  · rename_i hregion
    rw [hregion] at hgone
    simp [setPc_pc] at hgone

/-- A refused send leaves every task as it was, exactly if its inputs were refused or the
caller's buffer was empty; a refused asynchronous send always does. The last three parts
say the same of the sections of a call between which other tasks run. -/
theorem refused_send_untouched_iff (s : Scheduler) (call capIdx : Nat) (tag version : UInt16)
    (payload : List UInt8) (m : Machine) (i : Fin maxTasks) :
    (∀ s' e, s.sysSendTyped call capIdx tag version payload = (s', .returned (.error e)) →
      (s.Untouched s' ↔ s.SendClear call capIdx tag version payload)) ∧
    (∀ s' e, s.sysSendAsync call capIdx tag version payload = (s', .error e) → s.Untouched s') ∧
    (∀ next, (m.enterSend i capIdx tag version payload next).sched = m.sched) ∧
    (∀ a sp m', m.pc i = .send a → m.proceed i sp = some m' → m'.pc i = .sendGone a →
      m'.sched = m.sched) ∧
    ∀ sp m', m.proceed i sp = some m' → m.ReturnsError m' i →
      (m.sched.Untouched m'.sched ↔ ((m.pc i).validates = true → m.sched.bufferOf i = none)) :=
  ⟨fun _ _ h => Scheduler.sysSendTyped_untouched h, fun _ _ h => Scheduler.sysSendAsync_untouched h,
    fun next => enterSend_sched m i capIdx tag version payload next,
    fun _ _ _ hpc hs hgone => proceed_gone hs hpc hgone, fun _ _ hs h => proceed_untouched hs h⟩

def firstRuns : Scheduler := { Scheduler.ofList pair with currentTaskId := some 0 }

/-- The first task sends through an empty slot. -/
theorem refused_send_untouched_empty :
    (firstRuns.sysSendTyped 0 1 0 0 []).2 = .returned (.error .noCapability) ∧
    firstRuns.Untouched (firstRuns.sysSendTyped 0 1 0 0 []).1 := by
  have hclear : firstRuns.SendClear 0 1 0 0 [] := by
    refine .inr fun current hcurrent => ?_
    cases hcurrent
    rfl
  refine ⟨rfl, ?_⟩
  exact ((refused_send_untouched_iff firstRuns 0 1 0 0 [] (boot firstRuns) ⟨0, by decide⟩).1 _ .noCapability
    rfl).mpr hclear

/-- The second task waits for a message. The first deposits one and queues another; the
second takes the queued one and starts a send through an empty slot. -/
def deposit : List Action :=
  [.yield ⟨1, Nat.one_ne_zero⟩, .yield ⟨1, Nat.one_ne_zero⟩, .receiveTyped,
    .proceed ⟨1, Nat.one_ne_zero⟩, .proceed ⟨1, Nat.one_ne_zero⟩, .sendTyped 0 0 0 [],
    .proceed ⟨1, Nat.one_ne_zero⟩, .sendAsync 0 0 0 [], .proceed ⟨1, Nat.one_ne_zero⟩,
    .yield ⟨1, Nat.one_ne_zero⟩, .proceed ⟨1, Nat.one_ne_zero⟩, .sendTyped 5 0 0 []]

/-- The refusal takes the deposited message, whose send returned Ok. -/
theorem refused_send_takes_deposit : ∃ m m',
    Lib.Run (Lib.Steps Machine.step) (boot (Scheduler.ofList pair)) deposit m ∧
    .sendReturned ⟨0, by decide⟩ 0 0 (.ok ()) ∈ m.trace ∧
    (m.sched.bufferOf 1).map Message.call = some 0 ∧
    m.step (.proceed ⟨1, Nat.one_ne_zero⟩) = some m' ∧
    m'.trace = .sendReturned ⟨1, by decide⟩ 2 5 (.error .noCapability) :: m.trace ∧
    m'.sched.bufferOf 1 = none ∧ ¬ m.sched.Untouched m'.sched := by
  refine ⟨_, _, Lib.run_of_execute rfl, List.mem_of_getElem? (i := 4) rfl, rfl, rfl, rfl, rfl, ?_⟩
  intro h
  cases congrArg (fun v => v.map (fun v => v.2.2.1.isSome)) (h ⟨1, by decide⟩)

end Machine

end Runix
