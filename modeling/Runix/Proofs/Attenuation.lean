import Runix.Dispatch
import Runix.Machine
import Runix.Proofs.Ipc
import Runix.Proofs.Authority

namespace Runix
open Lib

/-- The ways to exercise the capability in a slot: four system calls, and the
function for tasks in ring 0. -/
inductive Use where
  | syscall (req : UseRequest)
  | sysSerialWrite (message : List UInt8)

namespace Scheduler

section
variable {s : Scheduler} (hs : s.Indexed) {i : Fin maxTasks} {t : Task} (ht : s.tasks i = some t)
include hs ht

/-- A send whose slot leads to no task that lives is refused, and only the
caller can tell. -/
theorem sendRound_refused (a : SendArgs)
    (hgone : ∀ r, t.capTable.channel a.capIdx = some r → s.Gone r) :
    ∃ s' e, s.sendRound i a = (s', .returned (.error e)) ∧ ∀ j, j ≠ i → s'.tasks j = s.tasks j := by
  have hself : ∀ u : Task, ∀ j, j ≠ i → (s.set i (some u)).tasks j = s.tasks j := by
    intro u j hj
    rw [set_tasks, if_neg hj]
  unfold sendRound
  rcases sendRegion_cases hs ht a with ⟨_, h⟩ | ⟨r, hr, ⟨_, h⟩ | ⟨j, u, hj, hu, hst, h⟩ | ⟨hal, h⟩⟩
  · exact ⟨_, _, by rw [h], hself _⟩
  · refine ⟨_, _, by rw [h], ?_⟩
    rw [hs.modify ht]
    exact hself _
  · have hterm := hgone r hr u (hj ▸ (hs.getTask j).trans hu)
    rw [hst] at hterm
    cases hterm
  · obtain ⟨j, u, hu, hj, hterm, _⟩ := hal
    exact absurd (hgone r hr u (hj ▸ (hs.getTask j).trans hu)) hterm

/-- A send to a task that lives is delivered or waits. -/
theorem sendRound_live (a : SendArgs) {r : TaskId} (hr : t.capTable.channel a.capIdx = some r)
    (hlive : ¬ s.Gone r) (s' : Scheduler) (e : IpcError) :
    s.sendRound i a ≠ (s', .returned (.error e)) := by
  unfold sendRound
  rcases sendRegion_cases hs ht a with ⟨hnone, _⟩ | ⟨r', hr', hcases⟩
  · rw [hr] at hnone
    cases hnone
  · cases hr.symm.trans hr'
    rcases hcases with ⟨hgone, _⟩ | ⟨j, u, _, _, _, h⟩ | ⟨_, h⟩
    · exact absurd hgone hlive
    · simp [h]
    · simp [h]

theorem sendAsyncRegion_refused (a : SendArgs)
    (hgone : ∀ r, t.capTable.channel a.capIdx = some r → s.Gone r) :
    ∃ e, s.sendAsyncRegion i a = (s, .error e) := by
  rcases sendAsyncRegion_cases hs ht a with h | ⟨j, u, _, hr, hu, hterm, _⟩
  · exact h
  · exact absurd (hgone j hr u ((hs.getTask j).trans hu)) hterm

end

section
variable {s : Scheduler} (hs : s.Indexed) {i : Fin maxTasks} {t : Task} (ht : s.tasks i = some t)
  (hcur : s.currentTaskId = some i.val) {capIdx : Nat}
  (hgone : ∀ r, t.capTable.channel capIdx = some r → s.Gone r)
include hs ht hcur hgone

theorem sysSendTyped_refused (call : Nat) (tag version : UInt16) (payload : List UInt8) :
    ∃ s' e, s.sysSendTyped call capIdx tag version payload = (s', .returned (.error e)) ∧
      ∀ j, j ≠ i → s'.tasks j = s.tasks j := by
  unfold sysSendTyped
  cases hcheck : checkSend call capIdx tag version payload with
  | error e => exact ⟨s, e, rfl, fun _ _ => rfl⟩
  | ok a =>
    obtain ⟨_, rfl⟩ := checkSend_ok hcheck
    simp only [hcur]
    exact sendRound_refused hs ht a hgone

theorem sysSendAsync_refused (call : Nat) (tag version : UInt16) (payload : List UInt8) :
    ∃ e, s.sysSendAsync call capIdx tag version payload = (s, .error e) := by
  unfold sysSendAsync
  cases hcheck : checkSend call capIdx tag version payload with
  | error e => exact ⟨e, rfl⟩
  | ok a =>
    obtain ⟨_, rfl⟩ := checkSend_ok hcheck
    obtain ⟨e, he⟩ := sendAsyncRegion_refused hs ht a hgone
    exact ⟨e, by simp only [hcur, he]; rfl⟩

end

end Scheduler

namespace Machine

def Finished (m : Machine) (i : Fin maxTasks) (call capIdx : Nat) :
    CallResult (Except IpcError Unit) → Prop
  | .returned r => m.pc i = .user ∧ Event.sendReturned i call capIdx r ∈ m.trace
  | .waiting => ∃ a, a.call = call ∧ a.capIdx = capIdx ∧ m.pc i = .sendWait a

/-- `sendRound` is what the step system does when only the caller proceeds. -/
theorem sendRound_run {m : Machine} {i : Fin maxTasks} (hcpu : m.cpu = .task i) {a : SendArgs}
    (hpc : m.pc i = .send a) (sp : StackPointer) :
    ∃ n m', execute step m (List.replicate n (.proceed sp)) = some m' ∧
      m'.sched = (m.sched.sendRound i a).1 ∧
      m'.Finished i a.call a.capIdx (m.sched.sendRound i a).2 := by
  have hfirst : step m (.proceed sp) = some (m.proceedSend i a) := by
    simp [step, hcpu, proceed, hpc]
  unfold Scheduler.sendRound
  rcases hregion : m.sched.sendRegion i a with ⟨s, e | target | - | -⟩
  · refine ⟨1, _, by simp only [List.replicate, execute, hfirst]; rfl, ?_, ?_⟩
    · simp [proceedSend, hregion, returnSend]
    · simp [Finished, proceedSend, hregion, returnSend, log, setPc_pc]
  · refine ⟨1, _, by simp only [List.replicate, execute, hfirst]; rfl, ?_, ?_⟩
    · simp [proceedSend, hregion, returnSend]
    · simp [Finished, proceedSend, hregion, returnSend, log, setPc_pc]
  · have hgone : m.proceedSend i a = ({ m with sched := s } : Machine).setPc i (.sendGone a) := by
      simp only [proceedSend, hregion]
    have hsecond : step (m.proceedSend i a) (.proceed sp) = some
        ({ (({ m with sched := s } : Machine).setPc i (.sendGone a)) with
          sched := s.modify i (fun sender => { sender with ipcBuffer := none }) }.returnSend i a
            (.error .targetGone)) := by
      rw [hgone]
      simp [step, hcpu, proceed, setPc_pc]
    refine ⟨2, _, by simp only [List.replicate, execute, hfirst, Option.bind_some, hsecond]; rfl,
      ?_, ?_⟩
    · simp [returnSend]
    · simp [Finished, returnSend, log, setPc_pc]
  · refine ⟨1, _, by simp only [List.replicate, execute, hfirst]; rfl, ?_, a, rfl, rfl, ?_⟩
    · simp [proceedSend, hregion]
    · simp [proceedSend, hregion, setPc_pc]

/-- `sysSendTyped` is what the step system does from the call on when only the
caller proceeds. -/
theorem sysSendTyped_run {m : Machine} {i : Fin maxTasks} (hcpu : m.cpu = .task i)
    (hpc : m.pc i = .user) (hcur : m.sched.currentTaskId = some i.val) (capIdx : Nat)
    (tag version : UInt16) (payload : List UInt8) (sp : StackPointer) :
    ∃ n m', execute step m (.sendTyped capIdx tag version payload ::
        List.replicate n (.proceed sp)) = some m' ∧
      m'.sched = (m.sched.sysSendTyped m.calls capIdx tag version payload).1 ∧
      m'.Finished i m.calls capIdx (m.sched.sysSendTyped m.calls capIdx tag version payload).2 := by
  have henter : step m (.sendTyped capIdx tag version payload) =
      some (m.enterSend i capIdx tag version payload .send) := by
    simp [step, hcpu, hpc, isUser, enter]
  unfold Scheduler.sysSendTyped
  cases hcheck : checkSend m.calls capIdx tag version payload with
  | error e =>
    have hreturn : m.enterSend i capIdx tag version payload .send =
        ({ m with calls := m.calls + 1 } : Machine).log
          [.sendReturned i m.calls capIdx (.error e)] := by
      simp [enterSend, beginSend, hcheck]
    refine ⟨0, m.enterSend i capIdx tag version payload .send,
      by simp only [List.replicate, execute, henter, Option.bind_some], ?_, ?_⟩
    · rw [hreturn, log_sched]
    · rw [hreturn]
      exact ⟨hpc, List.mem_cons_self⟩
  | ok a =>
    obtain ⟨hcall, hidx⟩ := checkSend_ok hcheck
    have hgo : m.enterSend i capIdx tag version payload .send =
        ({ m with calls := m.calls + 1 } : Machine).setPc i (.send a) := by
      simp [enterSend, beginSend, hcheck, hcur]
    obtain ⟨n, m', hrun, hsched, hfinished⟩ := sendRound_run
      (m := m.enterSend i capIdx tag version payload .send) (a := a)
      (by rw [hgo]; exact hcpu) (by rw [hgo, setPc_pc, if_pos rfl]) sp
    rw [hgo] at hsched hfinished
    refine ⟨n, m', by simp only [execute, henter, Option.bind_some, hrun], ?_, ?_⟩
    · simpa only [hcur, setPc_sched] using hsched
    · simpa only [hcur, hcall, hidx, setPc_sched] using hfinished

end Machine

namespace Kernel

def asTask (k : Kernel) (task : TaskId) : Kernel :=
  k.withSched { k.sched with currentTaskId := some task }

structure Untouched (task : TaskId) (k k' : Kernel) : Prop where
  serial : k'.serial = k.serial
  others : ∀ i, i.val ≠ task → k'.sched.tasks i = k.sched.tasks i

/-- The task's use of its slot returns an error value and has no effect on the
serial port or on another task. -/
def Refuses (k : Kernel) (task : TaskId) (call capIdx : Nat) : Use → Prop
  | .syscall req => ∃ k' rax, (k.asTask task).syscallUse call capIdx req = (k', .returned rax) ∧
      (rax = genericError ∨ rax = queueFullError) ∧ Untouched task k k'
  | .sysSerialWrite message => ∃ k',
      (k.asTask task).sysSerialWrite capIdx message = (k', .error ()) ∧ Untouched task k k'

section
variable {k : Kernel} (hs : k.sched.Indexed) {i : Fin maxTasks} {t : Task}
  (ht : k.sched.tasks i = some t) {capIdx : Nat} {c : Capability} (hc : t.capTable.get capIdx = some c)
include hs ht hc

theorem hasSerialCap_eq : (k.asTask i).hasSerialCap i capIdx = decide (c.resource = .serial) := by
  have hget : (k.asTask i).sched.getTask i = some t := (hs.getTask i).trans ht
  simp [hasSerialCap, hget, hc]

theorem refuses_serialWrite (hserial : c.resource ≠ .serial) (call : Nat) (bytes : List UInt8) :
    k.Refuses i call capIdx (.syscall (.serialWrite bytes)) := by
  have hcap : (k.asTask i).currentHasSerialCap capIdx = false := by
    change (k.asTask i).hasSerialCap i capIdx = false
    simp [hasSerialCap_eq hs ht hc, hserial]
  refine ⟨k.asTask i, genericError, ?_, .inl rfl, rfl, fun _ _ => rfl⟩
  simp [syscallUse, hcap]

theorem refuses_sysSerialWrite (hserial : c.resource ≠ .serial) (call : Nat)
    (message : List UInt8) : k.Refuses i call capIdx (.sysSerialWrite message) := by
  have hcap : (k.asTask i).hasSerialCap i capIdx = false := by
    simp [hasSerialCap_eq hs ht hc, hserial]
  refine ⟨k.asTask i, ?_, rfl, fun _ _ => rfl⟩
  simp [sysSerialWrite, asTask, withSched] at hcap ⊢
  simp [hcap]

/-- A system call returns an error to a task that has neither the serial port
nor a channel to a live task behind the slot. -/
theorem refuses_of_powerless (hserial : c.resource ≠ .serial)
    (hgone : ∀ r, c.resource = .ipcChannel r → k.sched.Gone r) (call : Nat) (u : Use) :
    k.Refuses i call capIdx u := by
  have hgone' : ∀ r, t.capTable.channel capIdx = some r → (k.asTask i).sched.Gone r :=
    fun r hr => hgone r ((CapTable.channel_eq_some hc).mp hr)
  cases u with
  | sysSerialWrite message => exact refuses_sysSerialWrite hs ht hc hserial call message
  | syscall req =>
    cases req with
    | serialWrite bytes => exact refuses_serialWrite hs ht hc hserial call bytes
    | send payload =>
      obtain ⟨s', e, h, hothers⟩ := Scheduler.sysSendTyped_refused (s := (k.asTask i).sched) hs ht
        rfl hgone' call 0 0 payload
      refine ⟨(k.asTask i).withSched s', genericError, ?_, .inl rfl, rfl, fun j hj => ?_⟩
      · simp [syscallUse, Scheduler.sysSend, h, CallResult.map, Except.mapError]
      · exact hothers j (fun he => hj (congrArg Fin.val he))
    | sendTyped tag version payload =>
      obtain ⟨s', e, h, hothers⟩ := Scheduler.sysSendTyped_refused (s := (k.asTask i).sched) hs ht
        rfl hgone' call tag version payload
      refine ⟨(k.asTask i).withSched s', genericError, ?_, .inl rfl, rfl, fun j hj => ?_⟩
      · simp [syscallUse, h, CallResult.map]
      · exact hothers j (fun he => hj (congrArg Fin.val he))
    | sendAsync tag version payload =>
      obtain ⟨e, h⟩ := Scheduler.sysSendAsync_refused (s := (k.asTask i).sched) hs ht rfl hgone'
        call tag version payload
      refine ⟨(k.asTask i).withSched (k.asTask i).sched,
        if e = .queueFull then queueFullError else genericError, ?_, ?_, rfl, fun _ _ => rfl⟩
      · cases e <;> simp [syscallUse, h]
      · split
        · exact .inr rfl
        · exact .inl rfl

/-- An empty write to the serial port succeeds, whatever the rights. -/
theorem not_refuses_serialWrite (hserial : c.resource = .serial) (call : Nat) :
    ¬ k.Refuses i call capIdx (.syscall (.serialWrite [])) := by
  have hcap : (k.asTask i).currentHasSerialCap capIdx = true := by
    change (k.asTask i).hasSerialCap i capIdx = true
    simp [hasSerialCap_eq hs ht hc, hserial]
  rintro ⟨k', rax, h, herror, _⟩
  simp only [syscallUse, hcap, if_true, Prod.mk.injEq, CallResult.returned.injEq] at h
  rw [← h.2] at herror
  revert herror
  decide

/-- An empty message to a live task is delivered or waits, whatever the rights. -/
theorem not_refuses_send {r : TaskId} (hchan : c.resource = .ipcChannel r)
    (hlive : ¬ k.sched.Gone r) (call : Nat) :
    ¬ k.Refuses i call capIdx (.syscall (.send [])) := by
  rintro ⟨k', rax, h, herror, _⟩
  have hround := Scheduler.sendRound_live (s := (k.asTask i).sched) hs ht
    ⟨capIdx, .raw, 0, padPayload [], 0, call⟩ ((CapTable.channel_eq_some hc).mpr hchan) hlive
  have hcall : (k.asTask i).sched.sysSendTyped call capIdx 0 0 [] =
      (k.asTask i).sched.sendRound i ⟨capIdx, .raw, 0, padPayload [], 0, call⟩ := rfl
  simp only [syscallUse, Scheduler.sysSend, hcall, Prod.mk.injEq] at h
  generalize (k.asTask i).sched.sendRound i ⟨capIdx, .raw, 0, padPayload [], 0, call⟩ = out at *
  obtain ⟨s', result⟩ := out
  cases result with
  | waiting => cases h.2
  | returned result =>
    cases result with
    | error e => exact hround s' e rfl
    | ok =>
      have hrax : 0 = rax := CallResult.returned.inj h.2
      rw [← hrax] at herror
      revert herror
      decide

end

/-- Every use of a slot is refused exactly when the resource behind it is
neither the serial port nor a channel to a live task. Rights do not enter. -/
theorem refuses_iff {k : Kernel} (hs : k.sched.Indexed) {p : Slot} {c : Capability}
    (hc : k.sched.store p = some c) : (∀ call u, k.Refuses p.1 call p.2 u) ↔
      c.resource ≠ .serial ∧ ∀ r, c.resource = .ipcChannel r → k.sched.Gone r := by
  obtain ⟨t, ht, hslot⟩ := Scheduler.store_eq_some.mp hc
  have hget : t.capTable.get p.2 = some c := (CapTable.get_val _ _).trans hslot
  constructor
  · intro h
    refine ⟨fun hserial => ?_, fun r hr => ?_⟩
    · exact not_refuses_serialWrite hs ht hget hserial 0 (h 0 _)
    · by_contra hlive
      exact not_refuses_send hs ht hget hr hlive 0 (h 0 _)
  · rintro ⟨hserial, hgone⟩ call u
    exact refuses_of_powerless hs ht hget hserial hgone call u

end Kernel

def IsGrant (_ : Kernel) (a : CapAction) : Prop :=
  match a.request with
  | .capGrant .. => True
  | _ => False

theorem Scheduler.Indexed.modified {s : Scheduler} (hs : s.Indexed) (id : TaskId)
    {f : Task → Task} (hf : ∀ t, (f t).id = t.id) : (s.modify id f).Indexed := by
  cases h : s.getTask id with
  | none => rwa [Scheduler.modify_none h]
  | some t =>
    obtain ⟨hid, hlt, _⟩ := Scheduler.getTask_some h
    rw [Scheduler.modify_some h hlt]
    exact hs.set ((hf t).trans hid)

theorem grant_indexed {k k' : Kernel} {a : CapAction} (hk : k.sched.Indexed)
    (h : Guarded IsGrant (Steps capSystem) k a k') : k'.sched.Indexed := by
  obtain ⟨hgrant, hstep⟩ := h
  obtain ⟨caller, request⟩ := a
  cases request with
  | capRevoke | spawnTask => exact hgrant.elim
  | capGrant src target rights =>
    obtain rfl := Option.some.inj hstep
    simp only [Kernel.dispatchCapGrant]
    split
    · exact hk
    · split
      · exact hk
      · split
        · exact Scheduler.Indexed.modified (s := { k.sched with currentTaskId := caller }) hk target
            (fun _ => rfl)
        · exact hk

/-- A live capability covers what was derived from it. -/
theorem StoreInv.atMost_of_descends {s : Slot → Option Capability} {n : Nat} (h : StoreInv s n)
    {q : Slot} {d : Capability} (hd : s q = some d) {p : Slot} {c : Capability} (hc : s p = some c)
    (hdesc : capLineage.Descends s d.id c) : AtMost d c := by
  induction hdesc generalizing p with
  | @child c hpar =>
    obtain ⟨q', d', hd', hid, _, hrel⟩ := h.forest p c _ hc hpar
    cases h.distinct q' q d' d hd' hd hid
    cases hd'.symm.trans hd
    exact hrel.toAtMost
  | @step c e r hpar he _ ih =>
    obtain ⟨r', e', he', hid, _, hrel⟩ := h.forest p c _ hc hpar
    cases h.distinct r' r e' e he' he hid
    cases he'.symm.trans he
    exact (ih he).trans hrel.toAtMost

/-- In runs of grants, a capability derived from one without the write right
has no write right itself. Its uses are nevertheless refused only where its
resource already rules them out. -/
theorem attenuation_at_use {k₀ k : Kernel} {as : List CapAction} (hb : k₀.Boot)
    (hindexed : k₀.sched.Indexed) (hr : Run (Guarded IsGrant (Steps capSystem)) k₀ as k)
    (hn : k₀.nextCapId + issued k₀ as ≤ 2 ^ 64) {p q : Slot} {c d : Capability}
    (hc : k.sched.store p = some c) (hd : k.sched.store q = some d)
    (hchain : d = c ∨ capLineage.Descends k.sched.store d.id c) (hwrite : d.write = false) :
    c.write = false ∧
    ((∀ call u, k.Refuses p.1 call p.2 u) ↔
      c.resource ≠ .serial ∧ ∀ r, c.resource = .ipcChannel r → k.sched.Gone r) := by
  have hrun : Run (Steps capSystem) k₀ as k := hr.mono (fun _ _ _ h => h.2)
  have hm : k₀.nextCapId = k₀.nextCapId % 2 ^ 64 := (Nat.mod_eq_of_lt hb.counter).symm
  obtain ⟨hinv, -, -⟩ := run_inv hrun hb.inv hm hn
  have hk : k.sched.Indexed :=
    Run.invariant (P := fun k => k.sched.Indexed) hindexed (fun _ _ _ => grant_indexed) hr
  refine ⟨?_, Kernel.refuses_iff hk hc⟩
  rcases hchain with rfl | hdesc
  · exact hwrite
  · have hatMost := hinv.atMost_of_descends hd hc hdesc
    by_contra hne
    rw [hatMost.write (by simpa using hne)] at hwrite
    cases hwrite

/-- The second task of `twoTasks` gets a read-only copy of a channel. -/
theorem attenuation_at_use_read_only : ∃ k c,
    Run (Guarded IsGrant (Steps capSystem)) twoTasks
      [⟨some 1, .capGrant 0 2 ⟨true, false, false⟩⟩] k ∧
    k.sched.store (⟨2, by decide⟩, ⟨0, by decide⟩) = some c ∧ c.write = false ∧
    ((∀ call u, k.Refuses 2 call 0 u) ↔
      c.resource ≠ .serial ∧ ∀ r, c.resource = .ipcChannel r → k.sched.Gone r) := by
  have hn : twoTasks.nextCapId + issued twoTasks
      [⟨some 1, .capGrant 0 2 ⟨true, false, false⟩⟩] ≤ 2 ^ 64 :=
    (Nat.add_le_add_left (issued_le_length _ _) _).trans (by decide)
  obtain ⟨k, hstep⟩ : ∃ k, capSystem twoTasks
      ⟨some 1, .capGrant 0 2 ⟨true, false, false⟩⟩ = some k := ⟨_, rfl⟩
  have hr : Run (Guarded IsGrant (Steps capSystem)) twoTasks
      [⟨some 1, .capGrant 0 2 ⟨true, false, false⟩⟩] k := .cons ⟨trivial, hstep⟩ (.nil _)
  have hc : k.sched.store (⟨2, by decide⟩, ⟨0, by decide⟩) =
      some ⟨.ipcChannel 2, true, false, false, false, 2, some 1⟩ := by
    obtain rfl := Option.some.inj hstep
    rfl
  exact ⟨k, _, hr, hc, attenuation_at_use twoTasks_boot (Scheduler.indexed_ofList _) hr hn hc hc
    (.inl rfl) rfl⟩

def serialOwner : Kernel :=
  twoTasks.withSched (Scheduler.ofList
    [Task.new 0 0 1 (CapTable.ofList [⟨.serial, false, true, true, false, 1, none⟩]),
      Task.new 0 0 2 CapTable.new])

/-- The second task gets the serial port without any right, and writes. -/
theorem powerless_serial_written : ∃ k c k',
    Run (Guarded IsGrant (Steps capSystem)) serialOwner
      [⟨some 1, .capGrant 0 2 ⟨false, false, false⟩⟩] k ∧
    k.sched.store (⟨2, by decide⟩, ⟨0, by decide⟩) = some c ∧ c.origin = some 1 ∧
    c.write = false ∧
    (k.asTask 2).syscallUse 0 0 (.serialWrite [65]) = (k', .returned 0) ∧ k'.serial = [65] :=
  ⟨_, _, _, .cons ⟨trivial, rfl⟩ (.nil _), rfl, rfl, rfl, rfl, rfl⟩

end Runix
