import Runix.Task
import Runix.Audit
import Runix.Memory

namespace Runix

/-- The kernel's global state as the system calls see it. `stackBase` is the
address of `TASK_STACKS`, `serial` what tasks have written to the console. -/
structure Kernel where
  sched : Scheduler
  nextCapId : Nat
  audit : AuditLog
  memory : Memory
  stackBase : Nat
  serial : List UInt8

/-- `u64::MAX` -/
def genericError : UInt64 := 0xffffffffffffffff

namespace Kernel

def ofTasks (ts : List Task) (nextCapId : Nat) (current : Option TaskId) : Kernel where
  sched := { Scheduler.ofList ts with currentTaskId := current }
  nextCapId := nextCapId
  audit := AuditLog.new
  memory := ⟨fun _ => 0, ⟨0, 0⟩, 0⟩
  stackBase := 0
  serial := []

def record (k : Kernel) (kind : AuditKind) (actor target : TaskId) (resource : Resource)
    (slot : Nat) : Kernel :=
  { k with audit := k.audit.push ⟨kind, actor, target, resource, slot⟩ }

/-- The derived capability of a grant: attenuated, with the donor's identity
as its lineage. -/
def deriveFrom (k : Kernel) (callerTask srcCapIdx : Nat) (rights : RightsMask) :
    Option Capability :=
  match k.sched.getTask callerTask with
  | none => none
  | some task =>
    match task.capTable.get srcCapIdx with
    | none => none
    | some cap =>
      match cap.attenuate rights with
      | .error () => none
      | .ok derived => some { derived with origin := some cap.id }

def dispatchCapGrant (k : Kernel) (callerTask srcCapIdx targetTask : Nat)
    (rights : RightsMask) : Kernel × UInt64 :=
  match k.deriveFrom callerTask srcCapIdx rights with
  | none => (k, genericError)
  | some derived =>
    match k.sched.getTask targetTask with
    | none => (k, genericError)
    | some target =>
      match target.capTable.insert k.nextCapId derived with
      | (some (slot, table), counter) =>
        (({ k with
            sched := k.sched.modify targetTask (fun t => { t with capTable := table })
            nextCapId := counter } : Kernel).record
          .grant callerTask targetTask derived.resource slot, 0)
      | (none, counter) => ({ k with nextCapId := counter }, genericError)

def currentHasGrantCapTo (k : Kernel) (targetTask : Nat) : Bool :=
  match k.sched.currentTaskId with
  | none => false
  | some id =>
    match k.sched.getTask id with
    | none => false
    | some task => (List.finRange maxCaps).any (fun i =>
        match task.capTable.slots i with
        | some cap => cap.grant && decide (cap.resource = .ipcChannel targetTask)
        | none => false)

def revokedIdsCap : Nat := maxTasks * maxCaps + 1

/-- The variables of `propagate_revocation`: `revoked` is the filled part of
the scratch array. -/
structure Propagation where
  sched : Scheduler
  audit : AuditLog
  revoked : List Nat
  changed : Bool

def Propagation.visit (w : Propagation) (tIdx : Fin maxTasks) (s : Fin maxCaps) : Propagation :=
  match w.sched.tasks tIdx with
  | none => w
  | some task =>
    match task.capTable.slots s with
    | none => w
    | some cap =>
      match cap.origin with
      | none => w
      | some parentId =>
        if parentId ∈ w.revoked ∧ w.revoked.length < revokedIdsCap then
          { sched := w.sched.set tIdx (some { task with capTable := task.capTable.clear s })
            audit := w.audit.push ⟨.revokePropagated, kernelActor, task.id, cap.resource, s⟩
            revoked := w.revoked ++ [cap.id]
            changed := true }
        else w

def slotOrder : List (Fin maxTasks × Fin maxCaps) :=
  (List.finRange maxTasks).flatMap (fun t => (List.finRange maxCaps).map (fun s => (t, s)))

def Propagation.pass (w : Propagation) : Propagation :=
  slotOrder.foldl (fun w p => w.visit p.1 p.2) { w with changed := false }

def Propagation.loop : Nat → Propagation → Propagation
  | 0, w => w
  | fuel + 1, w => if w.pass.changed then loop fuel w.pass else w.pass

def Propagation.install (w : Propagation) (k : Kernel) : Kernel :=
  { k with sched := w.sched, audit := w.audit }

@[simp] theorem Propagation.install_nextCapId (w : Propagation) (k : Kernel) :
    (w.install k).nextCapId = k.nextCapId := rfl

/-- `propagate_revocation`. A pass that changes something fills a cell of the
scratch array, so its size bounds the number of passes. -/
def propagateRevocation (k : Kernel) (rootId : Nat) : Kernel :=
  (Propagation.loop revokedIdsCap ⟨k.sched, k.audit, [rootId], false⟩).install k

def dispatchCapRevoke (k : Kernel) (callerTask targetTask capIdx : Nat) : Kernel × UInt64 :=
  if !k.currentHasGrantCapTo targetTask then (k, genericError)
  else
    match k.sched.getTask targetTask with
    | none => (k, genericError)
    | some target =>
      match target.capTable.kernelRevoke capIdx with
      | (some cap, table) =>
        ((({ k with sched := k.sched.modify targetTask (fun t => { t with capTable := table }) }
            : Kernel).record .revoke callerTask targetTask cap.resource capIdx).propagateRevocation
          cap.id, 0)
      | (none, _) => (k, genericError)

def userCodeVaddr : Nat := 0x400000
def userStackVaddr : Nat := 0x7ff000

/-- The memory work of `spawn_user`; `none` when one of its `expect`s panics.
The copy of the program into the code frame is left out. -/
def buildUserSpace (m : Memory) : Option (Nat × Memory) :=
  match m.newAddressSpace with
  | (none, _) => none
  | (some cr3, m) =>
    match m.alloc.allocateFrame with
    | none => none
    | some (codeFrame, alloc) =>
      match alloc.allocateFrame with
      | none => none
      | some (stackFrame, alloc) =>
        match ({ m with alloc := alloc } : Memory).mapPageUserInto cr3 userCodeVaddr codeFrame true with
        | (none, _) => none
        | (some (), m) =>
          match m.mapPageUserInto cr3 userStackVaddr stackFrame true with
          | (none, _) => none
          | (some (), m) => some (cr3, m)

/-- `dispatch_spawn_task`; `none` is a kernel panic. -/
def dispatchSpawnTask (k : Kernel) (blobType : Nat) : Option (Kernel × UInt64) :=
  match (List.finRange maxTasks).find? (fun i => decide (2 ≤ i.val) && (k.sched.tasks i).isNone) with
  | none => some (k, genericError)
  | some id =>
    if blobType = 1 ∨ blobType = 2 ∨ blobType = 3 then
      match buildUserSpace k.memory with
      | none => none
      | some (cr3, memory) =>
        let k : Kernel := { k with
          memory := memory
          sched := k.sched.set id (some (Task.newUser k.stackBase id cr3 CapTable.new)) }
        match k.sched.getTask 1 with
        | none => some ({ k with sched := k.sched.set id none }, genericError)
        | some initTask =>
          match initTask.capTable.insert k.nextCapId
              ⟨.ipcChannel id, true, true, true, false, 0, none⟩ with
          | (some (_, table), counter) =>
            some ({ k with
              sched := k.sched.modify 1 (fun t => { t with capTable := table })
              nextCapId := counter }, UInt64.ofNat id)
          | (none, counter) =>
            some ({ k with sched := k.sched.set id none, nextCapId := counter }, genericError)
    else some (k, genericError)

end Kernel

inductive CapRequest where
  | capGrant (srcCapIdx targetTask : Nat) (rights : RightsMask)
  | capRevoke (targetTask capIdx : Nat)
  | spawnTask (blobType : Nat)

/-- The arms of `syscall_dispatch` for these requests. They run with interrupts
disabled, on behalf of the current task; `none` is a kernel panic. -/
def Kernel.syscallDispatch (k : Kernel) (req : CapRequest) : Option (Kernel × UInt64) :=
  let taskId := k.sched.currentTaskId.getD (2 ^ 64 - 1)
  match req with
  | .capGrant srcCapIdx targetTask rights =>
    some (k.dispatchCapGrant taskId srcCapIdx targetTask rights)
  | .capRevoke targetTask capIdx => some (k.dispatchCapRevoke taskId targetTask capIdx)
  | .spawnTask blobType =>
    if taskId = 1 then k.dispatchSpawnTask blobType else some (k, genericError)

/-- A capability system call by the named task. Calls run with interrupts
disabled, so the caller is the current task throughout. -/
structure CapAction where
  caller : Option TaskId
  request : CapRequest

/-- One atomic call; `none` when the kernel panics. -/
def capSystem (k : Kernel) (a : CapAction) : Option Kernel :=
  (Kernel.syscallDispatch { k with sched := { k.sched with currentTaskId := a.caller } }
    a.request).map Prod.fst

end Runix
