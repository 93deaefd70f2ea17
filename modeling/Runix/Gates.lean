import Runix.Dispatch
import Runix.Machine

namespace Runix

namespace Kernel

/-- `dispatch_cap_revoke` behind its check: the section that takes the lock again. -/
def revokeLocked (k : Kernel) (callerTask targetTask capIdx : Nat) : Kernel × UInt64 :=
  match k.sched.getTask targetTask with
  | none => (k, genericError)
  | some target =>
    match target.capTable.kernelRevoke capIdx with
    | (some cap, table) =>
      ((({ k with sched := k.sched.modify targetTask (fun t => { t with capTable := table }) }
          : Kernel).record .revoke callerTask targetTask cap.resource capIdx).propagateRevocation
        cap.id, 0)
    | (none, _) => (k, genericError)

/-- `sys_cap_revoke`, for tasks in ring 0, run without interruption. -/
def sysCapRevoke (k : Kernel) (targetTask capIdx : Nat) : Kernel × Except Unit Unit :=
  match k.sched.currentTaskId with
  | none => (k, .error ())
  | some caller =>
    let (k, result) := k.dispatchCapRevoke caller targetTask capIdx
    (k, if result = 0 then .ok () else .error ())

end Kernel

/-- Where a task of ring 0 is in `sys_serial_write` or `sys_cap_revoke`, between two
sections under the scheduler lock. The lock is given back between them. -/
inductive Gate where
  | user
  | writeIdentify (capIdx : Nat) (message : List UInt8)
  | writeCheck (caller : TaskId) (capIdx : Nat) (message : List UInt8)
  | write (caller : TaskId) (capIdx : Nat) (message : List UInt8)
  | revokeIdentify (target capIdx : Nat)
  | revokeCheck (caller : TaskId) (target capIdx : Nat)
  | revoke (caller : TaskId) (target capIdx : Nat)
  deriving DecidableEq

/-- The single-core system with the calls above. The kernel's scheduler is the one of
the machine; the field of `kernel` is not looked at. -/
structure Gates where
  machine : Machine
  kernel : Kernel
  gate : Fin maxTasks → Gate

inductive GateAction where
  | machine (act : Action)
  | serialWrite (capIdx : Nat) (message : List UInt8)
  | capRevoke (target capIdx : Nat)
  | proceed

namespace Gates

def boot (k : Kernel) : Gates := ⟨.boot k.sched, k, fun _ => .user⟩

def view (g : Gates) : Kernel := { g.kernel with sched := g.machine.sched }

def install (g : Gates) (k : Kernel) : Gates :=
  { g with machine := { g.machine with sched := k.sched }, kernel := k }

def goto (g : Gates) (i : Fin maxTasks) (next : Gate) : Gates :=
  { g with gate := Function.update g.gate i next }

/-- The next section of the call that task `i` is in. -/
def advance (g : Gates) (i : Fin maxTasks) : Option Gates :=
  match g.gate i with
  | .user => none
  | .writeIdentify capIdx message =>
    match g.view.sched.currentTaskId with
    | none => some (g.goto i .user)
    | some caller => some (g.goto i (.writeCheck caller capIdx message))
  | .writeCheck caller capIdx message =>
    some (g.goto i (if g.view.hasSerialCap caller capIdx then .write caller capIdx message else .user))
  | .write _ _ message => some ((g.install (g.view.print message)).goto i .user)
  | .revokeIdentify target capIdx =>
    match g.view.sched.currentTaskId with
    | none => some (g.goto i .user)
    | some caller => some (g.goto i (.revokeCheck caller target capIdx))
  | .revokeCheck caller target capIdx =>
    some (g.goto i (if g.view.currentHasGrantCapTo target then .revoke caller target capIdx else .user))
  | .revoke caller target capIdx =>
    some ((g.install (g.view.revokeLocked caller target capIdx).1).goto i .user)

def idle (g : Gates) : Bool :=
  match g.machine.cpu with
  | .task i => match g.gate i with | .user => true | _ => false
  | _ => true

def clean (gate : Fin maxTasks → Gate) : Action → Fin maxTasks → Gate
  | .create i .. => Function.update gate i .user
  | _ => gate

def enter (g : Gates) (next : Gate) : Option Gates :=
  match g.machine.cpu with
  | .task i => if g.idle && Machine.isUser (g.machine.pc i) then some (g.goto i next) else none
  | _ => none

/-- One step; `none` when the action is not enabled. A tick arrives between any two
sections; everything else a task does, it does outside these calls. -/
def step (g : Gates) : GateAction → Option Gates
  | .machine (.tick sp) => (g.machine.step (.tick sp)).map (fun m => { g with machine := m })
  | .machine act =>
    if g.idle then (g.machine.step act).map (fun m => { g with machine := m, gate := clean g.gate act })
    else none
  | .serialWrite capIdx message => g.enter (.writeIdentify capIdx message)
  | .capRevoke target capIdx => g.enter (.revokeIdentify target capIdx)
  | .proceed =>
    match g.machine.cpu with
    | .task i => g.advance i
    | _ => none

end Gates

end Runix
