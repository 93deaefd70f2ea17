import Runix.Capability

namespace Runix

inductive AuditKind where
  | grant | revoke | revokePropagated
  deriving DecidableEq

structure AuditEvent where
  kind : AuditKind
  actor : TaskId
  target : TaskId
  resource : Resource
  slot : Nat
  deriving DecidableEq

def auditCapacity : Nat := 64

structure AuditLog where
  buffer : Fin auditCapacity → Option AuditEvent
  next : Fin auditCapacity
  total : Nat
  dropped : Nat

/-- `TaskId(usize::MAX)` stands for the kernel. -/
def kernelActor : TaskId := 2 ^ 64 - 1

namespace AuditLog

def new : AuditLog := ⟨fun _ => none, ⟨0, by decide⟩, 0, 0⟩

def push (log : AuditLog) (ev : AuditEvent) : AuditLog :=
  { buffer := Function.update log.buffer log.next (some ev)
    next := ⟨(log.next + 1) % auditCapacity, Nat.mod_lt _ (by decide)⟩
    total := log.total + 1
    dropped := if (log.buffer log.next).isSome then log.dropped + 1 else log.dropped }

/-- `push` with its counters in 64 bits; `none` is the overflow of one of them. -/
def tryPush (log : AuditLog) (ev : AuditEvent) : Option AuditLog :=
  if (log.push ev).dropped < 2 ^ 64 ∧ (log.push ev).total < 2 ^ 64 then some (log.push ev)
  else none

end AuditLog

end Runix
