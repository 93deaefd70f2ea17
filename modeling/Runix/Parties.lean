import Runix.Machine
import Runix.Service.Reply

namespace Runix

/-- A service and the tasks that use it, each with the slot in which it holds a channel to the
service. -/
structure Parties where
  svc : Service
  client : Fin maxTasks → Bool
  slot : Fin maxTasks → Nat
  apart : client svc.task = false

namespace Parties

def server (P : Parties) : Fin maxTasks := P.svc.task

def party (P : Parties) (k : Fin maxTasks) : Bool := P.client k || decide (k = P.server)

end Parties

def CapTable.Outside (t : CapTable) (party : Fin maxTasks → Bool) : Prop :=
  ∀ (slot : Nat) (k : Fin maxTasks), t.channel slot = some k.val → party k = false

def Action.Outside (act : Action) (party : Fin maxTasks → Bool) : Prop :=
  match act with
  | .create i _ _ _ table => party i = false ∧ table.Outside party
  | .revoke _ _ => False
  | _ => True

def Machine.since (m m' : Machine) : List Event :=
  m'.trace.take (m'.trace.length - m.trace.length)

def Machine.running (m : Machine) : Option (Fin maxTasks) :=
  match m.cpu with
  | .task i => some i
  | _ => none

end Runix
