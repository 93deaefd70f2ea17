import Runix.Lib.Table
import Runix.Snapshot
import Runix.Syscall

namespace Runix

abbrev NodeId := Nat

abbrev ServiceId := Nat

inductive Location where
  | localTask (task : TaskId)
  | remote (node : NodeId)
  deriving DecidableEq

def maxServices : Nat := 16

structure ServiceRegistry where
  entries : Fin maxServices → Option (ServiceId × Location)

namespace ServiceRegistry

def new : ServiceRegistry := ⟨fun _ => none⟩

def resolve (r : ServiceRegistry) (svc : ServiceId) : Option Location :=
  (List.finRange maxServices).findSome? (fun i =>
    match r.entries i with
    | some (s, loc) => if s = svc then some loc else none
    | none => none)

/-- Changes the service's entry, or takes the first free one. A full table
drops the route. -/
def set (r : ServiceRegistry) (svc : ServiceId) (loc : Location) : ServiceRegistry :=
  match (List.finRange maxServices).find? (fun i =>
    match r.entries i with
    | some (s, _) => decide (s = svc)
    | none => false) with
  | some i => ⟨Function.update r.entries i (some (svc, loc))⟩
  | none =>
    match (List.finRange maxServices).find? (fun i => (r.entries i).isNone) with
    | some i => ⟨Function.update r.entries i (some (svc, loc))⟩
    | none => r

end ServiceRegistry

/-- The simulated remote node: messages from the transport, and the checkpoints
of the services that migrated here. -/
structure RemoteNode where
  id : NodeId
  inbox : MessageQueue
  services : Fin maxServices → Option (ServiceId × TaskCheckpoint)
  delivered : Nat

namespace RemoteNode

def new (id : NodeId) : RemoteNode := ⟨id, MessageQueue.new, fun _ => none, 0⟩

def host (n : RemoteNode) (svc : ServiceId) (cp : TaskCheckpoint) : RemoteNode :=
  match (List.finRange maxServices).find? (fun i => (n.services i).isNone) with
  | some i => { n with services := Function.update n.services i (some (svc, cp)) }
  | none => n

def checkpointOf (n : RemoteNode) (svc : ServiceId) : Option TaskCheckpoint :=
  (List.finRange maxServices).findSome? (fun i =>
    match n.services i with
    | some (s, cp) => if s = svc then some cp else none
    | none => none)

/-- `transport_send`: a message to another node is lost, as is one to a full
inbox. -/
def transportSend (n : RemoteNode) (node : NodeId) (msg : Message) : RemoteNode :=
  if n.id = node then { n with inbox := (n.inbox.enqueue msg).getD n.inbox } else n

/-- The loop of `pump_remote`. It prints the first `len` bytes of each payload,
and more than the payload has is a panic. -/
def pumpLoop : Nat → RemoteNode → Nat → Option (RemoteNode × Nat)
  | 0, n, count => if n.inbox.count = 0 then some (n, count) else none
  | rounds + 1, n, count =>
    match n.inbox.dequeue with
    | (none, _) => some (n, count)
    | (some msg, inbox) =>
      if msg.len ≤ 128 then
        pumpLoop rounds { n with inbox := inbox, delivered := n.delivered + 1 } (count + 1)
      else none

end RemoteNode

def countCaps (t : CapTable) : Nat :=
  ((List.finRange maxCaps).filter (fun i => (t.slots i).isSome)).length

inductive Routed where
  | localTask (task : TaskId)
  | remote (node : NodeId)
  | unknown
  deriving DecidableEq

structure System where
  kernel : Kernel
  registry : ServiceRegistry
  remote : RemoteNode

namespace System

def modifySched (s : System) (f : Scheduler → Scheduler) : System :=
  { s with kernel := { s.kernel with sched := f s.kernel.sched } }

def register (s : System) (svc : ServiceId) (loc : Location) : System :=
  { s with registry := s.registry.set svc loc }

/-- The message that `route_send` builds. The payload is cut to 128 bytes, and
without a current task the sender is `usize::MAX`. -/
def routedMessage (s : System) (payload : List UInt8) : Message where
  sender := s.kernel.sched.currentTaskId.getD (2 ^ 64 - 1)
  tag := .raw
  version := 1
  payload := padPayload (payload.take 128)
  len := min payload.length 128
  call := 0
  via := 0

/-- `route_send`: a local service finds the message in its queue, a remote one
gets it over the transport. -/
def routeSend (s : System) (cap : Capability) (payload : List UInt8) : System × Routed :=
  match cap.resource with
  | .service svc =>
    match s.registry.resolve svc with
    | none => (s, .unknown)
    | some (.localTask tid) =>
      (s.modifySched (fun sched => sched.modify tid (fun t =>
        { t with msgQueue := (t.msgQueue.enqueue (s.routedMessage payload)).getD t.msgQueue })),
        .localTask tid)
    | some (.remote node) =>
      ({ s with remote := s.remote.transportSend node (s.routedMessage payload) }, .remote node)
  | _ => (s, .unknown)

/-- `pump_remote`; `none` is a panic. -/
def pumpRemote (s : System) : Option (System × Nat) :=
  (s.remote.pumpLoop s.remote.inbox.count 0).map (fun r => ({ s with remote := r.1 }, r.2))

/-- `migrate`: checkpoints the service's local task, hosts the checkpoint on
the remote node, routes the service there and tears the task down. -/
def migrate (s : System) (svc : ServiceId) (dest : NodeId) : System × Except Unit Nat :=
  match s.registry.resolve svc with
  | some (.localTask tid) =>
    match s.kernel.sched.getTask tid with
    | none => (s, .error ())
    | some t =>
      (({ s with
          remote := s.remote.host svc t.checkpoint
          registry := s.registry.set svc (.remote dest) } : System).modifySched
        (fun sched => if h : tid < maxTasks then sched.set ⟨tid, h⟩ none else sched),
        .ok (countCaps t.capTable))
  | _ => (s, .error ())

/-- `failover`: the replica takes over the tables, buffer and queue of the
hosted checkpoint, and the route. -/
def failover (s : System) (svc : ServiceId) (replica : TaskId) : System × Except Unit Nat :=
  match s.remote.checkpointOf svc with
  | none => (s, .error ())
  | some cp =>
    match s.kernel.sched.getTask replica with
    | none => (s, .error ())
    | some _ =>
      ({ s.modifySched (fun sched => sched.modify replica (fun t =>
          { t with capTable := cp.capTable, ipcBuffer := cp.ipcBuffer, msgQueue := cp.msgQueue }))
          with registry := s.registry.set svc (.localTask replica) },
        .ok (countCaps cp.capTable))

end System

/-- A call of the substrate with its outcome, or any change of the local kernel
in between. -/
inductive DistEvent where
  | registered (svc : ServiceId) (loc : Location)
  | routed (cap : Capability) (payload : List UInt8) (result : Routed)
  | migrated (svc : ServiceId) (dest : NodeId) (result : Except Unit Nat)
  | pumped (count : Nat)
  | failedOver (svc : ServiceId) (replica : TaskId) (result : Except Unit Nat)
  | localChange (kernel : Kernel)

inductive System.DistStep : System → DistEvent → System → Prop where
  | register (s : System) (svc : ServiceId) (loc : Location) :
      DistStep s (.registered svc loc) (s.register svc loc)
  | route {s t : System} {cap : Capability} {payload : List UInt8} {r : Routed}
      (h : s.routeSend cap payload = (t, r)) : DistStep s (.routed cap payload r) t
  | migrate {s t : System} {svc : ServiceId} {dest : NodeId} {r : Except Unit Nat}
      (h : s.migrate svc dest = (t, r)) : DistStep s (.migrated svc dest r) t
  | pump {s t : System} {count : Nat} (h : s.pumpRemote = some (t, count)) :
      DistStep s (.pumped count) t
  | failover {s t : System} {svc : ServiceId} {replica : TaskId} {r : Except Unit Nat}
      (h : s.failover svc replica = (t, r)) : DistStep s (.failedOver svc replica r) t
  | localChange (s : System) (kernel : Kernel) :
      DistStep s (.localChange kernel) { s with kernel := kernel }

structure System.Fresh (s : System) : Prop where
  registry : s.registry = ServiceRegistry.new
  remote : s.remote = RemoteNode.new 1

-- both tables are first-match tables

theorem ServiceRegistry.resolve_eq (r : ServiceRegistry) (svc : ServiceId) :
    r.resolve svc = Lib.Table.lookup r.entries svc := by
  unfold resolve Lib.Table.lookup
  congr 1
  funext i
  cases r.entries i <;> rfl

theorem ServiceRegistry.set_entries (r : ServiceRegistry) (svc : ServiceId) (loc : Location) :
    (r.set svc loc).entries = Lib.Table.put r.entries svc loc := by
  have hslot : (List.finRange maxServices).find? (fun i =>
      match r.entries i with
      | some (s, _) => decide (s = svc)
      | none => false) = Lib.Table.slotOf r.entries svc := by
    unfold Lib.Table.slotOf
    congr 1
    funext i
    cases r.entries i with
    | none => rfl
    | some e =>
      by_cases he : e.1 = svc <;> simp [Lib.Table.held, he]
  unfold set
  rw [hslot, Lib.Table.put]
  cases Lib.Table.slotOf r.entries svc with
  | some i => rfl
  | none =>
    change (match Lib.Table.free r.entries with
      | some i => (⟨Function.update r.entries i (some (svc, loc))⟩ : ServiceRegistry)
      | none => r).entries = Lib.Table.push r.entries svc loc
    unfold Lib.Table.push
    cases Lib.Table.free r.entries <;> rfl

theorem RemoteNode.checkpointOf_eq (n : RemoteNode) (svc : ServiceId) :
    n.checkpointOf svc = Lib.Table.lookup n.services svc := by
  unfold checkpointOf Lib.Table.lookup
  congr 1
  funext i
  cases n.services i <;> rfl

theorem RemoteNode.host_eq (n : RemoteNode) (svc : ServiceId) (cp : TaskCheckpoint) :
    n.host svc cp = { n with services := Lib.Table.push n.services svc cp } := by
  change (match Lib.Table.free n.services with
    | some i => { n with services := Function.update n.services i (some (svc, cp)) }
    | none => n) = _
  unfold Lib.Table.push
  cases Lib.Table.free n.services <;> rfl

theorem RemoteNode.host_services {n : RemoteNode} {svc : ServiceId} {cp : TaskCheckpoint}
    {i : Fin maxServices} {e : ServiceId × TaskCheckpoint}
    (h : (n.host svc cp).services i = some e) : n.services i = some e ∨ e = (svc, cp) := by
  rw [host_eq] at h
  exact (Lib.Table.push_eq_some h).symm

theorem RemoteNode.checkpointOf_some {n : RemoteNode} {svc : ServiceId} {cp : TaskCheckpoint}
    (h : n.checkpointOf svc = some cp) : ∃ i, n.services i = some (svc, cp) :=
  Lib.Table.exists_of_lookup ((n.checkpointOf_eq svc).symm.trans h)

end Runix
