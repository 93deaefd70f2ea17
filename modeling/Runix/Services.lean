import Runix.Dist

namespace Runix

inductive Service where
  | kv | log | fs | device | sync
  deriving DecidableEq

namespace Service

def task : Service → Fin maxTasks
  | .kv => ⟨82, by decide⟩
  | .log => ⟨83, by decide⟩
  | .fs => ⟨84, by decide⟩
  | .device => ⟨85, by decide⟩
  | .sync => ⟨86, by decide⟩

/-- The identities of a service's reply channels are hard-coded: a base plus
the client's number. -/
def replyBase : Service → Nat
  | .kv => 8200
  | .log => 8300
  | .fs => 84000
  | .device => 85000
  | .sync => 86000

def replyId (svc : Service) (client : Fin maxTasks) : Nat := svc.replyBase + client

def replyCap (svc : Service) (client : Fin maxTasks) : Capability :=
  ⟨.ipcChannel client, true, true, false, false, svc.replyId client, none⟩

end Service

def replySlot : Fin maxCaps := ⟨1, by decide⟩

/-- `slots[i] = Some(cap)`, past `insert`. -/
def CapTable.put (t : CapTable) (i : Fin maxCaps) (cap : Capability) : CapTable :=
  ⟨Function.update t.slots i (some cap)⟩

def CapTable.insertAll (t : CapTable) (counter : Nat) : List Capability → CapTable × Nat
  | [] => (t, counter)
  | cap :: caps =>
    match t.insert counter cap with
    | (some (_, t), counter) => t.insertAll counter caps
    | (none, counter) => t.insertAll counter caps

namespace System

/-- `sched.tasks[i] = Some(Task::new(TaskId(i), entry, caps))` -/
def spawn (s : System) (i : Fin maxTasks) (table : CapTable) : System :=
  s.modifySched (fun sched => sched.set i
    (some (Task.new s.kernel.stackBase s.kernel.memory.activePml4 i table)))

def spawnClones (s : System) (table : CapTable) : List (Fin maxTasks) → System
  | [] => s
  | i :: is => (s.spawn i table).spawnClones table is

def setCounter (s : System) (counter : Nat) : System :=
  { s with kernel := { s.kernel with nextCapId := counter } }

def spawnWith (s : System) (caps : List Capability) (is : List (Fin maxTasks)) : System :=
  let (table, counter) := CapTable.new.insertAll s.kernel.nextCapId caps
  (s.setCounter counter).spawnClones table is

def rootCap (resource : Resource) (grant : Bool) : Capability :=
  ⟨resource, true, true, grant, false, 0, none⟩

/-- The `ensure_*_service` functions: a service starts with a channel to the
shell. -/
def ensureService (s : System) (svc : Service) : System :=
  if (s.kernel.sched.tasks svc.task).isNone then
    s.spawnWith [rootCap (.ipcChannel 64) false] [svc.task]
  else s

/-- What each service main loop does to its own table on a message, before it
answers: slot 1 becomes a channel to the client. `none` is a failed `unwrap`. -/
def installReply (s : System) (svc : Service) (client : Fin maxTasks) : Option System :=
  match s.kernel.sched.getTask svc.task with
  | none => none
  | some _ => some (s.modifySched (fun sched => sched.modify svc.task (fun me =>
      { me with capTable := me.capTable.put replySlot (svc.replyCap client) })))

def contenderCaps (objId : UInt8) : List Capability :=
  [rootCap (.syncObj objId) false, rootCap (.ipcChannel Service.sync.task) false]

def syncDemoTasks : List (Fin maxTasks) := [⟨78, by decide⟩, ⟨79, by decide⟩]

/-- `run_sync_demo` starts its guarded tasks. -/
def syncDemoGuarded (s : System) : System := s.spawnWith (contenderCaps 7) syncDemoTasks

/-- `run_sync_demo` starts its unguarded tasks. -/
def syncDemoUnguarded (s : System) : System := s.spawnClones CapTable.new syncDemoTasks

/-- `clamp(1, 16)` -/
def contenders (n : Nat) : Nat := max 1 (min n 16)

def contendObj (n : Nat) : UInt8 :=
  if n ≤ 2 then 2 else if n ≤ 4 then 3 else if n ≤ 8 then 4 else 5

def contendTasks (n : Nat) : List (Fin maxTasks) :=
  ((List.finRange 16).take n).map (fun i => ⟨90 + i.val, by
    have := i.isLt
    unfold maxTasks
    omega⟩)

/-- `bench contend <n>`: the tasks that `run_bench_contend` starts. -/
def benchContend (s : System) (n : Nat) : System :=
  s.spawnWith (contenderCaps (contendObj (contenders n))) (contendTasks (contenders n))

end System

/-- The operations that create, copy, move or remove capabilities. Those of a
console command or a service loop are its sections under the scheduler lock. -/
inductive SystemAction where
  | syscall (a : CapAction)
  | insert (task : TaskId) (cap : Capability)
  | create (i : Fin maxTasks) (caps : List Capability)
  | revoke (task : TaskId) (capIdx : Nat)
  | ensureService (svc : Service)
  | reply (svc : Service) (client : Fin maxTasks)
  | syncDemoGuarded
  | syncDemoUnguarded
  | benchContend (n : Nat)
  | register (svc : ServiceId) (loc : Location)
  | migrate (svc : ServiceId) (dest : NodeId)
  | failover (svc : ServiceId) (replica : TaskId)

namespace System

/-- `get_task_mut(task).unwrap().cap_table.insert(cap)` -/
def insertCap (s : System) (task : TaskId) (cap : Capability) : Option System :=
  match s.kernel.sched.getTask task with
  | none => none
  | some t =>
    match t.capTable.insert s.kernel.nextCapId cap with
    | (some (_, table), counter) =>
      some ((s.setCounter counter).modifySched (fun sched =>
        sched.modify task (fun t => { t with capTable := table })))
    | (none, counter) => some (s.setCounter counter)

/-- One operation; `none` is a kernel panic. -/
def step (s : System) : SystemAction → Option System
  | .syscall a => (capSystem s.kernel a).map (fun k => { s with kernel := k })
  | .insert task cap => s.insertCap task cap
  | .create i caps => some (s.spawnWith caps [i])
  | .revoke task capIdx => some (s.modifySched (fun sched => sched.modify task (fun t =>
      { t with capTable := (t.capTable.kernelRevoke capIdx).2 })))
  | .ensureService svc => some (s.ensureService svc)
  | .reply svc client => s.installReply svc client
  | .syncDemoGuarded => some s.syncDemoGuarded
  | .syncDemoUnguarded => some s.syncDemoUnguarded
  | .benchContend n => some (s.benchContend n)
  | .register svc loc => some (s.register svc loc)
  | .migrate svc dest => some (s.migrate svc dest).1
  | .failover svc replica => some (s.failover svc replica).1

/-- No task exists yet; identity `0` means unassigned. -/
def boot (memory : Memory) (stackBase : Nat) : System where
  kernel :=
    { sched := ⟨fun _ => none, none⟩, nextCapId := 1, audit := AuditLog.new, memory := memory
      stackBase := stackBase, serial := [] }
  registry := ServiceRegistry.new
  remote := RemoteNode.new 1

end System

end Runix
