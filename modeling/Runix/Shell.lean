import Runix.Client

namespace Runix

inductive Standing where
  | echo
  | store (svc : Service)
  deriving DecidableEq

def Standing.slot : Standing → Fin maxTasks
  | .echo => ⟨65, by decide⟩
  | .store svc => svc.task

inductive Entry where
  | service (svc : Standing)
  | park
  | timesliceA
  | timesliceB
  | fault
  | stressWorker
  | benchSched
  | benchContend
  | syncDemoGuarded
  | syncDemoUnguarded
  | preemptUser
  deriving DecidableEq

def slotsFrom (base n : Nat) : List (Fin maxTasks) :=
  (List.range n).filterMap (fun i => if h : base + i < maxTasks then some ⟨base + i, h⟩ else none)

/-- The console's commands with the tokens they read. `other` is every command that
assigns no task slot; `history`, `trace` and `watch` dispatch another line, which is
then the command. -/
inductive Command where
  | delegate (cmd : GrantCommand)
  | schedTimeslice
  | schedPreemptRace
  | schedPreemptUser
  | faultSpawn
  | faultCascade (tok2 : List UInt8)
  | ipcSend (tok2 : List UInt8)
  | ipcTyped (tok2 : List UInt8)
  | ipcStress (tok2 : List UInt8)
  | serviceRestart (tok2 : List UInt8)
  | migrate (tok1 tok2 : List UInt8)
  | client (cmd : ClientCommand)
  | fsLs (tok2 : List UInt8)
  | logTail
  | devRead (tok2 : List UInt8)
  | devWrite (tok2 tok3 : List UInt8)
  | benchIpc
  | benchSched
  | benchCap
  | benchFs
  | benchContend (tok2 : List UInt8)
  | benchAll
  | syncCreate (tok2 tok3 : List UInt8)
  | syncAcquire (tok2 : List UInt8)
  | syncRelease (tok2 : List UInt8)
  | syncDemo
  | other

structure Launch where
  caps : List Capability
  slots : List (Fin maxTasks)
  entry : Entry

/-- What a command does to the task slots under the scheduler lock, without giving it
back. -/
inductive Section where
  | ensure (svc : Standing)
  | ensureFor (obj : UInt8)
  | launch (batch : List Launch)
  | launchUser (slot : Fin maxTasks)
  | clear (slots : List (Fin maxTasks))
  | clearOccupied (slots : List (Fin maxTasks))
  | delegate (cmd : GrantCommand)
  | demo

namespace Command

/-- `service restart echo` -/
def restartEcho : Command := .serviceRestart [101, 99, 104, 111]

def upToEight (tok2 : List UInt8) : Option Nat :=
  match parseUsize tok2 with
  | none => none
  | some n => if 1 ≤ n ∧ n ≤ 8 then some n else none

/-- The task that `sched preempt-race` revokes from. -/
def raceTask : Launch := ⟨[System.rootCap (.ipcChannel 70) false], slotsFrom 69 1, .park⟩

/-- The worker pairs of `ipc stress`: each has a channel to the other. -/
def stressBatch (n : Nat) : List Launch :=
  (List.range n).flatMap (fun i =>
    [⟨[System.rootCap (.ipcChannel (74 + 2 * i)) false], slotsFrom (73 + 2 * i) 1, .stressWorker⟩,
      ⟨[System.rootCap (.ipcChannel (73 + 2 * i)) false], slotsFrom (74 + 2 * i) 1, .stressWorker⟩])

/-- The service of `migrate 1 1` and its replica. -/
def migrateBatch : List Launch :=
  [⟨[⟨.serial, false, true, false, false, 0, none⟩, System.rootCap (.service 1) false],
      slotsFrom 75 1, .park⟩,
    ⟨[], slotsFrom 76 1, .park⟩]

/-- `sync create` gets as far as its message. The object's number is cut to a byte; a
mutex has no count, a semaphore may have one. -/
def createsSync (tok2 tok3 : List UInt8) : Bool :=
  match parseUsize tok2 with
  | none => false
  | some id => decide (UInt8.ofNat id < 8) && (List.isPrefixOf [109, 117, 116, 101, 120] tok3 ||
      (afterWord tok3).isEmpty || (parseUsize (afterWord tok3)).isSome)

def benchIpcSections : List Section := [.ensure .echo]

def benchSchedSections : List Section := [.launch [⟨[], slotsFrom 110 20, .benchSched⟩]]

def benchCapSections : List Section := [.ensure (.store .fs)]

/-- `send_fs_msg` ensures the service each time. -/
def benchFsSections : List Section := List.replicate 1001 (.ensure (.store .fs))

def sections : Command → List Section
  | .delegate cmd => [.delegate cmd]
  | .schedTimeslice => [.launch [⟨[], slotsFrom 67 1, .timesliceA⟩, ⟨[], slotsFrom 68 1, .timesliceB⟩]]
  | .schedPreemptRace => [.launch [raceTask], .launch [raceTask]]
  | .schedPreemptUser => [.launchUser ⟨72, by decide⟩, .clear (slotsFrom 72 1)]
  | .faultSpawn => [.launch [⟨[], slotsFrom 71 1, .fault⟩]]
  | .faultCascade tok2 =>
    match upToEight tok2 with
    | none => []
    | some n => [.launch [⟨[], slotsFrom 72 n, .fault⟩]]
  | .ipcSend tok2 => if parseUsize tok2 = some 65 then [.ensure .echo] else []
  | .ipcTyped tok2 =>
    match parseUsize tok2 with
    | none => []
    | some schema => if schema > 3 then [] else [.ensure .echo]
  | .ipcStress tok2 =>
    match upToEight tok2 with
    | none => []
    | some n => [.launch (stressBatch n), .clearOccupied (slotsFrom 73 (2 * n))]
  | .serviceRestart tok2 =>
    if tok2 = [101, 99, 104, 111] then [.clearOccupied [Standing.echo.slot], .ensure .echo] else []
  | .migrate tok1 tok2 =>
    if parseUsize tok1 = some 1 ∧ parseUsize tok2 = some 1 then [.launch migrateBatch, .demo] else []
  | .client cmd =>
    match cmd.request with
    | .error _ => []
    | .ok req => [.ensure (.store req.svc)]
  | .fsLs tok2 => if tok2.isEmpty then [] else [.ensure (.store .fs)]
  | .logTail => [.ensure (.store .log)]
  | .devRead tok2 => if (parseUsize tok2).isNone then [] else [.ensure (.store .device)]
  | .devWrite tok2 tok3 =>
    if (parseUsize tok2).isNone || tok3.isEmpty then [] else [.ensure (.store .device)]
  | .benchIpc => benchIpcSections
  | .benchSched => benchSchedSections
  | .benchCap => benchCapSections
  | .benchFs => benchFsSections
  | .benchContend tok2 =>
    let n := System.contenders ((parseUsize tok2).getD 2)
    [.ensure (.store .sync), .ensure (.store .sync),
      .launch [⟨System.contenderCaps (System.contendObj n), System.contendTasks n, .benchContend⟩]]
  | .benchAll => benchIpcSections ++ benchSchedSections ++ benchCapSections ++ benchFsSections
  | .syncCreate tok2 tok3 => if createsSync tok2 tok3 then [.ensure (.store .sync)] else []
  | .syncAcquire tok2 | .syncRelease tok2 =>
    match parseUsize tok2 with
    | none => []
    | some id => [.ensureFor (UInt8.ofNat id)]
  | .syncDemo =>
    [.ensure (.store .sync),
      .launch [⟨System.contenderCaps 7, System.syncDemoTasks, .syncDemoGuarded⟩],
      .launch [⟨[], System.syncDemoTasks, .syncDemoUnguarded⟩]]
  | .other => []

end Command

namespace System

def departing (s : System) (svc : ServiceId) : Option (Fin maxTasks) :=
  match s.registry.resolve svc with
  | some (.localTask tid) =>
    if h : tid < maxTasks then
      if (s.kernel.sched.getTask tid).isSome then some ⟨tid, h⟩ else none
    else none
  | _ => none

def demoCap : Capability := rootCap (.service 1) false

/-- `dist::demo(1, TaskId(75), TaskId(76))` up to the migration: two messages while
the service is here. -/
def demoHere (s : System) : System :=
  let s := s.register 1 (.localTask 75)
  let s := (s.routeSend demoCap [97, 108, 112, 104, 97]).1
  (s.routeSend demoCap [98, 101, 116, 97]).1

/-- The rest of it: two messages over the transport, the pump, the failover and a last
message. `none` is a panic. -/
def demoAway (s : System) : Option System :=
  match s.migrate 1 1 with
  | (s, .error ()) => some s
  | (s, .ok _) => do
    let s := (s.routeSend demoCap [103, 97, 109, 109, 97]).1
    let s := (s.routeSend demoCap [100, 101, 108, 116, 97]).1
    let (s, _) ← s.pumpRemote
    match s.failover 1 76 with
    | (s, .ok _) => some (s.routeSend demoCap [101, 112, 115, 105, 108, 111, 110]).1
    | (s, .error ()) => some s

end System

/-- An assignment to a task slot: the command that made it, and the function at which
the new task starts, if it is one. -/
structure SlotWrite where
  command : Command
  slot : Fin maxTasks
  entry : Option Entry

/-- The console: the command at work with the sections it still has to do, and the
assignments so far, latest first. No modelled function reads the last. -/
structure Shell where
  system : System
  running : Option (Command × List Section)
  trace : List SlotWrite

inductive ShellAction where
  | enter (cmd : Command)
  | advance
  | elsewhere (kernel : Kernel)

namespace Shell

def boot (system : System) : Shell := ⟨system, none, []⟩

def tasks (sh : Shell) (i : Fin maxTasks) : Option Task := sh.system.kernel.sched.tasks i

/-- `sched.tasks[i] = ..`, with the system after it. -/
def put (sh : Shell) (cmd : Command) (i : Fin maxTasks) (entry : Option Entry) (system : System) :
    Shell :=
  { sh with system := system, trace := ⟨cmd, i, entry⟩ :: sh.trace }

def launch (sh : Shell) (cmd : Command) (l : Launch) : Shell :=
  let (table, counter) := CapTable.new.insertAll sh.system.kernel.nextCapId l.caps
  l.slots.foldl (fun sh i => sh.put cmd i (some l.entry) (sh.system.spawn i table))
    { sh with system := sh.system.setCounter counter }

def ensure (sh : Shell) (cmd : Command) (svc : Standing) : Shell :=
  if (sh.tasks svc.slot).isNone then
    sh.launch cmd ⟨[System.rootCap (.ipcChannel 64) false], [svc.slot], .service svc⟩
  else sh

def clear (sh : Shell) (cmd : Command) (i : Fin maxTasks) : Shell :=
  sh.put cmd i none (sh.system.modifySched (fun sched => sched.set i none))

def clearOccupied (sh : Shell) (cmd : Command) (i : Fin maxTasks) : Shell :=
  if (sh.tasks i).isSome then sh.clear cmd i else sh

/-- A task of ring 3 with an empty table; `none` is a panic. -/
def launchUser (sh : Shell) (cmd : Command) (i : Fin maxTasks) : Option Shell :=
  match Kernel.buildUserSpace sh.system.kernel.memory with
  | none => none
  | some (cr3, memory) =>
    let kernel := { sh.system.kernel with
      memory := memory
      sched := sh.system.kernel.sched.set i
        (some (Task.newUser sh.system.kernel.stackBase i cr3 CapTable.new)) }
    some (sh.put cmd i (some .preemptUser) { sh.system with kernel := kernel })

/-- The slot that a grant assigns: `cap grant` always its own, the others an empty
target. -/
def grantSlot (sh : Shell) (g : GrantCommand) (d : Delegation) : Option (Fin maxTasks) :=
  if h : d.target < maxTasks then
    match g with
    | .cap _ => some ⟨d.target, h⟩
    | .kv _ _ | .log _ _ => if (sh.tasks ⟨d.target, h⟩).isNone then some ⟨d.target, h⟩ else none
  else none

def delegate (sh : Shell) (cmd : Command) (g : GrantCommand) : Option Shell :=
  match sh.system.kernel.delegation g with
  | none => none
  | some (.error _) => some sh
  | some (.ok d) =>
    match sh.system.kernel.deliver d g with
    | none => none
    | some kernel =>
      match sh.grantSlot g d with
      | some i => some (sh.put cmd i (some .park) { sh.system with kernel := kernel })
      | none => some { sh with system := { sh.system with kernel := kernel } }

def demo (sh : Shell) (cmd : Command) : Option Shell :=
  let here := sh.system.demoHere
  match here.demoAway with
  | none => none
  | some system =>
    match here.departing 1 with
    | some i => some (sh.put cmd i none system)
    | none => some { sh with system := system }

/-- One section of a command; `none` is a panic. -/
def exec (sh : Shell) (cmd : Command) : Section → Option Shell
  | .ensure svc => some (sh.ensure cmd svc)
  | .ensureFor obj =>
    match sh.system.kernel.getShellCaps with
    | none => none
    | some caps =>
      if (caps.firstSlot (fun r => r = .syncObj obj)).isSome then some (sh.ensure cmd (.store .sync))
      else some sh
  | .launch batch => some (batch.foldl (fun sh l => sh.launch cmd l) sh)
  | .launchUser i => sh.launchUser cmd i
  | .clear slots => some (slots.foldl (fun sh i => sh.clear cmd i) sh)
  | .clearOccupied slots => some (slots.foldl (fun sh i => sh.clearOccupied cmd i) sh)
  | .delegate g => sh.delegate cmd g
  | .demo => sh.demo cmd

/-- Other code, the parts of a command between its sections included, changes tasks
where they are. No slot becomes empty by it. -/
def step (sh : Shell) : ShellAction → Option Shell
  | .enter cmd =>
    match sh.running with
    | none => some { sh with running := some (cmd, cmd.sections) }
    | some _ => none
  | .advance =>
    match sh.running with
    | none => none
    | some (_, []) => some { sh with running := none }
    | some (cmd, sec :: rest) =>
      (sh.exec cmd sec).map (fun sh => { sh with running := some (cmd, rest) })
  | .elsewhere kernel =>
    if ∀ i, (sh.tasks i).isSome → (kernel.sched.tasks i).isSome then
      some { sh with system := { sh.system with kernel := kernel } }
    else none

def holder (trace : List SlotWrite) (i : Fin maxTasks) : Option Entry :=
  (trace.find? (fun w => w.slot = i)).bind SlotWrite.entry

def Stands (trace : List SlotWrite) (svc : Standing) : Prop :=
  holder trace svc.slot = some (.service svc)

end Shell

end Runix
