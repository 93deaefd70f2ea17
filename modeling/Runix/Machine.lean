import Runix.Ipc

namespace Runix

/-- Where a task's control is, between two indivisible sections of the kernel:
sections under the scheduler lock, or with interrupts disabled. -/
inductive Pc where
  | user
  | send (a : SendArgs)
  | sendGone (a : SendArgs)
  | sendWait (a : SendArgs)
  | sendCheck (a : SendArgs)
  | receive
  | receiveWait
  | sendAsync (a : SendArgs)
  | receiveAsync
  | dead

/-- What the processor executes. `halted` is the `hlt` loop that ends
`terminate_current_task`. -/
inductive Cpu where
  | boot
  | task (i : Fin maxTasks)
  | halted
  deriving DecidableEq

/-- Ghost history of the calls. `delivered` marks the step at which a message
becomes the property of its receiver. -/
inductive Event where
  | sendReturned (task : Fin maxTasks) (call capIdx : Nat) (result : Except IpcError Unit)
  | receiveReturned (task : Fin maxTasks) (result : Except IpcError Message)
  | delivered (msg : Message) (receiver : TaskId)

/-- The single-core system. `calls` and `trace` (newest first) are ghosts. -/
structure Machine where
  sched : Scheduler
  pc : Fin maxTasks → Pc
  cpu : Cpu
  calls : Nat
  trace : List Event

def Machine.boot (s : Scheduler) : Machine := ⟨s, fun _ => .user, .boot, 0, []⟩

/-- A stack pointer saved by `switch_context`. Kernel stacks do not lie at
address zero. -/
abbrev StackPointer := { sp : Nat // sp ≠ 0 }

inductive Action where
  | sendTyped (capIdx : Nat) (tag version : UInt16) (payload : List UInt8)
  | sendAsync (capIdx : Nat) (tag version : UInt16) (payload : List UInt8)
  | receiveTyped
  | receiveAsync
  | proceed (sp : StackPointer)
  | yield (sp : StackPointer)
  | tick (sp : StackPointer)
  | terminate
  | create (i : Fin maxTasks) (ring3 : Bool) (stackBase cr3 : Nat) (capTable : CapTable)
  | revoke (task : TaskId) (capIdx : Nat)

namespace Machine

def setPc (m : Machine) (i : Fin maxTasks) (p : Pc) : Machine :=
  { m with pc := Function.update m.pc i p }

def setTask (m : Machine) (i : Fin maxTasks) (t : Task) : Machine :=
  { m with sched := m.sched.set i (some t) }

def log (m : Machine) (evs : List Event) : Machine := { m with trace := evs ++ m.trace }

@[simp] theorem setPc_sched (m : Machine) (i : Fin maxTasks) (p : Pc) :
    (m.setPc i p).sched = m.sched := rfl

@[simp] theorem setPc_cpu (m : Machine) (i : Fin maxTasks) (p : Pc) :
    (m.setPc i p).cpu = m.cpu := rfl

@[simp] theorem setTask_pc (m : Machine) (i : Fin maxTasks) (t : Task) :
    (m.setTask i t).pc = m.pc := rfl

@[simp] theorem setTask_cpu (m : Machine) (i : Fin maxTasks) (t : Task) :
    (m.setTask i t).cpu = m.cpu := rfl

@[simp] theorem log_sched (m : Machine) (evs : List Event) : (m.log evs).sched = m.sched := rfl

@[simp] theorem log_pc (m : Machine) (evs : List Event) : (m.log evs).pc = m.pc := rfl

@[simp] theorem log_cpu (m : Machine) (evs : List Event) : (m.log evs).cpu = m.cpu := rfl

theorem setPc_pc (m : Machine) (i k : Fin maxTasks) (p : Pc) :
    (m.setPc i p).pc k = if k = i then p else m.pc k := by
  simp [setPc, Function.update_apply]

theorem setTask_tasks (m : Machine) (i k : Fin maxTasks) (t : Task) :
    (m.setTask i t).sched.tasks k = if k = i then some t else m.sched.tasks k := by
  simp [setTask, Scheduler.set_tasks]

@[simp] theorem setTask_currentTaskId (m : Machine) (i : Fin maxTasks) (t : Task) :
    (m.setTask i t).sched.currentTaskId = m.sched.currentTaskId := rfl

def returnSend (m : Machine) (i : Fin maxTasks) (a : SendArgs) (result : Except IpcError Unit) :
    Machine :=
  (m.setPc i .user).log [.sendReturned i a.call a.capIdx result]

/-- Carries out a decision of `yield_cpu` or `preempt_reschedule`. -/
def switchTo (m : Machine) (decision : Scheduler × Option Switch) (sp : StackPointer) : Machine :=
  match decision.2 with
  | none => { m with sched := decision.1 }
  | some sw =>
    match m.cpu with
    | .task i => { m with sched := decision.1.saveRsp i sp, cpu := .task sw.next }
    | _ => { m with sched := decision.1, cpu := .task sw.next }

/-- Carries out the decision of `terminate_current_task`, which abandons the
running context. -/
def abandon (m : Machine) (decision : Scheduler × Option Switch) : Machine :=
  match decision.2 with
  | none => { m with sched := decision.1, cpu := .halted }
  | some sw => { m with sched := decision.1, cpu := .task sw.next }

/-- One round of the loop of `sys_send_typed`, up to the end of the region. -/
def proceedSend (m : Machine) (i : Fin maxTasks) (a : SendArgs) : Machine :=
  match m.sched.sendRegion i a with
  | (sched, .error e) => ({ m with sched := sched } : Machine).returnSend i a (.error e)
  | (sched, .ok (.delivered target)) =>
    (({ m with sched := sched } : Machine).returnSend i a (.ok ())).log
      [.delivered (a.message i) target]
  | (sched, .ok .gone) => ({ m with sched := sched } : Machine).setPc i (.sendGone a)
  | (sched, .ok .blocked) => ({ m with sched := sched } : Machine).setPc i (.sendWait a)

def proceedCheck (m : Machine) (i : Fin maxTasks) (a : SendArgs) : Machine :=
  match m.sched.getTask i with
  | none => m.returnSend i a (.error .targetGone)
  | some t => if t.ipcBuffer.isNone then m.returnSend i a (.ok ()) else m.setPc i (.send a)

def proceedSendAsync (m : Machine) (i : Fin maxTasks) (a : SendArgs) : Machine :=
  match m.sched.sendAsyncRegion i a with
  | (sched, .error e) => ({ m with sched := sched } : Machine).returnSend i a (.error e)
  | (sched, .ok target) =>
    (({ m with sched := sched } : Machine).returnSend i a (.ok ())).log
      [.delivered (a.message i) target]

/-- A receive call that found something returns. The message of a blocked
sender changes owner here. -/
def returnReceive (m : Machine) (i : Fin maxTasks) (source : Scheduler.Source)
    (result : Except IpcError Message) : Machine :=
  (m.setPc i .user).log (.receiveReturned i result ::
    match source, result with
    | .sender _, .ok msg => [.delivered msg i]
    | _, _ => [])

/-- One round of `sys_receive_typed`; with nothing to receive it blocks. -/
def proceedReceive (m : Machine) (i : Fin maxTasks) : Machine :=
  match m.sched.receiveAttempt i with
  | (sched, some (source, result)) =>
    ({ m with sched := sched } : Machine).returnReceive i source result
  | (sched, none) =>
    ({ m with sched := sched.modify i (fun receiver =>
      { receiver with state := .blockedOnReceive }) } : Machine).setPc i .receiveWait

def proceedReceiveAsync (m : Machine) (i : Fin maxTasks) : Machine :=
  match m.sched.receiveAttempt i with
  | (sched, some (source, result)) =>
    ({ m with sched := sched } : Machine).returnReceive i source result
  | (sched, none) =>
    (({ m with sched := sched } : Machine).setPc i .user).log [.receiveReturned i (.error .noMessage)]

/-- The next section of the call that task `i` is in. -/
def proceed (m : Machine) (i : Fin maxTasks) (sp : StackPointer) : Option Machine :=
  match m.pc i with
  | .user | .dead => none
  | .send a => some (m.proceedSend i a)
  | .sendGone a =>
    some (({ m with sched := m.sched.modify i (fun sender => { sender with ipcBuffer := none }) }
      : Machine).returnSend i a (.error .targetGone))
  | .sendWait a => some ((m.setPc i (.sendCheck a)).switchTo m.sched.yieldCpu sp)
  | .sendCheck a => some (m.proceedCheck i a)
  | .receive => some (m.proceedReceive i)
  | .receiveWait => some ((m.setPc i .receive).switchTo m.sched.yieldCpu sp)
  | .sendAsync a => some (m.proceedSendAsync i a)
  | .receiveAsync => some (m.proceedReceiveAsync i)

def enterSend (m : Machine) (i : Fin maxTasks) (capIdx : Nat) (tag version : UInt16)
    (payload : List UInt8) (next : SendArgs → Pc) : Machine :=
  match beginSend m.sched m.calls capIdx tag version payload with
  | .error e =>
    ({ m with calls := m.calls + 1 } : Machine).log [.sendReturned i m.calls capIdx (.error e)]
  | .ok a => ({ m with calls := m.calls + 1 } : Machine).setPc i (next a)

def isUser : Pc → Bool
  | .user => true
  | _ => false

/-- What task `i`, which is running its own code, does next. -/
def enter (m : Machine) (i : Fin maxTasks) : Action → Option Machine
  | .sendTyped capIdx tag version payload =>
    some (m.enterSend i capIdx tag version payload .send)
  | .sendAsync capIdx tag version payload =>
    some (m.enterSend i capIdx tag version payload .sendAsync)
  | .receiveTyped => some (m.setPc i .receive)
  | .receiveAsync => some (m.setPc i .receiveAsync)
  | .yield sp => some (m.switchTo m.sched.yieldCpu sp)
  | _ => none

def freshTask (i : Fin maxTasks) (ring3 : Bool) (stackBase cr3 : Nat) (capTable : CapTable) : Task :=
  if ring3 then Task.newUser stackBase i cr3 capTable else Task.new stackBase cr3 i capTable

def create (m : Machine) (i : Fin maxTasks) (t : Task) : Option Machine :=
  match m.sched.tasks i with
  | none => some ((m.setTask i t).setPc i .user)
  | some old =>
    if old.state = .terminated then some ((m.setTask i t).setPc i .user) else none

/-- One step of the system; `none` when the action is not enabled. -/
def step (m : Machine) (act : Action) : Option Machine :=
  match m.cpu, act with
  | .halted, _ => none
  | _, .create i ring3 stackBase cr3 capTable =>
    m.create i (freshTask i ring3 stackBase cr3 capTable)
  | _, .revoke task capIdx =>
    some { m with sched := m.sched.modify task (fun t =>
      { t with capTable := (t.capTable.kernelRevoke capIdx).2 }) }
  | _, .tick sp => some (m.switchTo (m.sched.preemptReschedule false) sp)
  | .boot, .yield sp => some (m.switchTo m.sched.yieldCpu sp)
  | .boot, .terminate => some (m.abandon m.sched.terminateCurrentTask)
  | .boot, _ => none
  | .task i, .terminate => some ((m.setPc i .dead).abandon m.sched.terminateCurrentTask)
  | .task i, .proceed sp => m.proceed i sp
  | .task i, act => if isUser (m.pc i) then m.enter i act else none

end Machine

end Runix
