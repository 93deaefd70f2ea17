import Runix.Machine

namespace Runix

/-- The statics of the preemption subsystem. `pendingRevoke` is `none` for
`NO_REVOKE`. -/
structure Preempt where
  ticks : Nat
  preemptions : Nat
  deferred : Nat
  windowTicks : Nat
  preemptCount : Nat
  armed : Bool
  inIpcWindow : Bool
  pendingRevoke : Option Nat
  pendingRevokeTask : TaskId
  revokeFiredInWindow : Bool

namespace Preempt

def new : Preempt := ⟨0, 0, 0, 0, 0, false, false, none, 0, false⟩

def setArmed (p : Preempt) (on : Bool) : Preempt := { p with armed := on }

def enterCritical (p : Preempt) : Preempt := { p with preemptCount := p.preemptCount + 1 }

def exitCritical (p : Preempt) : Preempt := { p with preemptCount := p.preemptCount - 1 }

def enterIpcWindow (p : Preempt) : Preempt := { p with inIpcWindow := true }

def exitIpcWindow (p : Preempt) : Preempt := { p with inIpcWindow := false }

def armAdversary (p : Preempt) (task : TaskId) (slot : Nat) : Preempt :=
  { p with revokeFiredInWindow := false, pendingRevokeTask := task, pendingRevoke := some slot }

def disarmAdversary (p : Preempt) : Preempt := { p with pendingRevoke := none }

def notePreemption (p : Preempt) : Preempt := { p with preemptions := p.preemptions + 1 }

def noteDeferredLocked (p : Preempt) : Preempt := { p with deferred := p.deferred + 1 }

/-- `maybe_fire_adversary`; `locked` is what its `try_lock` meets. -/
def maybeFireAdversary (p : Preempt) (s : Scheduler) (locked : Bool) : Preempt × Scheduler :=
  match p.pendingRevoke with
  | none => (p, s)
  | some slot =>
    if locked then (p, s)
    else
      match s.getTask p.pendingRevokeTask with
      | none => (p, s)
      | some _ =>
        ({ p with revokeFiredInWindow := true, pendingRevoke := none },
          s.modify p.pendingRevokeTask (fun t =>
            { t with capTable := (t.capTable.kernelRevoke slot).2 }))

/-- The probe at the head of `on_tick_should_switch`. -/
def countTick (p : Preempt) : Preempt :=
  { p with
    ticks := p.ticks + 1
    windowTicks := if p.inIpcWindow then p.windowTicks + 1 else p.windowTicks }

def onTickShouldSwitch (p : Preempt) (s : Scheduler) (locked : Bool) :
    Bool × Preempt × Scheduler :=
  let p := p.countTick
  if p.armed = false then (false, p, s)
  else if p.preemptCount ≠ 0 then (false, { p with deferred := p.deferred + 1 }, s)
  else if p.inIpcWindow then (true, p.maybeFireAdversary s locked)
  else (true, p, s)

end Preempt

inductive SendKind where
  | typed
  | async
  deriving DecidableEq

/-- Where a send attempt is. `entry` is the ghost of the scheduler at the
moment of validation. -/
inductive Phase where
  | enter
  | window
  | acquire
  | validate
  | clear (entry : Scheduler) (e : IpcError)
  | use (entry : Scheduler) (target : TaskId)
  | wake (entry : Scheduler) (target : TaskId)
  | park (entry : Scheduler) (target : TaskId)
  | release (entry : Scheduler) (result : Except IpcError SendStep)
  | closeWindow (result : Except IpcError SendStep)
  | leave (result : Except IpcError SendStep)

inductive Exit where
  | user
  | send (kind : SendKind) (a : SendArgs)
  | receive (block : Bool)
  | receiveWait

inductive LockedOp where
  | identify (next : Exit)
  | clearBuffer
  | checkBuffer (a : SendArgs)
  | receive (block : Bool)
  | revoke (task : TaskId) (capIdx : Nat)

inductive Control where
  | user
  | send (kind : SendKind) (a : SendArgs) (phase : Phase)
  | acquire (op : LockedOp)
  | holding (op : LockedOp)
  | releasing (next : Exit)
  | sendWait (a : SendArgs)
  | receiveWait
  | dead

def Exit.control : Exit → Control
  | .user => .user
  | .send kind a => .send kind a .enter
  | .receive block => .acquire (.receive block)
  | .receiveWait => .receiveWait

/-- The core with its lock and the preemption statics. The owner in `lock` and
the regions in `depth` that a task opened outside the send calls are ghosts. -/
structure Core where
  sched : Scheduler
  lock : Option (Fin maxTasks)
  preempt : Preempt
  control : Fin maxTasks → Control
  depth : Fin maxTasks → Nat
  cpu : Cpu
  calls : Nat

inductive CoreAction where
  | sendTyped (capIdx : Nat) (tag version : UInt16) (payload : List UInt8)
  | sendAsync (capIdx : Nat) (tag version : UInt16) (payload : List UInt8)
  | receiveTyped
  | receiveAsync
  | revoke (task : TaskId) (capIdx : Nat)
  | enterCritical
  | exitCritical
  | enterIpcWindow
  | exitIpcWindow
  | setArmed (on : Bool)
  | armAdversary (task : TaskId) (slot : Nat)
  | disarmAdversary
  | yield (sp : StackPointer)
  | terminate
  | proceed (sp : StackPointer)
  | tick (sp : StackPointer)

namespace Core

def boot (s : Scheduler) : Core := ⟨s, none, .new, fun _ => .user, fun _ => 0, .boot, 0⟩

def goto (m : Core) (i : Fin maxTasks) (c : Control) : Core :=
  { m with control := Function.update m.control i c }

def advance (m : Core) (i : Fin maxTasks) (kind : SendKind) (a : SendArgs) (phase : Phase) : Core :=
  m.goto i (.send kind a phase)

def switchTo (m : Core) (decision : Scheduler × Option Switch) (sp : StackPointer) : Core :=
  match decision.2 with
  | none => { m with sched := decision.1 }
  | some sw =>
    match m.cpu with
    | .task i => { m with sched := decision.1.saveRsp i sp, cpu := .task sw.next }
    | _ => { m with sched := decision.1, cpu := .task sw.next }

/-- `yield_cpu`, which spins if the lock is taken; task `i` will resume at the
given place. -/
def yieldCpu (m : Core) (i : Fin maxTasks) (resume : Control) (sp : StackPointer) : Core :=
  if m.lock.isSome then m else (m.goto i resume).switchTo m.sched.yieldCpu sp

def timerIsr (m : Core) (sp : StackPointer) : Core :=
  match m.preempt.onTickShouldSwitch m.sched m.lock.isSome with
  | (false, preempt, sched) => { m with preempt := preempt, sched := sched }
  | (true, preempt, sched) =>
    let decision := sched.preemptReschedule m.lock.isSome
    let preempt :=
      if m.lock.isSome then preempt.noteDeferredLocked
      else if decision.2.isSome then preempt.notePreemption else preempt
    ({ m with preempt := preempt } : Core).switchTo decision sp

def use (m : Core) (i : Fin maxTasks) (kind : SendKind) (a : SendArgs) (entry : Scheduler)
    (target : TaskId) : Core :=
  match kind with
  | .typed =>
    match (m.sched.getTask target).map Task.state with
    | none | some .terminated => m.advance i kind a (.release entry (.ok .gone))
    | some .blockedOnReceive =>
      ({ m with sched := m.sched.modify target (fun t =>
          { t with ipcBuffer := some (a.message i) }) } : Core).advance i kind a (.wake entry target)
    | some _ =>
      ({ m with sched := m.sched.modify i (fun t =>
          { t with state := .blockedOnSend target }) } : Core).advance i kind a (.park entry target)
  | .async =>
    match m.sched.getTask target with
    | none => m.advance i kind a (.release entry (.error .targetGone))
    | some u =>
      if u.state = .terminated then m.advance i kind a (.release entry (.error .targetGone))
      else
        match u.msgQueue.enqueue (a.message i) with
        | some queue =>
          ({ m with sched := m.sched.modify target (fun t =>
              { t with msgQueue := queue }) } : Core).advance i kind a (.wake entry target)
        | none => m.advance i kind a (.release entry (.error .queueFull))

def wakeState (kind : SendKind) (st : TaskState) : TaskState :=
  match kind with
  | .typed => .ready
  | .async => if st = .blockedOnReceive then .ready else st

def afterRegion (kind : SendKind) (a : SendArgs) (result : Except IpcError SendStep) : Control :=
  match kind, result with
  | .typed, .ok .gone => .acquire .clearBuffer
  | .typed, .ok .blocked => .sendWait a
  | _, _ => .user

def proceedSend (m : Core) (i : Fin maxTasks) (kind : SendKind) (a : SendArgs) (phase : Phase) :
    Core :=
  match phase with
  | .enter =>
    ({ m with preempt := m.preempt.enterCritical } : Core).advance i kind a
      (match kind with | .typed => .window | .async => .acquire)
  | .window =>
    ({ m with preempt := m.preempt.enterIpcWindow } : Core).advance i kind a .acquire
  | .acquire =>
    if m.lock.isSome then m else ({ m with lock := some i } : Core).advance i kind a .validate
  | .validate =>
    match m.sched.resolveTargetLocked i a.capIdx with
    | .error e =>
      m.advance i kind a
        (match kind with | .typed => .clear m.sched e | .async => .release m.sched (.error e))
    | .ok target => m.advance i kind a (.use m.sched target)
  | .clear entry e =>
    ({ m with sched := m.sched.modify i (fun sender =>
        { sender with ipcBuffer := none }) } : Core).advance i kind a (.release entry (.error e))
  | .use entry target => m.use i kind a entry target
  | .wake entry target =>
    ({ m with sched := m.sched.modify target (fun t =>
        { t with state := wakeState kind t.state }) } : Core).advance i kind a
      (.release entry (.ok (.delivered target)))
  | .park entry _ =>
    ({ m with sched := m.sched.modify i (fun sender =>
        { sender with ipcBuffer := some (a.message i) }) } : Core).advance i kind a
      (.release entry (.ok .blocked))
  | .release _ result =>
    ({ m with lock := none } : Core).advance i kind a
      (match kind with | .typed => .closeWindow result | .async => .leave result)
  | .closeWindow result =>
    ({ m with preempt := m.preempt.exitIpcWindow } : Core).advance i kind a (.leave result)
  | .leave result =>
    ({ m with preempt := m.preempt.exitCritical } : Core).goto i (afterRegion kind a result)

def perform (m : Core) (i : Fin maxTasks) (op : LockedOp) : Core :=
  match op with
  | .identify next =>
    m.goto i (.releasing (if m.sched.currentTaskId.isNone then .user else next))
  | .clearBuffer =>
    ({ m with sched := m.sched.modify i (fun sender =>
        { sender with ipcBuffer := none }) } : Core).goto i (.releasing .user)
  | .checkBuffer a =>
    match m.sched.getTask i with
    | none => m.goto i (.releasing .user)
    | some t => m.goto i (.releasing (if t.ipcBuffer.isNone then .user else .send .typed a))
  | .receive block =>
    match m.sched.receiveAttempt i with
    | (sched, some _) => ({ m with sched := sched } : Core).goto i (.releasing .user)
    | (sched, none) =>
      if block then
        ({ m with sched := sched.modify i (fun receiver =>
            { receiver with state := .blockedOnReceive }) } : Core).goto i (.releasing .receiveWait)
      else ({ m with sched := sched } : Core).goto i (.releasing .user)
  | .revoke task capIdx =>
    ({ m with sched := m.sched.modify task (fun t =>
        { t with capTable := (t.capTable.kernelRevoke capIdx).2 }) } : Core).goto i
      (.releasing .user)

def proceed (m : Core) (i : Fin maxTasks) (sp : StackPointer) : Option Core :=
  match m.control i with
  | .user | .dead => none
  | .send kind a phase => some (m.proceedSend i kind a phase)
  | .acquire op =>
    some (if m.lock.isSome then m else ({ m with lock := some i } : Core).goto i (.holding op))
  | .holding op => some (m.perform i op)
  | .releasing next => some (({ m with lock := none } : Core).goto i next.control)
  | .sendWait a => some (m.yieldCpu i (.acquire (.checkBuffer a)) sp)
  | .receiveWait => some (m.yieldCpu i (.acquire (.receive true)) sp)

def enterSend (m : Core) (i : Fin maxTasks) (kind : SendKind) (capIdx : Nat)
    (tag version : UInt16) (payload : List UInt8) : Core :=
  match checkSend m.calls capIdx tag version payload with
  | .error _ => { m with calls := m.calls + 1 }
  | .ok a => ({ m with calls := m.calls + 1 } : Core).goto i (.acquire (.identify (.send kind a)))

/-- What task `i`, which is running its own code, does next. A task leaves only
regions that it opened. -/
def enter (m : Core) (i : Fin maxTasks) : CoreAction → Option Core
  | .sendTyped capIdx tag version payload => some (m.enterSend i .typed capIdx tag version payload)
  | .sendAsync capIdx tag version payload => some (m.enterSend i .async capIdx tag version payload)
  | .receiveTyped => some (m.goto i (.acquire (.identify (.receive true))))
  | .receiveAsync => some (m.goto i (.acquire (.identify (.receive false))))
  | .revoke task capIdx => some (m.goto i (.acquire (.revoke task capIdx)))
  | .enterCritical =>
    some { m with
      preempt := m.preempt.enterCritical
      depth := Function.update m.depth i (m.depth i + 1) }
  | .exitCritical =>
    if m.depth i = 0 then none
    else some { m with
      preempt := m.preempt.exitCritical
      depth := Function.update m.depth i (m.depth i - 1) }
  | .enterIpcWindow => some { m with preempt := m.preempt.enterIpcWindow }
  | .exitIpcWindow => some { m with preempt := m.preempt.exitIpcWindow }
  | .setArmed on => some { m with preempt := m.preempt.setArmed on }
  | .armAdversary task slot => some { m with preempt := m.preempt.armAdversary task slot }
  | .disarmAdversary => some { m with preempt := m.preempt.disarmAdversary }
  | .yield sp => some (m.yieldCpu i .user sp)
  | .terminate =>
    if m.lock.isSome then some m
    else
      let decision := m.sched.terminateCurrentTask
      some { m.goto i .dead with
        sched := decision.1
        cpu := match decision.2 with | some sw => .task sw.next | none => .halted }
  | .proceed _ | .tick _ => none

/-- One step of the core; `none` when the action is not enabled. -/
def step (m : Core) (act : CoreAction) : Option Core :=
  match m.cpu, act with
  | .halted, _ => none
  | _, .tick sp => some (m.timerIsr sp)
  | .boot, .yield sp =>
    some (if m.lock.isSome then m else m.switchTo m.sched.yieldCpu sp)
  | .boot, _ => none
  | .task i, .proceed sp => m.proceed i sp
  | .task i, act =>
    match m.control i with
    | .user => m.enter i act
    | _ => none

end Core

end Runix
