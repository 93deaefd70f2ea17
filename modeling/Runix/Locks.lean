import Runix.Preempt

namespace Runix

inductive DriverLock where
  | serial1
  | redirectTarget
  | kbdBuffer
  deriving DecidableEq

inductive Instr where
  | acquire (l : DriverLock)
  | release (l : DriverLock)
  | enterCritical
  | exitCritical
  deriving DecidableEq

/-- What the tasks call in the drivers. Whether the output is redirected when a task
prints is left open. -/
inductive Routine where
  | print (redirected : Bool)
  | serialAccess
  | keyboardRead
  | setRedirect

/-- The routines as the drivers and the console run them. `_print` reads the target
of the output under its lock, and takes the port only if there is none; the port
is read and written elsewhere, the keyboard buffer read and the target set, without
a region. -/
def Routine.code : Routine → List Instr
  | .print redirected =>
    [.enterCritical, .acquire .redirectTarget, .release .redirectTarget] ++
      (if redirected then [] else [.acquire .serial1, .release .serial1]) ++ [.exitCritical]
  | .serialAccess => [.acquire .serial1, .release .serial1]
  | .keyboardRead => [.acquire .kbdBuffer, .release .kbdBuffer]
  | .setRedirect => [.acquire .redirectTarget, .release .redirectTarget]

/-- The core with the drivers' locks. `code` is the rest of the routine a task is
in; `handler` says that `keyboard_isr` runs on top of the executing task. The owners
are ghosts. -/
structure Board where
  core : Core
  owner : DriverLock → Option (Fin maxTasks)
  code : Fin maxTasks → List Instr
  handler : Bool

inductive BoardAction where
  | core (act : CoreAction)
  | call (r : Routine)
  | proceed
  | key
  | handle

/-- Where a task calls the drivers: in its own code, and under the scheduler lock,
where the kernel prints. -/
def Control.callable : Control → Bool
  | .user | .holding _ | .releasing _ => true
  | _ => false

namespace Core

/-- A tick takes the processor from the running task. -/
def preemptible (m : Core) : Bool :=
  m.preempt.armed && m.preempt.preemptCount == 0 && m.lock.isNone

def openRegion (m : Core) (i : Fin maxTasks) : Core :=
  { m with
    preempt := m.preempt.enterCritical
    depth := Function.update m.depth i (m.depth i + 1) }

def closeRegion (m : Core) (i : Fin maxTasks) : Core :=
  { m with
    preempt := m.preempt.exitCritical
    depth := Function.update m.depth i (m.depth i - 1) }

end Core

namespace Board

def boot (s : Scheduler) : Board := ⟨.boot s, fun _ => none, fun _ => [], false⟩

def setOwner (b : Board) (l : DriverLock) (o : Option (Fin maxTasks)) : Board :=
  { b with owner := Function.update b.owner l o }

def setCode (b : Board) (i : Fin maxTasks) (code : List Instr) : Board :=
  { b with code := Function.update b.code i code }

/-- One instruction of task `i`. A lock that is taken is tried again. -/
def execute (b : Board) (i : Fin maxTasks) (rest : List Instr) : Instr → Board
  | .acquire l => if (b.owner l).isSome then b else (b.setOwner l (some i)).setCode i rest
  | .release l => (b.setOwner l none).setCode i rest
  | .enterCritical => { b.setCode i rest with core := b.core.openRegion i }
  | .exitCritical => { b.setCode i rest with core := b.core.closeRegion i }

def idle (b : Board) : Bool :=
  match b.core.cpu with
  | .task i => (b.code i).isEmpty
  | _ => true

/-- One step of the board; `none` when the action is not enabled. Interrupts arrive
between any two instructions, but not while a handler runs. -/
def step (b : Board) : BoardAction → Option Board
  | .core (.tick sp) =>
    if b.handler then none else (b.core.step (.tick sp)).map (fun core => { b with core := core })
  | .core act =>
    if b.handler || !b.idle then none
    else (b.core.step act).map (fun core => { b with core := core })
  | .call r =>
    match b.core.cpu with
    | .task i =>
      if b.handler || !(b.code i).isEmpty || !(b.core.control i).callable then none
      else some (b.setCode i r.code)
    | _ => none
  | .proceed =>
    match b.core.cpu with
    | .task i =>
      match b.handler, b.code i with
      | false, instr :: rest => some (b.execute i rest instr)
      | _, _ => none
    | _ => none
  | .key =>
    if b.handler || b.core.cpu == .halted then none else some { b with handler := true }
  | .handle =>
    if b.handler then
      -- the byte is pushed and the lock given back before anything else can run
      some (if (b.owner .kbdBuffer).isSome then b else { b with handler := false })
    else none

inductive Spinlock where
  | scheduler
  | driver (l : DriverLock)

def holder (b : Board) : Spinlock → Option (Fin maxTasks)
  | .scheduler => b.core.lock
  | .driver l => b.owner l

def wants (b : Board) (i : Fin maxTasks) : Option Spinlock :=
  match b.code i with
  | .acquire l :: _ => some (.driver l)
  | _ :: _ => none
  | [] =>
    match b.core.control i with
    | .send _ _ .acquire | .acquire _ | .sendWait _ | .receiveWait => some .scheduler
    | _ => none

/-- A context spins on a lock whose holder cannot run. The handler spins above all
tasks; a task keeps the processor from the others as long as no tick can take it away, and
always from itself. -/
inductive Deadlocked (b : Board) : Prop where
  | handler (j : Fin maxTasks) (running : b.handler = true) (taken : b.owner .kbdBuffer = some j)
  | task (i j : Fin maxTasks) (l : Spinlock) (running : b.core.cpu = .task i)
      (spins : b.wants i = some l) (taken : b.holder l = some j)
      (kept : j = i ∨ b.core.preemptible = false)

end Board

end Runix
