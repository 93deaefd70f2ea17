import Runix.Syscall
import Runix.Ipc

namespace Runix

inductive CallResult (α : Type) where
  | returned (result : α)
  | waiting

def CallResult.map {α β : Type} (f : α → β) : CallResult α → CallResult β
  | .returned result => .returned (f result)
  | .waiting => .waiting

namespace Scheduler

/-- One round of the loop of `sys_send_typed`, to its return or to the yield
of a parked sender. -/
def sendRound (s : Scheduler) (current : TaskId) (a : SendArgs) :
    Scheduler × CallResult (Except IpcError Unit) :=
  match s.sendRegion current a with
  | (s, .error e) => (s, .returned (.error e))
  | (s, .ok (.delivered _)) => (s, .returned (.ok ()))
  | (s, .ok .gone) =>
    (s.modify current (fun sender => { sender with ipcBuffer := none }),
      .returned (.error .targetGone))
  | (s, .ok .blocked) => (s, .waiting)

/-- `sys_send_typed` by the current task, run without interruption. -/
def sysSendTyped (s : Scheduler) (call capIdx : Nat) (tag version : UInt16)
    (payload : List UInt8) : Scheduler × CallResult (Except IpcError Unit) :=
  match checkSend call capIdx tag version payload with
  | .error e => (s, .returned (.error e))
  | .ok a =>
    match s.currentTaskId with
    | none => (s, .returned (.error .noContext))
    | some current => s.sendRound current a

/-- `sys_send`: untyped, tag `Raw` and version 0. -/
def sysSend (s : Scheduler) (call capIdx : Nat) (payload : List UInt8) :
    Scheduler × CallResult (Except Unit Unit) :=
  let (s, result) := s.sysSendTyped call capIdx 0 0 payload
  (s, result.map (fun r => r.mapError (fun _ => ())))

def sysSendAsync (s : Scheduler) (call capIdx : Nat) (tag version : UInt16)
    (payload : List UInt8) : Scheduler × Except IpcError Unit :=
  match checkSend call capIdx tag version payload with
  | .error e => (s, .error e)
  | .ok a =>
    match s.currentTaskId with
    | none => (s, .error .noContext)
    | some current =>
      let (s, result) := s.sendAsyncRegion current a
      (s, result.map (fun _ => ()))

end Scheduler

inductive UseRequest where
  | send (payload : List UInt8)
  | serialWrite (bytes : List UInt8)
  | sendTyped (tag version : UInt16) (payload : List UInt8)
  | sendAsync (tag version : UInt16) (payload : List UInt8)

/-- `u64::MAX - 7` -/
def queueFullError : UInt64 := 0xfffffffffffffff8

namespace Kernel

def withSched (k : Kernel) (sched : Scheduler) : Kernel := { k with sched := sched }

def print (k : Kernel) (bytes : List UInt8) : Kernel :=
  { k with serial := k.serial ++ bytes.flatMap (fun b => if b = 10 then [13, 10] else [b]) }

def hasSerialCap (k : Kernel) (task : TaskId) (capIdx : Nat) : Bool :=
  match k.sched.getTask task with
  | some t =>
    match t.capTable.get capIdx with
    | some cap => cap.resource = .serial
    | none => false
  | none => false

/-- `current_has_serial_cap`. The rights of the capability are not looked at. -/
def currentHasSerialCap (k : Kernel) (capIdx : Nat) : Bool :=
  match k.sched.currentTaskId with
  | some id => k.hasSerialCap id capIdx
  | none => false

def sysSerialWrite (k : Kernel) (capIdx : Nat) (message : List UInt8) : Kernel × Except Unit Unit :=
  match k.sched.currentTaskId with
  | none => (k, .error ())
  | some id => if k.hasSerialCap id capIdx then (k.print message, .ok ()) else (k, .error ())

/-- The arms of `syscall_dispatch` for these requests, with the value they
leave in `rax`. The lines that the kernel itself logs about a rejected send are
left out. -/
def syscallUse (k : Kernel) (call capIdx : Nat) : UseRequest → Kernel × CallResult UInt64
  | .send payload =>
    let (sched, result) := k.sched.sysSend call capIdx payload
    (k.withSched sched, result.map (fun
      | .ok () => 0
      | .error () => genericError))
  | .serialWrite bytes =>
    if k.currentHasSerialCap capIdx then
      (if (ByteArray.mk bytes.toArray).validateUTF8 then k.print bytes else k, .returned 0)
    else (k, .returned genericError)
  | .sendTyped tag version payload =>
    let (sched, result) := k.sched.sysSendTyped call capIdx tag version payload
    (k.withSched sched, result.map (fun
      | .ok () => 0
      | .error _ => genericError))
  | .sendAsync tag version payload =>
    let (sched, result) := k.sched.sysSendAsync call capIdx tag version payload
    (k.withSched sched, .returned (match result with
      | .ok () => 0
      | .error .queueFull => queueFullError
      | .error _ => genericError))

end Kernel

end Runix
