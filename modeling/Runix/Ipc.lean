import Runix.Scheduler

namespace Runix

/-- The locals of a send call once its inputs have been checked, with the
ghost number of the call. -/
structure SendArgs where
  capIdx : Nat
  tag : IpcTag
  version : UInt16
  payload : Vector UInt8 128
  len : Nat
  call : Nat

def SendArgs.message (a : SendArgs) (sender : TaskId) : Message :=
  { sender := sender, tag := a.tag, version := a.version, payload := a.payload, len := a.len
    call := a.call, via := a.capIdx }

/-- The input checks shared by `sys_send_typed` and `sys_send_async`. -/
def checkSend (call capIdx : Nat) (tag version : UInt16) (payload : List UInt8) :
    Except IpcError SendArgs :=
  if payload.length > 128 then .error .payloadTooLarge
  else
    match IpcTag.fromU16 tag with
    | none => .error .invalidTag
    | some tag =>
      if version = 0xffff then .error .badVersion
      else .ok ⟨capIdx, tag, version, padPayload payload, payload.length, call⟩

/-- The part of a send before its region: input checks, then the identity of
the caller. -/
def beginSend (s : Scheduler) (call capIdx : Nat) (tag version : UInt16)
    (payload : List UInt8) : Except IpcError SendArgs :=
  match checkSend call capIdx tag version payload with
  | .error e => .error e
  | .ok a =>
    match s.currentTaskId with
    | none => .error .noContext
    | some _ => .ok a

/-- The target of a channel capability. The rights of the capability are not
looked at. -/
def CapTable.channel (t : CapTable) (capIdx : Nat) : Option TaskId :=
  match t.get capIdx with
  | some cap =>
    match cap.resource with
    | .ipcChannel targetTask => some targetTask
    | _ => none
  | none => none

namespace Scheduler

def resolveTargetLocked (s : Scheduler) (current : TaskId) (capIdx : Nat) :
    Except IpcError TaskId :=
  match s.getTask current with
  | none => .error .noContext
  | some task =>
    match task.capTable.channel capIdx with
    | none => .error .noCapability
    | some targetTask => .ok targetTask

end Scheduler

inductive SendStep where
  | delivered (target : TaskId)
  | gone
  | blocked
  deriving DecidableEq

namespace Scheduler

/-- `sys_send_typed`, the region: validates the capability and uses it. -/
def sendRegion (s : Scheduler) (current : TaskId) (a : SendArgs) :
    Scheduler × Except IpcError SendStep :=
  match s.resolveTargetLocked current a.capIdx with
  | .error e => (s.modify current (fun sender => { sender with ipcBuffer := none }), .error e)
  | .ok targetTask =>
    match (s.getTask targetTask).map Task.state with
    | none | some .terminated => (s, .ok .gone)
    | some .blockedOnReceive =>
      (s.modify targetTask (fun target =>
        { target with ipcBuffer := some (a.message current), state := .ready }),
        .ok (.delivered targetTask))
    | some _ =>
      (s.modify current (fun sender =>
        { sender with
          state := .blockedOnSend targetTask, ipcBuffer := some (a.message current) }),
        .ok .blocked)

/-- `sys_send_async`, the region. A success carries the target. -/
def sendAsyncRegion (s : Scheduler) (current : TaskId) (a : SendArgs) :
    Scheduler × Except IpcError TaskId :=
  match s.resolveTargetLocked current a.capIdx with
  | .error e => (s, .error e)
  | .ok targetTask =>
    match s.getTask targetTask with
    | none => (s, .error .targetGone)
    | some target =>
      if target.state = .terminated then (s, .error .targetGone)
      else
        match target.msgQueue.enqueue (a.message current) with
        | some queue =>
          (s.modify targetTask (fun target =>
            { target with
              msgQueue := queue
              state := if target.state = .blockedOnReceive then .ready else target.state }),
            .ok targetTask)
        | none => (s, .error .queueFull)

def blockedSender (s : Scheduler) (current : TaskId) : Option (Fin maxTasks) :=
  (List.finRange maxTasks).find? (fun i =>
    match s.tasks i with
    | some t => t.state = .blockedOnSend current
    | none => false)

inductive Source where
  | queue
  | buffer
  | sender (id : TaskId)

/-- `msg.ok_or(IpcError::TargetGone)` -/
def okOrTargetGone : Option Message → Except IpcError Message
  | some msg => .ok msg
  | none => .error .targetGone

/-- Step 3 of the receive functions: takes the parked message of a blocked
sender and wakes it. -/
def rendezvous (s : Scheduler) (current : TaskId) :
    Scheduler × Option (Source × Except IpcError Message) :=
  match s.blockedSender current with
  | none => (s, none)
  | some i =>
    match s.tasks i with
    | none => (s, none)
    | some t =>
      ((s.modify t.id (fun sender => { sender with ipcBuffer := none, state := .ready })).modify
        current (fun receiver => { receiver with state := .running }),
        some (.sender t.id, okOrTargetGone ((s.getTask t.id).bind Task.ipcBuffer)))

/-- Steps 1 to 3 of `sys_receive_typed` and `sys_receive_async`: the queue, the
buffer, the blocked senders. `none` when there is nothing to receive. -/
def receiveAttempt (s : Scheduler) (current : TaskId) :
    Scheduler × Option (Source × Except IpcError Message) :=
  match s.getTask current with
  | some receiver =>
    match receiver.msgQueue.dequeue with
    | (some msg, queue) =>
      (s.modify current (fun receiver => { receiver with msgQueue := queue }),
        some (.queue, .ok msg))
    | (none, _) =>
      match receiver.ipcBuffer with
      | some msg =>
        (s.modify current (fun receiver => { receiver with ipcBuffer := none }),
          some (.buffer, .ok msg))
      | none => s.rendezvous current
  | none => s.rendezvous current

end Scheduler

end Runix
