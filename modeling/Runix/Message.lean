import Runix.Capability
import Runix.Lib.Ring

namespace Runix

inductive IpcTag where
  | raw | log | sensor | ping | kvGet | kvSet | logPublish | logRead | logAck
  | fsOp | fsReply | devOp | devReply | syncOp | syncReply
  deriving DecidableEq

def IpcTag.fromU16 (v : UInt16) : Option IpcTag :=
  match v.toNat with
  | 0 => some .raw
  | 1 => some .log
  | 2 => some .sensor
  | 3 => some .ping
  | 4 => some .kvGet
  | 5 => some .kvSet
  | 6 => some .logPublish
  | 7 => some .logRead
  | 8 => some .logAck
  | 9 => some .fsOp
  | 10 => some .fsReply
  | 11 => some .devOp
  | 12 => some .devReply
  | 13 => some .syncOp
  | 14 => some .syncReply
  | _ => none

/-- The message envelope. The last two fields are ghosts, which no kernel
function reads: the number of the send call that built the message and the
capability slot the call named. -/
structure Message where
  sender : TaskId
  tag : IpcTag
  version : UInt16
  payload : Vector UInt8 128
  len : Nat
  call : Nat
  via : Nat
  deriving DecidableEq

/-- `msg.payload[i]`, for an `i` below 128. -/
def Message.byte (msg : Message) (i : Nat) : UInt8 := (msg.payload[i]?).getD 0

inductive IpcError where
  | noCapability | targetGone | payloadTooLarge | invalidTag | badVersion
  | noContext | queueFull | noMessage
  deriving DecidableEq

def msgQueueCapacity : Nat := 8

abbrev MessageQueue := Lib.Ring Message msgQueueCapacity

def MessageQueue.new : MessageQueue := Lib.Ring.empty (by decide)

/-- `[0u8; 128]` with the payload copied over its first bytes. -/
def padPayload (payload : List UInt8) : Vector UInt8 128 :=
  Vector.ofFn (fun i => payload.getD i 0)

end Runix
