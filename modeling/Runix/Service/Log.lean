import Runix.Lib.Journal
import Runix.Service.Reply

namespace Runix

structure LogEntry where
  tick : UInt64
  producer : TaskId
  kind : UInt8
  msg : Vector UInt8 64
  len : Nat

def LogEntry.new : LogEntry := ⟨0, 0, 0, Vector.replicate 64 0, 0⟩

def logCapacity : Nat := 128

instance : NeZero logCapacity := ⟨by decide⟩

structure LogRingBuffer where
  buffer : Fin logCapacity → LogEntry
  writePos : Nat

namespace LogRingBuffer

def new : LogRingBuffer := ⟨fun _ => LogEntry.new, 0⟩

def push (log : LogRingBuffer) (entry : LogEntry) : Option LogRingBuffer :=
  (addU64 log.writePos 1).map (fun writePos =>
    ⟨Function.update log.buffer (Fin.ofNat logCapacity log.writePos) entry, writePos⟩)

def oldestValid (log : LogRingBuffer) : Nat :=
  if log.writePos > logCapacity then log.writePos - logCapacity else 0

def find (log : LogRingBuffer) (kind : UInt8) (start : Nat) : Option (Nat × LogEntry) :=
  Lib.scan log.buffer (fun entry => entry.kind == kind) start log.writePos

end LogRingBuffer

structure LogState where
  log : LogRingBuffer
  cursors : Fin maxTasks → Nat

def LogState.new : LogState := ⟨LogRingBuffer.new, fun _ => 0⟩

def publishedEntry (ticks : UInt64) (msg : Message) : Option LogEntry := do
  let len := min (msg.len - 1) 64
  let bytes ← Lib.slice msg.payload 1 (1 + len)
  let buffer ← Lib.copySlice LogEntry.new.msg 0 len bytes
  some ⟨ticks, msg.sender, msg.byte 0, buffer, len⟩

def entryReply (entry : LogEntry) : Option (Vector UInt8 128) := do
  let reply ← Lib.copySlice (statusReply 0) 1 9 (Lib.leBytes 8 entry.tick.toNat)
  let reply ← Lib.copySlice reply 9 17 (Lib.leBytes 8 entry.producer)
  let reply ← Lib.store reply 17 entry.kind
  let reply ← Lib.copySlice reply 18 26 (Lib.leBytes 8 entry.len)
  Lib.copySlice reply 26 90 entry.msg.toList

namespace LogState

def publish (state : LogState) (ticks : UInt64) (msg : Message) : Option (Answer LogState) := do
  let entry ← publishedEntry ticks msg
  let log ← state.log.push entry
  some (.status { state with log := log } 0)

def start (state : LogState) (cursor : Nat) : Nat :=
  if cursor < state.log.oldestValid then state.log.oldestValid else cursor

def read (state : LogState) (sender : TaskId) (kind : UInt8) : Option (Answer LogState) := do
  let cursor ← Lib.index state.cursors sender
  match state.log.find kind (state.start cursor) with
  | some (idx, entry) =>
    let next ← addU64 idx 1
    let cursors ← Lib.assign state.cursors sender next
    let reply ← entryReply entry
    some ⟨{ state with cursors := cursors }, reply, 90⟩
  | none =>
    -- nothing new of this kind: the reader moves to the end
    let cursors ← Lib.assign state.cursors sender state.log.writePos
    some (.status { state with cursors := cursors } 2)

end LogState

/-- The body of `log_service_main` up to its reply. -/
def logService (s : Scheduler) (ticks : UInt64) (state : LogState) (msg : Message) :
    Option (Answer LogState) :=
  match msg.tag with
  | .logPublish =>
    if msg.len < 1 then some (.status state 2)
    else if (msg.byte 0).toNat ≥ 16 then some (.status state 3)
    else if !s.checkLogSenderCap msg.sender (msg.byte 0) true then some (.status state 1)
    else state.publish ticks msg
  | .logRead =>
    if msg.len < 1 then some (.status state 3)
    else if (msg.byte 0).toNat ≥ 16 then some (.status state 3)
    else if !s.checkLogSenderCap msg.sender (msg.byte 0) false then some (.status state 1)
    else state.read msg.sender (msg.byte 0)
  | _ => some (.status state 3)

def logServiceMain (s : Scheduler) (ticks : UInt64) (state : LogState) (call : Nat)
    (msg : Message) : Option (Served LogState) :=
  (logService s ticks state msg).bind (s.answer .log call msg.sender)

structure LogRecord where
  tick : Nat
  producer : Nat
  kind : UInt8
  bytes : List UInt8

def decodeLogReply (payload : Vector UInt8 128) : Option LogRecord := do
  let tick ← Lib.slice payload 1 9
  let producer ← Lib.slice payload 9 17
  let len ← Lib.slice payload 18 26
  let bytes ← Lib.slice payload 26 (26 + Lib.ofLeBytes len)
  some ⟨Lib.ofLeBytes tick, Lib.ofLeBytes producer, (payload[17]?).getD 0, bytes⟩

end Runix
