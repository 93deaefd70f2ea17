import Mathlib.Data.List.DropRight
import Runix.Console
import Runix.Service.Round

namespace Runix

/-- `core::str::from_utf8(bytes).unwrap_or("")` -/
def fromUtf8 (bytes : List UInt8) : String := (String.fromUTF8? ⟨bytes.toArray⟩).getD ""

def firstWord (line : List UInt8) : List UInt8 := line.takeWhile (fun b => b ≠ 32)

def afterWord (line : List UInt8) : List UInt8 :=
  (line.dropWhile (fun b => b ≠ 32)).dropWhile (fun b => b = 32)

structure Tokens where
  tok0 : List UInt8
  tok1 : List UInt8
  tok2 : List UInt8
  tok3 : List UInt8

/-- Three words and the rest of the line without the spaces at its end. A token
that `tokenize` leaves out is empty, as `dispatch` reads it. -/
def tokenize (line : List UInt8) : Tokens :=
  let rest := line.dropWhile (fun b => b = 32)
  ⟨firstWord rest, firstWord (afterWord rest), firstWord (afterWord (afterWord rest)),
    (afterWord (afterWord (afterWord rest))).rdropWhile (fun b => b = 32)⟩

inductive ClientCommand where
  | fsMkdir (tok2 : List UInt8)
  | fsWrite (tok2 tok3 : List UInt8)
  | fsRead (tok2 : List UInt8)
  | fsDelete (tok2 : List UInt8)
  | fsStat (tok2 : List UInt8)
  | kvSet (tok2 tok3 : List UInt8)
  | kvGet (tok2 : List UInt8)
  | logPublish (tok2 tok3 : List UInt8)
  | logRead (tok2 : List UInt8)

structure Request where
  svc : Service
  tag : IpcTag
  payload : List UInt8

def clip (n : Nat) (bytes : List UInt8) : List UInt8 :=
  bytes.take n ++ List.replicate (n - bytes.length) 0

def fsPayload (op mount : UInt8) (path data : List UInt8) : List UInt8 :=
  [op, mount, UInt8.ofNat (min path.length 30)] ++ clip 30 path ++
    [UInt8.ofNat (min data.length 94)] ++ clip 94 data

def kvSetPayload (slot : UInt8) (key value : List UInt8) : List UInt8 :=
  [slot] ++ clip 16 key ++ clip 64 value

def logPublishPayload (kind : UInt8) (message : List UInt8) : List UInt8 := kind :: message.take 64

def replyByte (reply : Vector UInt8 128) (i : Nat) : UInt8 := (reply[i]?).getD 0

namespace ClientCommand

/-- The cases of `dispatch` for these commands: `fs`, `kv` and `log`. -/
def ofLine (line : List UInt8) : Option ClientCommand :=
  let t := tokenize line
  if t.tok0 = [102, 115] then
    -- mkdir, write, read, delete, stat
    if t.tok1 = [109, 107, 100, 105, 114] then some (.fsMkdir t.tok2)
    else if t.tok1 = [119, 114, 105, 116, 101] then some (.fsWrite t.tok2 t.tok3)
    else if t.tok1 = [114, 101, 97, 100] then some (.fsRead t.tok2)
    else if t.tok1 = [100, 101, 108, 101, 116, 101] then some (.fsDelete t.tok2)
    else if t.tok1 = [115, 116, 97, 116] then some (.fsStat t.tok2)
    else none
  else if t.tok0 = [107, 118] then
    -- set, get
    if t.tok1 = [115, 101, 116] then some (.kvSet t.tok2 t.tok3)
    else if t.tok1 = [103, 101, 116] then some (.kvGet t.tok2)
    else none
  else if t.tok0 = [108, 111, 103] then
    -- publish, read
    if t.tok1 = [112, 117, 98, 108, 105, 115, 104] then some (.logPublish t.tok2 t.tok3)
    else if t.tok1 = [114, 101, 97, 100] then some (.logRead t.tok2)
    else none
  else none

def kvSlot (tok2 : List UInt8) : Except Reply Nat :=
  match parseUsize tok2 with
  | none => .error (.badNumber tok2)
  | some slot => if slot ≥ 32 then .error (.fail s!"slot index {slot} out of range (0-31)") else .ok slot

def logKind (tok2 : List UInt8) : Except Reply Nat :=
  match parseUsize tok2 with
  | none => .error (.badNumber tok2)
  | some kind => if kind ≥ 16 then .error (.fail s!"kind {kind} out of range (0-15)") else .ok kind

def kvSetUsage : Reply := .fail "Usage: kv set <slot> <key> <value>"

/-- What a command does before it looks for its channel: it refuses its operands or
encodes them. -/
def request : ClientCommand → Except Reply Request
  | .fsMkdir tok2 =>
    if tok2.isEmpty then .error (.fail "Usage: fs mkdir <path>")
    else .ok ⟨.fs, .fsOp, fsPayload 0 0 tok2 []⟩
  | .fsWrite tok2 tok3 =>
    if tok2.isEmpty || tok3.isEmpty then .error (.fail "Usage: fs write <path> <text>")
    else .ok ⟨.fs, .fsOp, fsPayload 1 0 tok2 tok3⟩
  | .fsRead tok2 =>
    if tok2.isEmpty then .error (.fail "Usage: fs read <path>")
    else .ok ⟨.fs, .fsOp, fsPayload 2 0 tok2 []⟩
  | .fsDelete tok2 =>
    if tok2.isEmpty then .error (.fail "Usage: fs delete <path>")
    else .ok ⟨.fs, .fsOp, fsPayload 4 0 tok2 []⟩
  | .fsStat tok2 =>
    if tok2.isEmpty then .error (.fail "Usage: fs stat <path>")
    else .ok ⟨.fs, .fsOp, fsPayload 5 0 tok2 []⟩
  | .kvSet tok2 tok3 => do
    let slot ← kvSlot tok2
    if (firstWord tok3).length ≥ tok3.length then .error kvSetUsage
    else if (afterWord tok3).isEmpty then .error kvSetUsage
    else .ok ⟨.kv, .kvSet, kvSetPayload (UInt8.ofNat slot) (firstWord tok3) (afterWord tok3)⟩
  | .kvGet tok2 => do
    let slot ← kvSlot tok2
    .ok ⟨.kv, .kvGet, [UInt8.ofNat slot]⟩
  | .logPublish tok2 tok3 => do
    let kind ← logKind tok2
    if tok3.isEmpty then .error (.fail "Usage: log publish <kind> <message>")
    else .ok ⟨.log, .logPublish, logPublishPayload (UInt8.ofNat kind) tok3⟩
  | .logRead tok2 => do
    let kind ← logKind tok2
    .ok ⟨.log, .logRead, [UInt8.ofNat kind]⟩

/-- The lines the `fs` commands print for a status alone. -/
def fsReport (reply : Vector UInt8 128) (done : String) (others : Nat → Option String) : Reply :=
  match (replyByte reply 0).toNat with
  | 0 => .ok done
  | 1 => .fail "permission denied"
  | code => .fail ((others code).getD "unknown error")

def mkdirFailure : Nat → Option String
  | 3 => some "filesystem full"
  | 4 => some "already exists / bad request"
  | _ => none

def writeFailure : Nat → Option String
  | 3 => some "filesystem full"
  | 4 => some "is directory / bad request"
  | _ => none

def absentFailure : Nat → Option String
  | 2 => some "not found"
  | _ => none

/-- The lines `fs read` prints; `none` is a slice out of bounds. -/
def readReport (reply : Vector UInt8 128) : Option Reply :=
  if replyByte reply 0 = 0 then do
    let bytes ← Lib.slice reply 2 (2 + (replyByte reply 1).toNat)
    some (.ok (fromUtf8 bytes))
  else some (fsReport reply "" absentFailure)

def statReport (reply : Vector UInt8 128) : Option Reply :=
  if replyByte reply 0 = 0 then do
    let kind := if replyByte reply 1 ≠ 0 then "Directory" else "File"
    let size := Lib.ofLeBytes (← Lib.slice reply 2 10)
    let mount := (replyByte reply 10).toNat
    some (.ok s!"Type: {kind}, Size: {size} bytes, Mount: {mount}")
  else some (fsReport reply "" absentFailure)

def kvReport (reply : Vector UInt8 128) (slot : Nat) (done : Option String) : Option Reply :=
  match (replyByte reply 0).toNat with
  | 0 => done.map Reply.ok
  | 1 => some (.fail s!"permission denied (no capability for slot {slot})")
  | _ => some (.fail s!"invalid slot {slot}")

def setLine (slot : Nat) (key value : List UInt8) : String :=
  s!"set slot {slot}: key={fromUtf8 key} value={fromUtf8 value}"

def getLine (slot : Nat) (key value : List UInt8) : String :=
  s!"get slot {slot}: key={fromUtf8 key} value={fromUtf8 value}"

/-- Both fields of a reply to `kv get` end before their first zero. -/
def gotLine (reply : Vector UInt8 128) (slot : Nat) : Option String := do
  let key ← Lib.slice reply 1 17
  let value ← Lib.slice reply 17 81
  some (getLine slot (key.takeWhile (fun b => b ≠ 0)) (value.takeWhile (fun b => b ≠ 0)))

def publishLine (kind : Nat) (message : List UInt8) : String :=
  s!"published log kind {kind}: {fromUtf8 message}"

def publishReport (reply : Vector UInt8 128) (kind : Nat) (message : List UInt8) : Reply :=
  match (replyByte reply 0).toNat with
  | 0 => .ok (publishLine kind message)
  | 1 => .fail s!"permission denied (no capability for log kind {kind})"
  | _ => .fail s!"invalid kind {kind}"

def emptyLine (kind : Nat) : String := s!"no new log entries for kind {kind}"

def entryLine (kind : Nat) (entry : LogRecord) : String :=
  s!"[{entry.tick}] producer={entry.producer} kind={kind} message={fromUtf8 entry.bytes}"

def logReadReport (reply : Vector UInt8 128) (kind : Nat) : Option Reply :=
  match (replyByte reply 0).toNat with
  | 0 => (decodeLogReply reply).map (fun entry => .ok (entryLine kind entry))
  | 1 => some (.fail s!"permission denied (no capability for log kind {kind})")
  | 2 => some (.info (emptyLine kind))
  | _ => some (.fail s!"invalid kind {kind}")

/-- What a command prints when the reply is there; `none` is a panic. -/
def report (cmd : ClientCommand) (reply : Vector UInt8 128) : Option Reply :=
  match cmd with
  | .fsMkdir _ => some (fsReport reply "directory created" mkdirFailure)
  | .fsWrite _ _ => some (fsReport reply "file written" writeFailure)
  | .fsRead _ => readReport reply
  | .fsDelete _ => some (fsReport reply "deleted" absentFailure)
  | .fsStat _ => statReport reply
  | .kvSet tok2 tok3 =>
    match kvSlot tok2 with
    | .error refusal => some refusal
    | .ok slot => kvReport reply slot (some (setLine slot (firstWord tok3) (afterWord tok3)))
  | .kvGet tok2 =>
    match kvSlot tok2 with
    | .error refusal => some refusal
    | .ok slot => kvReport reply slot (gotLine reply slot)
  | .logPublish tok2 tok3 =>
    match logKind tok2 with
    | .error refusal => some refusal
    | .ok kind => some (publishReport reply kind tok3)
  | .logRead tok2 =>
    match logKind tok2 with
    | .error refusal => some refusal
    | .ok kind => logReadReport reply kind

end ClientCommand

def Resource.isChannel (target : TaskId) : Resource → Bool
  | .ipcChannel targetTask => targetTask = target
  | _ => false

theorem shell_lt : 64 < maxTasks := by decide

def shellTask : Fin maxTasks := ⟨64, shell_lt⟩

namespace Scheduler

/-- The console's search of its own table for a channel to a service. The outer
`none` is a failed `unwrap` of task 64. -/
def shellChannel (s : Scheduler) (svc : Service) : Option (Option (Fin maxCaps)) :=
  (s.tableOf 64).map (fun t => t.firstSlot (Resource.isChannel svc.task))

end Scheduler

def Service.noChannel : Service → String
  | .kv | .log => "no capability"
  | .fs | .device | .sync => "IPC error: NoCapability"

def Request.message (req : Request) (call : Nat) (slot : Fin maxCaps) : Message :=
  SendArgs.message ⟨slot, req.tag, 1, padPayload req.payload, req.payload.length, call⟩ 64

/-- A whole command: encode the operands, find the channel, let the service serve
the message, and print what its reply says. -/
def Stores.command (st : Stores) (s : Scheduler) (ticks : UInt64) (call : Nat)
    (cmd : ClientCommand) : Option (Stores × Reply) :=
  match cmd.request with
  | .error refusal => some (st, refusal)
  | .ok req => do
    match ← s.shellChannel req.svc with
    | none => some (st, .fail req.svc.noChannel)
    | some slot => do
      let (st, replies) ← st.round req.svc s ticks (call + 1) (req.message call slot)
      let reply ← replies.head?
      let out ← cmd.report (padPayload reply)
      some (st, out)

end Runix
