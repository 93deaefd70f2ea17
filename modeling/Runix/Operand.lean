import Runix.Client

namespace Runix

/-- The console's commands whose operand is the number of an object: of a
synchronisation object, a device or a kind of the log. -/
inductive NumberCommand where
  | syncCreate | syncAcquire | syncRelease | devRead | devWrite | logRevoke
  deriving DecidableEq

structure Console where
  system : System
  stores : Stores

inductive Outcome where
  | printed (reply : Reply)
  | waiting

inductive Answered where
  | noChannel
  | waiting
  | reply (payload : Vector UInt8 128)

def Answered.last (replies : List (List UInt8)) : Answered :=
  match replies.getLast? with
  | none => .waiting
  | some bytes => .reply (padPayload bytes)

def devPayload (op devId : UInt8) (data : List UInt8) : List UInt8 :=
  [op, devId, UInt8.ofNat (min data.length 120)] ++ clip 125 (data.take 120)

def syncPayload (op objId isMutex count : UInt8) : List UInt8 :=
  [op, objId, isMutex, count] ++ List.replicate 124 0

/-- The flag and the count that `sync create` reads from its last token: a mutex has
count 1, a semaphore the number behind its first word. The number is cut to a byte. -/
def createOperands (tok3 : List UInt8) : Except Reply (UInt8 × UInt8) :=
  if List.isPrefixOf [109, 117, 116, 101, 120] tok3 then .ok (1, 1)
  else if (afterWord tok3).isEmpty then .ok (0, 1)
  else
    match parseUsize (afterWord tok3) with
    | none => .error (.badNumber (afterWord tok3))
    | some count => .ok (0, UInt8.ofNat count)

def Resource.isSync (id : UInt8) : Resource → Bool
  | .syncObj capId => capId = id
  | _ => false

/-- The capability that `sync create` installs. -/
def syncCap (id : UInt8) : Capability := System.rootCap (.syncObj id) true

namespace Console

def sched (c : Console) : Scheduler := c.system.kernel.sched

def printed (c : Console) (reply : Reply) : Option (Console × Outcome) := some (c, .printed reply)

/-- `send_dev_msg` and `send_sync_msg`: starts the service if need be, finds the channel,
and lets the service serve the message. `none` is a panic. -/
def ask (c : Console) (ticks : UInt64) (call : Nat) (req : Request) : Option (Console × Answered) :=
  let c := { c with system := c.system.ensureService req.svc }
  (c.sched.shellChannel req.svc).bind fun channel =>
    match channel with
    | none => some (c, .noChannel)
    | some slot =>
      (c.stores.round req.svc c.sched ticks (call + 1) (req.message call slot)).map (fun served =>
        ({ c with stores := served.1 }, .last served.2))

def report (asked : Console × Answered) (svc : Service)
    (lines : Vector UInt8 128 → Option (Console × Outcome)) : Option (Console × Outcome) :=
  match asked.2 with
  | .noChannel => asked.1.printed (.fail svc.noChannel)
  | .waiting => some (asked.1, .waiting)
  | .reply payload => lines payload

/-- The end of `sync create`: the shell gets a capability for the new object. -/
def created (c : Console) (id : UInt8) (payload : Vector UInt8 128) : Option (Console × Outcome) :=
  if replyByte payload 0 = 0 then
    (c.system.insertCap 64 (syncCap id)).map (fun system =>
      ({ c with system := system },
        .printed (.ok "sync object created and capability installed")))
  else c.printed (.fail "failed to create sync object")

def syncCreate (c : Console) (ticks : UInt64) (call : Nat) (tok2 tok3 : List UInt8) :
    Option (Console × Outcome) :=
  match parseUsize tok2 with
  | none => c.printed (.badNumber tok2)
  | some v =>
    let id := UInt8.ofNat v
    if id ≥ 8 then c.printed (.fail "object id must be < 8")
    else
      match createOperands tok3 with
      | .error refusal => c.printed refusal
      | .ok (isMutex, initialCount) =>
        (c.ask ticks call ⟨.sync, .syncOp, syncPayload 0 id isMutex initialCount⟩).bind fun asked =>
          report asked .sync (asked.1.created id)

/-- The common part of `sync acquire` and `sync release`. -/
def syncUse (c : Console) (ticks : UInt64) (call : Nat) (tok2 : List UInt8) (op : UInt8)
    (done failed : String) : Option (Console × Outcome) :=
  match parseUsize tok2 with
  | none => c.printed (.badNumber tok2)
  | some v =>
    let id := UInt8.ofNat v
    c.system.kernel.getShellCaps.bind fun slots =>
      if (slots.firstSlot (Resource.isSync id)).isNone then
        c.printed (.fail s!"no capability for sync object {id}")
      else
        (c.ask ticks call ⟨.sync, .syncOp, syncPayload op id 0 0⟩).bind fun asked =>
          report asked .sync (fun payload =>
            let status := replyByte payload 0
            asked.1.printed (if status = 0 then .ok done else .fail s!"{failed} failed: status={status}"))

def syncAcquire (c : Console) (ticks : UInt64) (call : Nat) (tok2 : List UInt8) :
    Option (Console × Outcome) :=
  c.syncUse ticks call tok2 1 "acquired" "acquire"

def syncRelease (c : Console) (ticks : UInt64) (call : Nat) (tok2 : List UInt8) :
    Option (Console × Outcome) :=
  c.syncUse ticks call tok2 2 "released" "release"

/-- The lines of `dev read`; `none` is a slice out of bounds. -/
def devReadReport (payload : Vector UInt8 128) : Option Reply :=
  match (replyByte payload 0).toNat with
  | 0 =>
    let len := (replyByte payload 1).toNat
    (Lib.slice payload 2 (2 + len)).map (fun bytes => .ok s!"read ({len} bytes): {fromUtf8 bytes}")
  | 1 => some (.fail "permission denied")
  | 2 => some (.fail "no data available")
  | 3 => some (.fail "invalid device")
  | _ => some (.fail "unknown error")

def devWriteReport (payload : Vector UInt8 128) : Reply :=
  match (replyByte payload 0).toNat with
  | 0 => .ok "write complete"
  | 1 => .fail "permission denied"
  | 3 => .fail "invalid operation / device"
  | _ => .fail "unknown error"

def devRead (c : Console) (ticks : UInt64) (call : Nat) (tok2 : List UInt8) :
    Option (Console × Outcome) :=
  match parseUsize tok2 with
  | none => c.printed (.badNumber tok2)
  | some v =>
    (c.ask ticks call ⟨.device, .devOp, devPayload 0 (UInt8.ofNat v) []⟩).bind fun asked =>
      report asked .device (fun payload => (devReadReport payload).bind asked.1.printed)

def devWrite (c : Console) (ticks : UInt64) (call : Nat) (tok2 tok3 : List UInt8) :
    Option (Console × Outcome) :=
  match parseUsize tok2 with
  | none => c.printed (.badNumber tok2)
  | some v =>
    if tok3.isEmpty then c.printed (.fail "Usage: dev write <id> <text>")
    else
      (c.ask ticks call ⟨.device, .devOp, devPayload 1 (UInt8.ofNat v) tok3⟩).bind fun asked =>
        report asked .device (fun payload => asked.1.printed (devWriteReport payload))

def logRevoke (c : Console) (tok2 : List UInt8) : Option (Console × Outcome) :=
  (c.system.kernel.logRevoke tok2).map (fun out =>
    ({ c with system := { c.system with kernel := out.1 } }, .printed out.2))

/-- The branches of `dispatch` for these commands; `none` is a panic. -/
def run (c : Console) (ticks : UInt64) (call : Nat) (cmd : NumberCommand) (tok2 tok3 : List UInt8) :
    Option (Console × Outcome) :=
  match cmd with
  | .syncCreate => c.syncCreate ticks call tok2 tok3
  | .syncAcquire => c.syncAcquire ticks call tok2
  | .syncRelease => c.syncRelease ticks call tok2
  | .devRead => c.devRead ticks call tok2
  | .devWrite => c.devWrite ticks call tok2 tok3
  | .logRevoke => c.logRevoke tok2

end Console

end Runix
