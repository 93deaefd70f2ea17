import Runix.Service.Reply
import Runix.Lib.Circular

namespace Runix

/-- `SerialPort::write_string`: a carriage return goes before each newline. -/
def writeString (bytes : List UInt8) : List UInt8 :=
  bytes.flatMap (fun b => if b = 10 then [13, b] else [b])

/-- `core::str::from_utf8(bytes).unwrap_or("")` -/
def utf8OrEmpty (bytes : List UInt8) : List UInt8 :=
  if (ByteArray.mk bytes.toArray).validateUTF8 then bytes else []

def kbdCapacity : Nat := 64

/-- What the device service works on: the bytes waiting in the serial receiver,
the bytes sent to the serial port, and the keyboard's ring. -/
structure Devices where
  serialIn : List UInt8
  serialOut : List UInt8
  keyboard : Lib.Circular UInt8 kbdCapacity

inductive DeviceId where
  | serial | keyboard

def DeviceId.fromU8 (id : UInt8) : Option DeviceId :=
  match id.toNat with
  | 0 => some .serial
  | 1 => some .keyboard
  | _ => none

namespace Devices

def new : Devices := ⟨[], [], Lib.Circular.new 0⟩

/-- `keyboard_isr` for a scancode that stands for a character; a full ring drops
it. -/
def press (d : Devices) (ascii : UInt8) : Option Devices :=
  (d.keyboard.push ascii).map (fun pushed => { d with keyboard := pushed.2 })

def arrive (d : Devices) (byte : UInt8) : Devices := { d with serialIn := d.serialIn ++ [byte] }

/-- The `try_read` of the serial port and of the keyboard. -/
def tryRead (d : Devices) : DeviceId → Option (Option UInt8 × Devices)
  | .serial =>
    match d.serialIn with
    | [] => some (none, d)
    | byte :: rest => some (some byte, { d with serialIn := rest })
  | .keyboard => d.keyboard.pop.map (fun popped => (popped.1, { d with keyboard := popped.2 }))

/-- The read loop, with at most `k` more bytes to read. -/
def readLoop (dev : DeviceId) : Nat → Devices → Vector UInt8 128 → Nat →
    Option (Devices × Vector UInt8 128 × Nat)
  | 0, d, reply, readLen => some (d, reply, readLen)
  | k + 1, d, reply, readLen => do
    match ← d.tryRead dev with
    | (none, d) => some (d, reply, readLen)
    | (some byte, d) =>
      let reply ← Lib.store reply (2 + readLen) byte
      readLoop dev k d reply (readLen + 1)

def read (d : Devices) (dev : DeviceId) : Option (Answer Devices) := do
  let (d, reply, readLen) ← readLoop dev 120 d (statusReply 0) 0
  if readLen > 0 then
    let reply ← Lib.store reply 0 0
    let reply ← Lib.store reply 1 (UInt8.ofNat readLen)
    some ⟨d, reply, 2 + readLen⟩
  else
    let reply ← Lib.store reply 0 2
    some ⟨d, reply, 1⟩

def write (d : Devices) (dev : DeviceId) (msg : Message) : Option (Answer Devices) :=
  let writeLen := (msg.byte 2).toNat
  if writeLen > 120 ∨ msg.len < 3 + writeLen then some (.status d 3)
  else do
    let bytes ← Lib.slice msg.payload 3 (3 + writeLen)
    match dev with
    | .serial =>
      some (.status { d with serialOut := d.serialOut ++ writeString (utf8OrEmpty bytes) } 0)
    | .keyboard => some (.status d 3)

end Devices

/-- The body of `dev_service_main` up to its reply. -/
def devService (s : Scheduler) (d : Devices) (msg : Message) : Option (Answer Devices) :=
  if msg.tag ≠ .devOp then some (.status d 3)
  else if msg.len < 2 then some (.status d 3)
  else
    let op := msg.byte 0
    let devId := msg.byte 1
    match DeviceId.fromU8 devId with
    | none => some (.status d 3)
    | some dev =>
      match op.toNat with
      | 0 =>
        if !s.devCheckCap msg.sender devId false then some (.status d 1)
        else d.read dev
      | 1 =>
        if !s.devCheckCap msg.sender devId true then some (.status d 1)
        else d.write dev msg
      | _ => some (.status d 3)

def devServiceMain (s : Scheduler) (d : Devices) (call : Nat) (msg : Message) :
    Option (Served Devices) :=
  (devService s d msg).bind (s.answer .device call msg.sender)

end Runix
