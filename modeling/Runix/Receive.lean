import Runix.Dispatch
import Runix.Dist
import Runix.UserRange

namespace Runix

structure SyscallFrame where
  rax : UInt64
  rdi : UInt64
  rsi : UInt64
  rdx : UInt64
  r8 : UInt64

inductive TakeRequest where
  | receive (buf cap : UInt64)
  | receiveAsync (buf cap : UInt64)

def TakeRequest.buf : TakeRequest → UInt64
  | receive buf _ => buf
  | receiveAsync buf _ => buf

def TakeRequest.cap : TakeRequest → UInt64
  | receive _ cap => cap
  | receiveAsync _ cap => cap

structure UserCopy where
  dst : UInt64
  bytes : List UInt8
  deriving DecidableEq

/-- `u64::MAX - 8` -/
def noMessageError : UInt64 := 0xfffffffffffffff7

namespace Memory

/-- `parse_request` for `SYS_RECEIVE` and `SYS_RECEIVE_ASYNC`. The outer `none` is a
panic, the inner one an `Unknown` request. -/
def parseTake (m : Memory) (hhdm : Nat) (frame : SyscallFrame) : Option (Option TakeRequest) :=
  let checkLen := UInt64.ofNat (min frame.rdx.toNat 128)
  if frame.rax = 3 then
    (m.validateUserRange hhdm frame.rsi checkLen true).map (fun r =>
      if r.isOk then some (.receive frame.rsi frame.rdx) else none)
  else if frame.rax = 9 then
    (m.validateUserRange hhdm frame.rsi checkLen true).map (fun r =>
      if r.isOk then some (.receiveAsync frame.rsi frame.rdx) else none)
  else some none

/-- The arms of `syscall_dispatch` once a message is there: what they copy, and the
value in `rax`. -/
def takeMessage (m : Memory) (hhdm : Nat) (buf cap : UInt64) (msg : Message) :
    Option (Option UserCopy × UInt64) :=
  let n := min msg.len cap.toNat
  (m.validateUserRange hhdm buf (UInt64.ofNat n) true).map (fun r =>
    if r.isOk then (some ⟨buf, msg.payload.toList.take n⟩, UInt64.ofNat n)
    else (none, genericError))

/-- The arms of `syscall_dispatch` for these requests after their receive. -/
def finishTake (m : Memory) (hhdm : Nat) :
    TakeRequest → Except IpcError Message → Option (Option UserCopy × UInt64)
  | .receive buf cap, .ok msg => m.takeMessage hhdm buf cap msg
  | .receive _ _, .error _ => some (none, genericError)
  | .receiveAsync buf cap, .ok msg => m.takeMessage hhdm buf cap msg
  | .receiveAsync _ _, .error .noMessage => some (none, noMessageError)
  | .receiveAsync _ _, .error _ => some (none, genericError)

structure SameTables (m m' : Memory) : Prop where
  root : m'.activePml4 = m.activePml4
  entry : ∀ addr, ∀ table ∈ m.tables addr, ∀ idx < 512, m'.entry table idx = m.entry table idx

end Memory

/-- Everything that holds messages: the tasks, the remote node with the checkpoints it
hosts, and the snapshot. -/
structure Post where
  system : System
  snapshot : SystemSnapshot

namespace Post

def sched (p : Post) : Scheduler := p.system.kernel.sched

def withSched (p : Post) (sched : Scheduler) : Post :=
  { p with system := p.system.modifySched (fun _ => sched) }

structure Boot (p : Post) : Prop where
  tasks : ∀ i t, p.sched.tasks i = some t → t.ipcBuffer = none ∧ t.msgQueue.contents = []
  fresh : p.system.Fresh
  snapshot : p.snapshot = SystemSnapshot.new

/-- A change of the tasks that leaves the messages of each where they are, or takes
them away. -/
def NoNewMail (s s' : Scheduler) : Prop :=
  ∀ i t', s'.tasks i = some t' →
    (t'.ipcBuffer = none ∨ ∃ t, s.tasks i = some t ∧ t'.ipcBuffer = t.ipcBuffer) ∧
    (t'.msgQueue.contents = [] ∨ ∃ t, s.tasks i = some t ∧ t'.msgQueue = t.msgQueue)

/-- The sections of the kernel that handle messages, and all others. A section of a
send has the locals of a call whose inputs were accepted. -/
inductive Step : Post → Unit → Post → Prop where
  | send (p : Post) (current : TaskId) {call capIdx : Nat} {tag version : UInt16}
      {payload : List UInt8} {a : SendArgs}
      (accepted : checkSend call capIdx tag version payload = .ok a) :
      Step p () (p.withSched (p.sched.sendRegion current a).1)
  | sendAsync (p : Post) (current : TaskId) {call capIdx : Nat} {tag version : UInt16}
      {payload : List UInt8} {a : SendArgs}
      (accepted : checkSend call capIdx tag version payload = .ok a) :
      Step p () (p.withSched (p.sched.sendAsyncRegion current a).1)
  | receive (p : Post) (current : TaskId) :
      Step p () (p.withSched (p.sched.receiveAttempt current).1)
  | register (p : Post) (svc : ServiceId) (loc : Location) :
      Step p () { p with system := p.system.register svc loc }
  | route (p : Post) (cap : Capability) (payload : List UInt8) :
      Step p () { p with system := (p.system.routeSend cap payload).1 }
  | migrate (p : Post) (svc : ServiceId) (dest : NodeId) :
      Step p () { p with system := (p.system.migrate svc dest).1 }
  | pump (p : Post) {system : System} {count : Nat} (h : p.system.pumpRemote = some (system, count)) :
      Step p () { p with system := system }
  | failover (p : Post) (svc : ServiceId) (replica : TaskId) :
      Step p () { p with system := (p.system.failover svc replica).1 }
  | capture (p : Post) {snapshot : SystemSnapshot} (h : capture p.sched = some snapshot) :
      Step p () { p with snapshot := snapshot }
  | restore (p : Post) {sched : Scheduler} {r : Except Unit Nat}
      (h : restore p.snapshot p.sched = some (sched, r)) : Step p () (p.withSched sched)
  | elsewhere (p : Post) (kernel : Kernel) (h : NoNewMail p.sched kernel.sched) :
      Step p () { p with system := { p.system with kernel := kernel } }

end Post

end Runix
