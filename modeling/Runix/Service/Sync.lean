import Runix.Service.Reply
import Runix.Lib.Circular

namespace Runix

def syncMaxObj : Nat := 8
def syncMaxWait : Nat := 16

/-- `wait` is the ring that the source keeps in `waiters`, `wait_head`,
`wait_tail` and `wait_len`. -/
structure SyncObject where
  used : Bool
  isMutex : Bool
  count : Int
  wait : Lib.Circular TaskId syncMaxWait

def SyncObject.new : SyncObject := ⟨false, false, 0, Lib.Circular.new 0⟩

structure SyncStore where
  objects : Fin syncMaxObj → SyncObject

namespace SyncStore

def new : SyncStore := ⟨fun _ => SyncObject.new⟩

def set (store : SyncStore) (i : Fin syncMaxObj) (obj : SyncObject) : SyncStore :=
  ⟨Function.update store.objects i obj⟩

end SyncStore

/-- What a request does besides changing the store: the status sent back, none
when the sender is left waiting, and the waiter that a release takes off the
queue. -/
structure SyncAnswer where
  store : SyncStore
  status : Option UInt8
  granted : Option TaskId

namespace SyncAnswer

def refuse (store : SyncStore) (code : UInt8) : SyncAnswer := ⟨store, some code, none⟩

end SyncAnswer

/-- `count += 1` in 32 bits; `none` is the overflow panic. -/
def incrI32 (x : Int) : Option Int := if x + 1 < 2 ^ 31 then some (x + 1) else none

def SyncObject.restored (obj : SyncObject) : Option Int :=
  if obj.isMutex then some 1 else incrI32 obj.count

namespace SyncStore
variable (store : SyncStore) (i : Fin syncMaxObj)

def create (isMutex : Bool) (initialCount : Int) : SyncAnswer :=
  let obj := store.objects i
  if obj.used then .refuse store 2
  else
    ⟨store.set i ⟨true, isMutex, initialCount, obj.wait.reset⟩, some 0, none⟩

def acquire (sender : TaskId) : Option SyncAnswer :=
  let obj := store.objects i
  if !obj.used then some (.refuse store 2)
  else if obj.count > 0 then some ⟨store.set i { obj with count := obj.count - 1 }, some 0, none⟩
  else do
    let (accepted, wait) ← obj.wait.push sender
    if accepted then some ⟨store.set i { obj with wait := wait }, none, none⟩
    else some (.refuse store 4)

def release : Option SyncAnswer :=
  let obj := store.objects i
  if !obj.used then some (.refuse store 2)
  else do
    match ← obj.wait.pop with
    | (some waiter, wait) => some ⟨store.set i { obj with wait := wait }, some 0, some waiter⟩
    | (none, _) =>
      let count ← obj.restored
      some ⟨store.set i { obj with count := count }, some 0, none⟩

end SyncStore

/-- The body of `sync_service_main` up to its sends. -/
def syncService (s : Scheduler) (store : SyncStore) (msg : Message) : Option SyncAnswer :=
  if msg.tag ≠ .syncOp then some (.refuse store 2)
  else if msg.len < 2 then some (.refuse store 2)
  else
    let op := msg.byte 0
    let objId := msg.byte 1
    if h : objId.toNat < syncMaxObj then
      match op.toNat with
      | 0 => some (store.create ⟨objId.toNat, h⟩ (msg.byte 2 != 0) (msg.byte 3).toNat)
      | 1 =>
        if !s.syncCheckCap msg.sender objId then some (.refuse store 1)
        else store.acquire ⟨objId.toNat, h⟩ msg.sender
      | 2 =>
        if !s.syncCheckCap msg.sender objId then some (.refuse store 1)
        else store.release ⟨objId.toNat, h⟩
      | _ => some (.refuse store 2)
    else some (.refuse store 2)

/-- One round of the loop: the results of the sends to the dequeued waiter and to
the sender, where they are made. -/
structure SyncServed where
  sched : Scheduler
  store : SyncStore
  grant : Option (TaskId × Except IpcError Unit)
  reply : Option (UInt8 × Except IpcError Unit)

def Scheduler.syncReply (s : Scheduler) (call : Nat) (client : TaskId) (code : UInt8) :
    Option (Scheduler × Except IpcError Unit) := do
  let s ← s.openReply .sync client
  let reply ← Lib.slice (statusReply code) 0 1
  some (s.sysSendAsync call replySlot Service.sync.replyTag 1 reply)

def Scheduler.syncGrant (s : Scheduler) (call : Nat) :
    Option TaskId → Option (Scheduler × Option (TaskId × Except IpcError Unit))
  | none => some (s, none)
  | some waiter => do
    let (s, sent) ← s.syncReply call waiter 0
    some (s, some (waiter, sent))

def syncServiceMain (s : Scheduler) (store : SyncStore) (call : Nat) (msg : Message) :
    Option SyncServed := do
  let a ← syncService s store msg
  let (s, grant) ← s.syncGrant call a.granted
  match a.status with
  | none => some ⟨s, a.store, grant, none⟩
  | some code =>
    let (s, sent) ← s.syncReply (call + 1) msg.sender code
    some ⟨s, a.store, grant, some (code, sent)⟩

end Runix
