import Runix.Service.Reply

namespace Runix

structure KvSlot where
  key : Vector UInt8 16
  value : Vector UInt8 64

def KvSlot.new : KvSlot := ⟨Vector.replicate 16 0, Vector.replicate 64 0⟩

def kvSlots : Nat := 32

structure KvStore where
  slots : Fin kvSlots → KvSlot

namespace KvStore

def new : KvStore := ⟨fun _ => KvSlot.new⟩

def get (store : KvStore) (slot : Nat) : Option (Answer KvStore) := do
  let entry ← Lib.index store.slots slot
  let reply ← Lib.copySlice (statusReply 0) 1 17 entry.key.toList
  let reply ← Lib.copySlice reply 17 81 entry.value.toList
  some ⟨store, reply, 81⟩

def set (store : KvStore) (slot : Nat) (msg : Message) : Option (Answer KvStore) := do
  let entry ← Lib.index store.slots slot
  let keyBytes ← Lib.slice msg.payload 1 17
  let key ← Lib.copySlice entry.key 0 16 keyBytes
  let valueBytes ← Lib.slice msg.payload 17 81
  let value ← Lib.copySlice entry.value 0 64 valueBytes
  let slots ← Lib.assign store.slots slot ⟨key, value⟩
  some (.status ⟨slots⟩ 0)

end KvStore

/-- The body of `kv_service_main` up to its reply. -/
def kvService (s : Scheduler) (store : KvStore) (msg : Message) : Option (Answer KvStore) :=
  let slot := (msg.byte 0).toNat
  match msg.tag with
  | .kvGet =>
    if msg.len < 1 then some (.status store 2)
    else if slot ≥ 32 then some (.status store 2)
    else if !s.checkSenderCap msg.sender slot false then some (.status store 1)
    else store.get slot
  | .kvSet =>
    if msg.len < 81 then some (.status store 2)
    else if slot ≥ 32 then some (.status store 2)
    else if !s.checkSenderCap msg.sender slot true then some (.status store 1)
    else store.set slot msg
  | _ => some (.status store 2)

def kvServiceMain (s : Scheduler) (store : KvStore) (call : Nat) (msg : Message) :
    Option (Served KvStore) :=
  (kvService s store msg).bind (s.answer .kv call msg.sender)

end Runix
