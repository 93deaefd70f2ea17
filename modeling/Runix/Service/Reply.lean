import Runix.Services
import Runix.Dispatch
import Runix.Lib.Bytes

namespace Runix

/-- What the kernel may put into a receiver's hands: the sender is a task and
the length is one the send calls let through. -/
structure Message.Deliverable (msg : Message) : Prop where
  sender_lt : msg.sender < maxTasks
  len_le : msg.len ≤ 128

/-- `a + b` in 64 bits; `none` is the overflow panic. -/
def addU64 (a b : Nat) : Option Nat := if a + b < 2 ^ 64 then some (a + b) else none

theorem addU64_some {x y z : Nat} (h : addU64 x y = some z) : z = x + y ∧ x + y < 2 ^ 64 := by
  unfold addU64 at h
  split at h
  · rename_i hlt
    exact ⟨(Option.some.inj h).symm, hlt⟩
  · cases h

namespace Resource

/-- The flags of the KV entry in question, `(readable, writable)`. -/
def kvFlags (slot : Nat) : Resource → Option (Bool × Bool)
  | .kvEntry capSlot readable writable =>
    if capSlot = slot then some (readable, writable) else none
  | _ => none

def logFlags (kind : UInt8) : Resource → Option (Bool × Bool)
  | .logChannel capKind readable writable =>
    if capKind = kind then some (readable, writable) else none
  | _ => none

def fsFlags (mount : UInt8) : Resource → Option (Bool × Bool)
  | .fsNode m readable writable => if m = mount then some (readable, writable) else none
  | _ => none

def devFlags (id : UInt8) : Resource → Option (Bool × Bool)
  | .device capId readable writable => if capId = id then some (readable, writable) else none
  | _ => none

end Resource

def Capability.permits (flags : Resource → Option (Bool × Bool)) (requireWrite : Bool)
    (cap : Capability) : Bool :=
  match flags cap.resource with
  | some (readable, writable) => if requireWrite then writable && cap.write else readable && cap.read
  | none => false

namespace Scheduler

def checkCap (s : Scheduler) (sender : TaskId) (ok : Capability → Bool) : Bool :=
  match s.getTask sender with
  | some task => (List.finRange maxCaps).any (fun i => (task.capTable.slots i).any ok)
  | none => false

def checkSenderCap (s : Scheduler) (sender : TaskId) (slot : Nat) (requireWrite : Bool) : Bool :=
  s.checkCap sender (Capability.permits (Resource.kvFlags slot) requireWrite)

def checkLogSenderCap (s : Scheduler) (sender : TaskId) (kind : UInt8) (requireWrite : Bool) :
    Bool :=
  s.checkCap sender (Capability.permits (Resource.logFlags kind) requireWrite)

def fsCheckCap (s : Scheduler) (sender : TaskId) (mount : UInt8) (needWrite : Bool) : Bool :=
  s.checkCap sender (Capability.permits (Resource.fsFlags mount) needWrite)

def devCheckCap (s : Scheduler) (sender : TaskId) (id : UInt8) (requireWrite : Bool) : Bool :=
  s.checkCap sender (Capability.permits (Resource.devFlags id) requireWrite)

def syncCheckCap (s : Scheduler) (sender : TaskId) (id : UInt8) : Bool :=
  s.checkCap sender (fun cap => cap.resource = .syncObj id)

def tableOf (s : Scheduler) (sender : TaskId) : Option CapTable :=
  (s.getTask sender).map Task.capTable

theorem checkCap_eq (s : Scheduler) (sender : TaskId) (ok : Capability → Bool) :
    s.checkCap sender ok =
      (s.tableOf sender).any (fun t => (List.finRange maxCaps).any (fun i => (t.slots i).any ok)) := by
  unfold checkCap tableOf
  cases s.getTask sender with
  | none => rfl
  | some task => rfl

def Holds (s : Scheduler) (sender : TaskId) (ok : Capability → Bool) : Prop :=
  ∃ t i cap, s.tableOf sender = some t ∧ t.slots i = some cap ∧ ok cap = true

theorem checkCap_iff {s : Scheduler} {sender : TaskId} {ok : Capability → Bool} :
    s.checkCap sender ok = true ↔ s.Holds sender ok := by
  rw [checkCap_eq, Option.any_eq_true]
  constructor
  · rintro ⟨t, ht, hany⟩
    obtain ⟨i, _, hi⟩ := List.any_eq_true.mp hany
    obtain ⟨cap, hcap, hok⟩ := (Option.any_eq_true ..).mp hi
    exact ⟨t, i, cap, ht, hcap, hok⟩
  · rintro ⟨t, i, cap, ht, hcap, hok⟩
    refine ⟨t, ht, List.any_eq_true.mpr ⟨i, List.mem_finRange i, ?_⟩⟩
    exact (Option.any_eq_true ..).mpr ⟨cap, hcap, hok⟩

end Scheduler

/-- `[0u8; 128]` with a status in its first byte. -/
def statusReply (code : UInt8) : Vector UInt8 128 := (Vector.replicate 128 0).set 0 code

theorem statusReply_begins (code : UInt8) : Lib.Begins (statusReply code) [code] := rfl

/-- What a handler leaves behind: its store, the reply buffer and `reply_len`. -/
structure Answer (σ : Type) where
  store : σ
  reply : Vector UInt8 128
  len : Nat

namespace Answer

def status {σ : Type} (store : σ) (code : UInt8) : Answer σ := ⟨store, statusReply code, 1⟩

/-- `&reply[..reply_len]` -/
def bytes {σ : Type} (a : Answer σ) : Option (List UInt8) := Lib.slice a.reply 0 a.len

end Answer

namespace Service

def replyTag : Service → UInt16
  | .kv => 0
  | .log => 8
  | .fs => 10
  | .device => 12
  | .sync => 14

/-- The reply channel to any task number; `none` when its identity overflows. -/
def channelTo (svc : Service) (client : TaskId) : Option Capability :=
  (addU64 svc.replyBase client).map (fun id => ⟨.ipcChannel client, true, true, false, false, id, none⟩)

theorem channelTo_eq (svc : Service) (client : Fin maxTasks) :
    svc.channelTo client = some (svc.replyCap client) := by
  have hlt : svc.replyBase + client < 2 ^ 64 := by
    have hc : client.val < 132 := client.isLt
    have hb : svc.replyBase ≤ 86000 := by cases svc <;> decide
    omega
  rw [channelTo, addU64, if_pos hlt]
  rfl

end Service

/-- `me.cap_table.slots[1] = Some(cap)` -/
def Task.withReply (cap : Capability) (me : Task) : Task :=
  { me with capTable := me.capTable.put replySlot cap }

theorem Task.withReply_id (cap : Capability) (me : Task) : (me.withReply cap).id = me.id := rfl

namespace Scheduler

/-- A service puts a channel to a task into slot 1 of its own table. `none` is a
failed `unwrap` of its own task. -/
def openReply (s : Scheduler) (svc : Service) (client : TaskId) : Option Scheduler :=
  match s.getTask svc.task with
  | none => none
  | some _ => (svc.channelTo client).map (fun cap => s.modify svc.task (Task.withReply cap))

/-- The operation is the one of the whole system, seen from the scheduler. -/
theorem openReply_eq (s : System) (svc : Service) (client : Fin maxTasks) :
    s.kernel.sched.openReply svc client =
      (s.installReply svc client).map (fun s => s.kernel.sched) := by
  unfold openReply System.installReply
  cases s.kernel.sched.getTask svc.task with
  | none => rfl
  | some me =>
    simp only [svc.channelTo_eq client, Option.map_some]
    rfl

def Serving (s : Scheduler) (svc : Service) : Prop := s.getTask svc.task ≠ none

instance (s : Scheduler) (svc : Service) : Decidable (s.Serving svc) :=
  decidable_of_iff ((s.getTask svc.task).isSome = true) Option.isSome_iff_ne_none

theorem openReply_some {s : Scheduler} {svc : Service} (hs : s.Serving svc) {client : TaskId}
    (hc : client < maxTasks) : s.openReply svc client =
      some (s.modify svc.task (Task.withReply (svc.replyCap ⟨client, hc⟩))) := by
  obtain ⟨me, hme⟩ := Option.ne_none_iff_exists'.mp hs
  have hcap := svc.channelTo_eq ⟨client, hc⟩
  change svc.channelTo client = _ at hcap
  simp only [openReply, hme, hcap, Option.map_some]

end Scheduler

/-- One round of a service loop that answers by `sys_send_typed`. -/
structure Served (σ : Type) where
  sched : Scheduler
  store : σ
  reply : List UInt8
  sent : CallResult (Except IpcError Unit)

def Scheduler.answer {σ : Type} (s : Scheduler) (svc : Service) (call : Nat) (client : TaskId)
    (a : Answer σ) : Option (Served σ) := do
  let s ← s.openReply svc client
  let reply ← a.bytes
  let (s, sent) := s.sysSendTyped call replySlot svc.replyTag 1 reply
  some ⟨s, a.store, reply, sent⟩

end Runix
