import Runix.Proofs.Replies
import Runix.Service.Kv

namespace Runix

def Message.kvCall (msg : Message) : Option (Fin kvSlots × Bool) :=
  if h : (msg.byte 0).toNat < kvSlots then
    match msg.tag with
    | .kvGet => if 1 ≤ msg.len then some (⟨_, h⟩, false) else none
    | .kvSet => if 81 ≤ msg.len then some (⟨_, h⟩, true) else none
    | _ => none
  else none

namespace KvStore

def put (store : KvStore) (i : Fin kvSlots) (slot : KvSlot) : KvStore :=
  ⟨Function.update store.slots i slot⟩

theorem get_spec (store : KvStore) (i : Fin kvSlots) : ∃ reply,
    store.get i = some ⟨store, reply, 81⟩ ∧
    Lib.Begins reply ([0] ++ (store.slots i).key.toList ++ (store.slots i).value.toList) := by
  obtain ⟨r₁, hr₁, hb₁⟩ := (statusReply_begins 0).copySlice 1 17 (store.slots i).key.toList rfl
    (by simp) (by decide)
  obtain ⟨r₂, hr₂, hb₂⟩ := hb₁.copySlice 17 81 (store.slots i).value.toList (by simp) (by simp)
    (by decide)
  refine ⟨r₂, ?_, hb₂⟩
  rw [get, Lib.index_val, Option.bind_eq_bind, Option.bind_some, hr₁, Option.bind_eq_bind,
    Option.bind_some, hr₂, Option.bind_some]

theorem set_spec (store : KvStore) (i : Fin kvSlots) (msg : Message) : ∃ slot,
    store.set i msg = some (.status (store.put i slot) 0) ∧
    Lib.slice msg.payload 1 17 = some slot.key.toList ∧
    Lib.slice msg.payload 17 81 = some slot.value.toList := by
  obtain ⟨key, hkey⟩ : ∃ l, Lib.slice msg.payload 1 17 = some l :=
    ⟨_, Lib.slice_of_le (by decide) (by decide)⟩
  obtain ⟨value, hvalue⟩ : ∃ l, Lib.slice msg.payload 17 81 = some l :=
    ⟨_, Lib.slice_of_le (by decide) (by decide)⟩
  have hklen : key.length = 16 := (Lib.slice_length hkey).1
  have hvlen : value.length = 64 := (Lib.slice_length hvalue).1
  obtain ⟨k, hk, hkb⟩ := Lib.copySlice_front (store.slots i).key key (by omega)
  obtain ⟨v, hv, hvb⟩ := Lib.copySlice_front (store.slots i).value value (by omega)
  rw [hklen] at hk
  rw [hvlen] at hv
  have hkeyOf : k.toList = key := by
    have htake : k.toList.take key.length = key := hkb
    rwa [List.take_of_length_le (by simp [hklen])] at htake
  have hvalueOf : v.toList = value := by
    have htake : v.toList.take value.length = value := hvb
    rwa [List.take_of_length_le (by simp [hvlen])] at htake
  refine ⟨⟨k, v⟩, ?_, by rw [hkeyOf, hkey], by rw [hvalueOf, hvalue]⟩
  rw [set, Lib.index_val, Option.bind_eq_bind, Option.bind_some, hkey, Option.bind_eq_bind,
    Option.bind_some, hk, Option.bind_eq_bind, Option.bind_some, hvalue, Option.bind_eq_bind,
    Option.bind_some, hv, Option.bind_eq_bind, Option.bind_some, Lib.assign_val,
    Option.bind_some]
  rfl

end KvStore

/-- The service decodes, checks the capability, and gets or sets. -/
theorem kvService_eq (s : Scheduler) (store : KvStore) (msg : Message) :
    kvService s store msg =
      match msg.kvCall with
      | none => some (.status store 2)
      | some (i, write) =>
        if s.checkSenderCap msg.sender i write then
          if write then store.set i msg else store.get i
        else some (.status store 1) := by
  unfold kvService Message.kvCall
  dsimp only
  by_cases hslot : (msg.byte 0).toNat < kvSlots
  · have hge : ¬ (msg.byte 0).toNat ≥ 32 := Nat.not_le.mpr hslot
    rw [dif_pos hslot]
    cases msg.tag with
    | kvGet =>
      dsimp only
      by_cases hlen : 1 ≤ msg.len
      · rw [if_neg (by omega), if_neg hge, if_pos hlen]
        exact refuse_last _ _ _
      · rw [if_pos (by omega), if_neg hlen]
    | kvSet =>
      dsimp only
      by_cases hlen : 81 ≤ msg.len
      · rw [if_neg (by omega), if_neg hge, if_pos hlen]
        exact refuse_last _ _ _
      · rw [if_pos (by omega), if_neg hlen]
    | _ => rfl
  · have hge : (msg.byte 0).toNat ≥ 32 := Nat.le_of_not_lt hslot
    rw [dif_neg hslot]
    cases msg.tag with
    | kvGet | kvSet => simp only [hge, if_true, ite_self]
    | _ => rfl

theorem kvService_handles (s : Scheduler) (store : KvStore) (msg : Message) :
    Handles (kvService s store msg) (fun _ => True) False := by
  rw [kvService_eq]
  cases msg.kvCall with
  | none => exact .status id trivial 2
  | some call =>
    obtain ⟨i, write⟩ := call
    simp only
    split
    · refine ⟨False.elim, fun _ => ?_⟩
      cases write with
      | true =>
        obtain ⟨slot, hset, _⟩ := store.set_spec i msg
        exact ⟨_, _, hset, Answer.bytes_status _ 0, trivial⟩
      | false =>
        obtain ⟨reply, hget, hbegins⟩ := store.get_spec i
        exact ⟨_, _, hget, Answer.bytes_of_begins hbegins (by simp) (by decide), trivial⟩
    · exact .status id trivial 1

end Runix
