import Runix.Proofs.Replies
import Runix.Service.Device

namespace Runix

namespace Devices

def Sound (d : Devices) : Prop := d.keyboard.Wf

/-- A read from a device in order returns and leaves the device in order. -/
theorem tryRead_spec {d : Devices} (h : d.Sound) (dev : DeviceId) :
    ∃ byte d', d.tryRead dev = some (byte, d') ∧ d'.Sound := by
  cases dev with
  | serial =>
    unfold tryRead
    cases d.serialIn with
    | nil => exact ⟨_, _, rfl, h⟩
    | cons byte rest => exact ⟨_, _, rfl, h⟩
  | keyboard =>
    obtain ⟨byte, q, hpop⟩ := Lib.Circular.Wf.pop_some h
    refine ⟨byte, { d with keyboard := q }, ?_, Lib.Circular.Wf.pop h hpop⟩
    rw [tryRead, hpop]
    rfl

/-- The loop reads at most the bytes it was allowed and stays inside the reply. -/
theorem readLoop_spec (dev : DeviceId) (k : Nat) {d : Devices} (h : d.Sound)
    (reply : Vector UInt8 128) (readLen : Nat) (hlen : 2 + readLen + k ≤ 128) :
    ∃ d' reply' readLen', readLoop dev k d reply readLen = some (d', reply', readLen') ∧
      d'.Sound ∧ readLen' ≤ readLen + k := by
  induction k generalizing d reply readLen with
  | zero => exact ⟨d, reply, readLen, rfl, h, Nat.le_refl _⟩
  | succ k ih =>
    obtain ⟨byte, d', hread, hwf⟩ := tryRead_spec h dev
    unfold readLoop
    rw [hread, Option.bind_eq_bind, Option.bind_some]
    cases byte with
    | none => exact ⟨d', reply, readLen, rfl, hwf, Nat.le_add_right _ _⟩
    | some byte =>
      have hstore : Lib.store reply (2 + readLen) byte = some _ := dif_pos (by omega)
      simp only
      rw [hstore, Option.bind_eq_bind, Option.bind_some]
      obtain ⟨d₂, reply₂, n, hloop, hwf₂, hn⟩ := ih hwf (reply.set (2 + readLen) byte (by omega))
        (readLen + 1) (by omega)
      exact ⟨d₂, reply₂, n, hloop, hwf₂, by omega⟩

theorem read_spec {d : Devices} (h : d.Sound) (dev : DeviceId) :
    ∃ a reply, d.read dev = some a ∧ a.bytes = some reply ∧ a.store.Sound := by
  obtain ⟨d', reply, n, hloop, hwf, hn⟩ := readLoop_spec dev 120 h (statusReply 0) 0
    (by decide)
  obtain ⟨r₀, hr₀⟩ : ∃ r, Lib.store reply 0 0 = some r := ⟨_, dif_pos (by decide)⟩
  obtain ⟨r₁, hr₁⟩ : ∃ r, Lib.store r₀ 1 (UInt8.ofNat n) = some r := ⟨_, dif_pos (by decide)⟩
  obtain ⟨r₂, hr₂⟩ : ∃ r, Lib.store reply 0 2 = some r := ⟨_, dif_pos (by decide)⟩
  rw [read, hloop, Option.bind_eq_bind, Option.bind_some]
  simp only
  split
  · rw [hr₀, Option.bind_eq_bind, Option.bind_some, hr₁, Option.bind_some]
    have hlen : 2 + n ≤ 128 := by omega
    exact ⟨_, _, rfl, Lib.slice_of_le (Nat.zero_le _) hlen, hwf⟩
  · rw [hr₂, Option.bind_eq_bind, Option.bind_some]
    exact ⟨_, _, rfl, Lib.slice_of_le (Nat.zero_le _) (Nat.le_of_ble_eq_true rfl), hwf⟩

theorem write_spec {d : Devices} (h : d.Sound) (dev : DeviceId) (msg : Message) :
    ∃ a reply, d.write dev msg = some a ∧ a.bytes = some reply ∧ a.store.Sound := by
  unfold write
  dsimp only
  split
  · exact ⟨_, _, rfl, Answer.bytes_status d 3, h⟩
  · have hslice : Lib.slice msg.payload 3 (3 + (msg.byte 2).toNat) = some _ :=
      Lib.slice_of_le (Nat.le_add_right _ _) (by omega)
    rw [hslice, Option.bind_eq_bind, Option.bind_some]
    cases dev with
    | serial => exact ⟨_, _, rfl, Answer.bytes_status _ 0, h⟩
    | keyboard => exact ⟨_, _, rfl, Answer.bytes_status d 3, h⟩

end Devices

def Message.devCall (msg : Message) : Option (DeviceId × Bool) :=
  if msg.tag = .devOp ∧ 2 ≤ msg.len then
    match DeviceId.fromU8 (msg.byte 1), (msg.byte 0).toNat with
    | some dev, 0 => some (dev, false)
    | some dev, 1 => some (dev, true)
    | _, _ => none
  else none

/-- The service decodes, checks the capability, and reads or writes. -/
theorem devService_eq (s : Scheduler) (d : Devices) (msg : Message) :
    devService s d msg =
      match msg.devCall with
      | none => some (.status d 3)
      | some (dev, write) =>
        if s.devCheckCap msg.sender (msg.byte 1) write then
          if write then d.write dev msg else d.read dev
        else some (.status d 1) := by
  unfold devService Message.devCall
  by_cases hok : msg.tag = .devOp ∧ 2 ≤ msg.len
  · rw [if_neg (by simp [hok.1]), if_neg (by omega), if_pos hok]
    dsimp only
    cases DeviceId.fromU8 (msg.byte 1) with
    | none => rfl
    | some dev =>
      generalize (msg.byte 0).toNat = op
      rcases op with _ | _ | op
      · exact refuse_last _ _ _
      · exact refuse_last _ _ _
      · rfl
  · rw [if_neg hok]
    split
    · rfl
    · rename_i htag
      rw [if_pos]
      by_contra hno
      exact hok ⟨not_not.mp htag, by omega⟩

theorem devService_handles {d : Devices} (h : d.Sound) (s : Scheduler) (msg : Message) :
    Handles (devService s d msg) Devices.Sound False := by
  rw [devService_eq]
  cases msg.devCall with
  | none => exact .status id h 3
  | some call =>
    obtain ⟨dev, write⟩ := call
    simp only
    split
    · refine ⟨False.elim, fun _ => ?_⟩
      cases write with
      | true => exact Devices.write_spec h dev msg
      | false => exact Devices.read_spec h dev
    · exact .status id h 1

end Runix
