import Runix.Paging

namespace Runix
open Lib

theorem frameMask_getLsbD (i : Nat) (h : i < 64) :
    frameMask.getLsbD i = decide (12 ≤ i ∧ i < 52) := by
  have hall : ∀ i : Fin 64, frameMask.getLsbD i = decide (12 ≤ i.val ∧ i.val < 52) := by decide
  exact hall ⟨i, h⟩

/-- The bits of a page-aligned physical address. -/
theorem frame_testBit {f : Nat} (ha : f % 4096 = 0) (hw : f < 2 ^ 52) (i : Nat)
    (h : i < 12 ∨ 52 ≤ i) : f.testBit i = false := by
  rcases h with h | h
  · obtain ⟨k, rfl⟩ := Nat.dvd_of_mod_eq_zero ha
    have hk : 4096 * k = k * 2 ^ 12 := by omega
    rw [hk, Nat.testBit_mul_two_pow]
    simp; omega
  · exact Nat.testBit_lt_two_pow (hw.trans_le (Nat.pow_le_pow_right (by decide) h))

section
variable {f : Nat} (ha : f % 4096 = 0) (hw : f < 2 ^ 52)
include ha hw

/-- Masking the address of a frame does nothing. -/
theorem frame_and_mask : BitVec.ofNat 64 f &&& frameMask = BitVec.ofNat 64 f := by
  apply BitVec.eq_of_getLsbD_eq
  intro i hi
  rw [BitVec.getLsbD_and, frameMask_getLsbD i hi, BitVec.getLsbD_ofNat]
  by_cases hin : 12 ≤ i ∧ i < 52
  · simp [hin]
  · have := frame_testBit ha hw i (by omega)
    simp [hin, this]

/-- An entry made of a frame and flags in its low bits leads to the frame. -/
theorem frameOf_or {flags : BitVec 64} (hflags : flags &&& frameMask = 0) :
    frameOf (BitVec.ofNat 64 f ||| flags) = f := by
  have hbits : (BitVec.ofNat 64 f ||| flags) &&& frameMask = BitVec.ofNat 64 f := by
    rw [BitVec.and_or_distrib_right, frame_and_mask ha hw, hflags]
    exact BitVec.or_zero
  rw [frameOf, hbits, BitVec.toNat_ofNat, Nat.mod_eq_of_lt (by omega)]

/-- The flags of such an entry are those put in. -/
theorem flag_or (flags : BitVec 64) {i : Nat} (hi : i < 12) :
    (BitVec.ofNat 64 f ||| flags).getLsbD i = flags.getLsbD i := by
  simp [BitVec.getLsbD_or, BitVec.getLsbD_ofNat, frame_testBit ha hw i (.inl hi)]

theorem linkable_frame : paging.Linkable f where
  present := flag_or ha hw 0x7 (by decide)
  final := flag_or ha hw 0x7 (by decide)
  child := frameOf_or ha hw (by decide)

theorem link_flags : isPresent (paging.link f) = true ∧ isUser (paging.link f) = true ∧
    isWritable (paging.link f) = true :=
  ⟨flag_or ha hw 0x7 (by decide), flag_or ha hw 0x7 (by decide), flag_or ha hw 0x7 (by decide)⟩

theorem leafEntry_eq (w : Bool) : Memory.leafEntry f w =
    BitVec.ofNat 64 f ||| (0x1 ||| 0x4 ||| (if w then 0x2 else 0x0)) := by
  rw [Memory.leafEntry, frame_and_mask ha hw]

theorem frameOf_leafEntry (w : Bool) : frameOf (Memory.leafEntry f w) = f := by
  rw [leafEntry_eq ha hw]
  exact frameOf_or ha hw (by cases w <;> decide)

theorem leafEntry_flags (w : Bool) : isPresent (Memory.leafEntry f w) = true ∧
    isUser (Memory.leafEntry f w) = true ∧ isWritable (Memory.leafEntry f w) = w := by
  rw [leafEntry_eq ha hw]
  refine ⟨(flag_or ha hw _ (by decide)).trans ?_, (flag_or ha hw _ (by decide)).trans ?_,
    (flag_or ha hw _ (by decide)).trans ?_⟩ <;> cases w <;> decide

end

theorem not_present_iff (e : BitVec 64) : e &&& 0x1 = 0 ↔ isPresent e = false := by
  constructor
  · intro h
    have := congrArg (fun x => x.getLsbD 0) h
    simpa [isPresent] using this
  · intro h
    apply BitVec.eq_of_getLsbD_eq
    intro i _
    by_cases hi : i = 0
    · subst hi
      simpa [isPresent] using h
    · simp [hi]

namespace Memory

section
variable {m : Memory} {f g : Nat} (hf : f % 4096 = 0) (hg : g % 4096 = 0)
include hf hg

/-- Page-aligned tables do not overlap. -/
theorem table_setEntry (i j : Fin 512) (e : BitVec 64) :
    (m.setEntry g j e).table f i = if (f, i) = (g, j) then e else m.table f i := by
  have hi := i.isLt
  have hj := j.isLt
  have heq : f + 8 * i.val = g + 8 * j.val ↔ (f, i) = (g, j) := by
    rw [Prod.mk.injEq, Fin.ext_iff]
    omega
  simp [table, entry, setEntry, heq]

theorem table_zeroFrame (i : Fin 512) :
    (m.zeroFrame g).table f i = if f = g then 0 else m.table f i := by
  have hi := i.isLt
  have heq : (g ≤ f + 8 * i.val ∧ f + 8 * i.val < g + 4096) ↔ f = g := by omega
  simp [table, entry, zeroFrame, heq]

end

/-- Copying entries between two different tables. -/
theorem table_copyEntries {f dst src : Nat} (hf : f % 4096 = 0) (hd : dst % 4096 = 0)
    (hs : src % 4096 = 0) (hne : src ≠ dst) (is : List Nat) (his : ∀ i ∈ is, i < 512) (m : Memory)
    (i : Fin 512) : (m.copyEntries dst src is).table f i =
      if f = dst ∧ i.val ∈ is then m.table src i else m.table f i := by
  induction is generalizing m with
  | nil => simp [copyEntries]
  | cons j js ih =>
    have hj : j < 512 := his j (by simp)
    have hset : ∀ f, f % 4096 = 0 → ∀ i, (m.setEntry dst j (m.entry src j)).table f i =
        if (f, i) = (dst, ⟨j, hj⟩) then m.table src ⟨j, hj⟩ else m.table f i :=
      fun f hf i => table_setEntry hf hd i ⟨j, hj⟩ (m.entry src j)
    rw [copyEntries, ih (fun i hi => his i (by simp [hi])), hset f hf, hset src hs]
    by_cases hfd : f = dst
    · subst hfd
      by_cases hij : i = ⟨j, hj⟩
      · subst hij
        simp [hne]
      · have hval : i.val ≠ j := fun h => hij (Fin.ext h)
        simp [hij, hval, hne]
    · simp [hfd]

theorem words_setEntry {m : Memory} {g : Nat} {j : Fin 512} {e : BitVec 64} {a : Nat}
    (h : ¬ (g ≤ a ∧ a < g + 4096)) : (m.setEntry g j e).words a = m.words a := by
  have hj := j.isLt
  have hne : a ≠ g + 8 * j.val := by omega
  simp [setEntry, hne]

theorem words_zeroFrame {m : Memory} {g a : Nat} (h : ¬ (g ≤ a ∧ a < g + 4096)) :
    (m.zeroFrame g).words a = m.words a := by
  simp [zeroFrame, h]

theorem words_copyEntries {dst src a : Nat} (h : ¬ (dst ≤ a ∧ a < dst + 4096)) (is : List Nat)
    (his : ∀ i ∈ is, i < 512) (m : Memory) : (m.copyEntries dst src is).words a = m.words a := by
  induction is generalizing m with
  | nil => rfl
  | cons j js ih =>
    have hj : j < 512 := his j (by simp)
    rw [copyEntries, ih (fun i hi => his i (by simp [hi])), words_setEntry (j := ⟨j, hj⟩) h]

theorem copyEntries_alloc (dst src : Nat) (is : List Nat) (m : Memory) :
    (m.copyEntries dst src is).alloc = m.alloc ∧
      (m.copyEntries dst src is).activePml4 = m.activePml4 := by
  induction is generalizing m with
  | nil => exact ⟨rfl, rfl⟩
  | cons j js ih => exact ih (m.setEntry dst j (m.entry src j))

/-- Rewriting an entry with its own value changes nothing. -/
theorem setEntry_self (m : Memory) (f i : Nat) : m.setEntry f i (m.entry f i) = m := by
  have hwords : (m.setEntry f i (m.entry f i)).words = m.words := by
    funext a
    simp only [setEntry, entry]
    split
    · rename_i ha
      rw [ha]
    · rfl
  exact congrArg (fun w => ({ m with words := w } : Memory)) hwords

end Memory

end Runix
