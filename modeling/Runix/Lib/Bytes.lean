import Mathlib.Data.List.Basic
import Mathlib.Logic.Function.Basic
import Mathlib.Algebra.Group.Nat.Defs

namespace Runix.Lib

section Tables
variable {α : Type} {n : Nat} {f : Fin n → α} {i : Nat}

/-- `table[i]`; `none` is an access out of bounds. -/
def index (f : Fin n → α) (i : Nat) : Option α := if h : i < n then some (f ⟨i, h⟩) else none

/-- `table[i] = x` -/
def assign (f : Fin n → α) (i : Nat) (x : α) : Option (Fin n → α) :=
  if h : i < n then some (Function.update f ⟨i, h⟩ x) else none

theorem index_of_lt (h : i < n) : index f i = some (f ⟨i, h⟩) := dif_pos h

theorem assign_of_lt (h : i < n) (x : α) : assign f i x = some (Function.update f ⟨i, h⟩ x) :=
  dif_pos h

theorem index_some {x : α} (h : index f i = some x) : ∃ hi : i < n, x = f ⟨i, hi⟩ := by
  unfold index at h
  split at h
  · rename_i hi
    exact ⟨hi, (Option.some.inj h).symm⟩
  · cases h

@[simp] theorem index_val (i : Fin n) : index f i = some (f i) := index_of_lt i.isLt

@[simp] theorem assign_val (i : Fin n) (x : α) : assign f i x = some (Function.update f i x) :=
  assign_of_lt i.isLt x

end Tables

section Arrays
variable {α : Type} {n : Nat} {v v' : Vector α n} {l src : List α} {lo hi : Nat}

/-- `&v[lo..hi]`; `none` is an access out of bounds. -/
def slice (v : Vector α n) (lo hi : Nat) : Option (List α) :=
  if lo ≤ hi ∧ hi ≤ n then some ((v.toList.take hi).drop lo) else none

/-- The array with a list written over its elements from `lo` on. -/
def overwrite (v : Vector α n) (lo : Nat) (src : List α) : Vector α n :=
  Vector.ofFn (fun i => if lo ≤ i then (src[i - lo]?).getD v[i] else v[i])

/-- `v[lo..hi].copy_from_slice(src)`; `none` when the range is out of bounds or has
another length. -/
def copySlice (v : Vector α n) (lo hi : Nat) (src : List α) : Option (Vector α n) :=
  if lo ≤ hi ∧ hi ≤ n ∧ src.length = hi - lo then some (overwrite v lo src) else none

/-- `v[i] = x` -/
def store (v : Vector α n) (i : Nat) (x : α) : Option (Vector α n) :=
  if h : i < n then some (v.set i x h) else none

def Begins (v : Vector α n) (l : List α) : Prop := v.toList.take l.length = l

theorem slice_of_le (hlo : lo ≤ hi) (hhi : hi ≤ n) :
    slice v lo hi = some ((v.toList.take hi).drop lo) := if_pos ⟨hlo, hhi⟩

theorem slice_length (h : slice v lo hi = some l) : l.length = hi - lo ∧ lo ≤ hi ∧ hi ≤ n := by
  unfold slice at h
  split at h
  · rename_i hb
    cases h
    refine ⟨?_, hb⟩
    rw [List.length_drop, List.length_take, Vector.length_toList]
    omega
  · cases h

theorem copySlice_of_length (hhi : lo + src.length ≤ n) :
    copySlice v lo (lo + src.length) src = some (overwrite v lo src) :=
  if_pos ⟨Nat.le_add_right _ _, hhi, by omega⟩

theorem copySlice_eq (hlo : lo ≤ hi) (hhi : hi ≤ n) (hsrc : src.length = hi - lo) :
    copySlice v lo hi src = some (overwrite v lo src) := if_pos ⟨hlo, hhi, hsrc⟩

theorem getElem_overwrite {i : Nat} (h : i < n) :
    (overwrite v lo src)[i] = if lo ≤ i then (src[i - lo]?).getD v[i] else v[i] := by
  simp [overwrite]

/-- What is written stands between what was there. -/
theorem toList_overwrite (h : lo + src.length ≤ n) :
    (overwrite v lo src).toList =
      v.toList.take lo ++ src ++ v.toList.drop (lo + src.length) := by
  apply List.ext_getElem?
  intro i
  by_cases hi : i < n
  · have hlen : i < (overwrite v lo src).toList.length := by simpa using hi
    rw [List.getElem?_eq_getElem hlen, Vector.getElem_toList, getElem_overwrite hi]
    by_cases hlo : lo ≤ i
    · by_cases hsrc : i - lo < src.length
      · simp only [hlo, if_true]
        rw [List.append_assoc, List.getElem?_append_right (by simp; omega)]
        simp only [List.length_take, Vector.length_toList]
        rw [show min lo n = lo by omega, List.getElem?_append_left hsrc,
          List.getElem?_eq_getElem hsrc]
        rfl
      · simp only [hlo, if_true]
        rw [List.getElem?_eq_none (by omega), List.getElem?_append_right (by simp; omega)]
        simp only [List.length_append, List.length_take, Vector.length_toList, List.getElem?_drop]
        rw [show lo + src.length + (i - (min lo n + src.length)) = i by omega]
        simp [hi]
    · simp only [hlo, if_false]
      rw [List.append_assoc, List.getElem?_append_left (by simp; omega), List.getElem?_take]
      simp [hi, Nat.lt_of_not_le hlo]
  · rw [List.getElem?_eq_none (by simpa using hi), List.getElem?_eq_none (by simp; omega)]

theorem begins_slice (h : Begins v l) (hl : l.length ≤ n) : slice v 0 l.length = some l := by
  rw [slice_of_le (Nat.zero_le _) hl, List.drop_zero, h]

/-- A part of what the array starts with. -/
theorem Begins.slice {pre mid post : List α} (h : Begins v (pre ++ mid ++ post)) (hlo : lo = pre.length)
    (hhi : hi = pre.length + mid.length) (hn : hi ≤ n) : slice v lo hi = some mid := by
  subst hlo hhi
  have hlen : pre.length + mid.length = (pre ++ mid).length := List.length_append.symm
  have hle : (pre ++ mid).length ≤ (pre ++ mid ++ post).length := by
    simp only [List.length_append]
    exact Nat.le_add_right _ _
  have htake : v.toList.take (pre.length + mid.length) = pre ++ mid := by
    have hpart := congrArg (List.take (pre ++ mid).length) h
    rw [List.take_take, Nat.min_eq_left hle, List.take_left] at hpart
    rw [hlen, hpart]
  rw [slice_of_le (Nat.le_add_right _ _) hn, htake, List.drop_left]

theorem Begins.getElem? {pre post : List α} {x : α} (h : Begins v (pre ++ x :: post)) {i : Nat}
    (hi : i = pre.length) (hn : i < n) : v[i]? = some x := by
  subst hi
  have hget := congrArg (fun l => l[pre.length]?) h
  simp only [List.getElem?_take, List.length_append, List.length_cons] at hget
  rw [if_pos (by omega), List.getElem?_append_right (Nat.le_refl _), Nat.sub_self] at hget
  simpa [hn] using hget

/-- Writing behind what the array starts with. -/
theorem Begins.overwrite (h : Begins v l) (hl : l.length + src.length ≤ n) :
    Begins (overwrite v l.length src) (l ++ src) := by
  unfold Begins
  rw [toList_overwrite hl, h, List.length_append, ← List.length_append]
  exact List.take_left

theorem Begins.copySlice (h : Begins v l) (lo hi : Nat) (src : List α) (hlo : lo = l.length)
    (hhi : hi = l.length + src.length) (hn : hi ≤ n) : ∃ v', copySlice v lo hi src = some v' ∧ Begins v' (l ++ src) := by
  subst hlo hhi
  exact ⟨_, copySlice_of_length hn, h.overwrite hn⟩

/-- Writing at the front of an array. -/
theorem copySlice_front (v : Vector α n) (src : List α) (hn : src.length ≤ n) :
    ∃ v', Lib.copySlice v 0 src.length src = some v' ∧ Begins v' src := by
  have hempty : Begins v [] := List.take_zero
  exact hempty.copySlice 0 src.length src rfl (Nat.zero_add _).symm hn

theorem Begins.store (h : Begins v l) (i : Nat) (x : α) (hi : i = l.length) (hn : i < n) :
    ∃ v', store v i x = some v' ∧ Begins v' (l ++ [x]) := by
  subst hi
  refine ⟨v.set l.length x, dif_pos hn, ?_⟩
  have hset : v.set l.length x = Lib.overwrite v l.length [x] := by
    apply Vector.ext
    intro j hj
    rw [getElem_overwrite hj, Vector.getElem_set]
    by_cases heq : l.length = j
    · subst heq
      simp
    · by_cases hle : l.length ≤ j
      · have hpos : j - l.length ≠ 0 := by omega
        rw [if_neg heq, if_pos hle, List.getElem?_eq_none (by simp; omega)]
        rfl
      · rw [if_neg heq, if_neg hle]
  rw [hset]
  exact h.overwrite hn

end Arrays

/-- The `k` low bytes of a number, least significant first. -/
def leBytes : Nat → Nat → List UInt8
  | 0, _ => []
  | k + 1, x => UInt8.ofNat x :: leBytes k (x / 256)

def ofLeBytes (bs : List UInt8) : Nat := bs.foldr (fun b x => b.toNat + 256 * x) 0

@[simp] theorem length_leBytes (k x : Nat) : (leBytes k x).length = k := by
  induction k generalizing x with
  | zero => rfl
  | succ k ih => rw [leBytes, List.length_cons, ih]

theorem ofLeBytes_leBytes {k x : Nat} (h : x < 256 ^ k) : ofLeBytes (leBytes k x) = x := by
  induction k generalizing x with
  | zero =>
    rw [pow_zero, Nat.lt_one_iff] at h
    rw [h]
    rfl
  | succ k ih =>
    have hrest : x / 256 < 256 ^ k := by
      rw [pow_succ] at h
      exact Nat.div_lt_of_lt_mul (by rwa [Nat.mul_comm] at h)
    have hstep : ofLeBytes (leBytes (k + 1) x) =
        (UInt8.ofNat x).toNat + 256 * ofLeBytes (leBytes k (x / 256)) := rfl
    rw [hstep, ih hrest, UInt8.toNat_ofNat']
    omega

end Runix.Lib
