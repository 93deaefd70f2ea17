import Mathlib.Data.List.Basic
import Mathlib.Data.List.DropRight
import Mathlib.Data.Nat.ModEq
import Mathlib.Logic.Function.Basic

namespace Runix.Lib

section
variable {α : Type} {n : Nat} [NeZero n]

/-- The first entry from one absolute position up to another that meets a
condition, with its position. The entry of position `i` is in slot `i % n`. -/
def scan (buffer : Fin n → α) (p : α → Bool) (start stop : Nat) : Option (Nat × α) :=
  ((List.range' start (stop - start)).find? (fun i => p (buffer (Fin.ofNat n i)))).map
    (fun i => (i, buffer (Fin.ofNat n i)))

/-- The buffer holds the last `n` of the entries written so far. -/
structure Journal (buffer : Fin n → α) (pos : Nat) (es : List α) : Prop where
  length : es.length = pos
  entry : ∀ i, i < pos → pos ≤ i + n → es[i]? = some (buffer (Fin.ofNat n i))

variable {buffer : Fin n → α} {p : α → Bool} {start stop pos i : Nat} {x : α} {es : List α}

theorem scan_some (h : scan buffer p start stop = some (i, x)) :
    start ≤ i ∧ i < stop ∧ x = buffer (Fin.ofNat n i) ∧ p x = true ∧
      ∀ j, start ≤ j → j < i → p (buffer (Fin.ofNat n j)) = false := by
  obtain ⟨j, hj, hpair⟩ := Option.map_eq_some_iff.mp h
  cases hpair
  obtain ⟨hp, before, after, hsplit, hbefore⟩ := List.find?_eq_some_iff_append.mp hj
  have hmem : i ∈ List.range' start (stop - start) := by
    rw [hsplit]
    exact List.mem_append_right _ List.mem_cons_self
  obtain ⟨hle, hlt⟩ := List.mem_range'_1.mp hmem
  refine ⟨hle, by omega, rfl, hp, fun k hk hki => ?_⟩
  have hk' : k ∈ List.range' start (stop - start) := List.mem_range'_1.mpr ⟨hk, by omega⟩
  have hsorted : (before ++ i :: after).Pairwise (· < ·) := by
    rw [← hsplit]
    exact List.pairwise_lt_range'
  rw [hsplit] at hk'
  rcases List.mem_append.mp hk' with hin | hin
  · simpa using hbefore k hin
  · have hge : i ≤ k := by
      rcases List.mem_cons.mp hin with rfl | hin
      · exact Nat.le_refl _
      · exact Nat.le_of_lt ((List.pairwise_cons.mp (List.pairwise_append.mp hsorted).2.1).1 k hin)
    omega

theorem scan_none (h : scan buffer p start stop = none) (hle : start ≤ i) (hlt : i < stop) :
    p (buffer (Fin.ofNat n i)) = false := by
  have hfind := Option.map_eq_none_iff.mp h
  have hno := List.find?_eq_none.mp hfind i (List.mem_range'_1.mpr ⟨hle, by omega⟩)
  simpa using hno

theorem Journal.new (buffer : Fin n → α) : Journal buffer 0 [] :=
  ⟨rfl, fun _ h => absurd h (Nat.not_lt_zero _)⟩

/-- Two positions less than a turn apart are in different slots. -/
theorem slot_ne {j k : Nat} (hlt : j < k) (hn : k < j + n) : Fin.ofNat n j ≠ Fin.ofNat n k := by
  intro he
  have hmod : j % n = k % n := congrArg Fin.val he
  have hsub : k - j ≡ 0 [MOD n] := (Nat.modEq_iff_dvd' (Nat.le_of_lt hlt)).mp hmod |>.modEq_zero_nat
  have hzero := Nat.eq_zero_of_dvd_of_lt ((Nat.modEq_zero_iff_dvd).mp hsub) (by omega)
  omega

theorem Journal.push (h : Journal buffer pos es) (x : α) :
    Journal (Function.update buffer (Fin.ofNat n pos) x) (pos + 1) (es ++ [x]) := by
  refine ⟨by rw [List.length_append, List.length_singleton, h.length], fun i hi hn => ?_⟩
  by_cases he : i = pos
  · subst he
    rw [List.getElem?_append_right (by rw [h.length]), h.length, Nat.sub_self,
      Function.update_self]
    rfl
  · have hlt : i < pos := by omega
    rw [List.getElem?_append_left (by rw [h.length]; exact hlt),
      Function.update_of_ne (slot_ne hlt (by omega)), h.entry i hlt (by omega)]

/-- The last entries, read off the slots of their positions. -/
theorem Journal.latest (h : Journal buffer pos es) {k : Nat} (hn : k ≤ n) (hpos : k ≤ pos) :
    (List.range k).map (fun i => buffer (Fin.ofNat n (pos - k + i))) = es.rtake k := by
  apply List.ext_getElem?
  intro i
  rw [List.rtake, List.getElem?_drop, h.length]
  by_cases hi : i < k
  · rw [h.entry (pos - k + i) (by omega) (by omega), List.getElem?_map, List.getElem?_range hi]
    rfl
  · rw [List.getElem?_eq_none (by simpa using hi),
      List.getElem?_eq_none (by rw [h.length]; omega)]

end

end Runix.Lib
