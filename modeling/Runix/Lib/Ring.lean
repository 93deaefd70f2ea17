import Mathlib.Data.List.Basic
import Mathlib.Data.Nat.ModEq
import Mathlib.Logic.Function.Basic

namespace Runix.Lib

/-- A bounded ring over a fixed buffer. The bookkeeping of head, tail, count
and of the occupied slots is part of the type. -/
structure Ring (α : Type) (n : Nat) where
  buffer : Fin n → Option α
  head : Nat
  tail : Nat
  count : Nat
  head_lt : head < n
  count_le : count ≤ n
  tail_eq : tail = (head + count) % n
  filled : ∀ k (hk : k < n),
    (buffer ⟨(head + k) % n, Nat.mod_lt _ (Nat.lt_of_le_of_lt (Nat.zero_le k) hk)⟩).isSome =
      decide (k < count)

namespace Ring
variable {α : Type} {n : Nat}

theorem pos (q : Ring α n) : 0 < n := Nat.lt_of_le_of_lt (Nat.zero_le _) q.head_lt

theorem tail_lt (q : Ring α n) : q.tail < n := by
  rw [q.tail_eq]
  exact Nat.mod_lt _ q.pos

def slot (q : Ring α n) (k : Nat) : Fin n := ⟨(q.head + k) % n, Nat.mod_lt _ q.pos⟩

theorem slot_injective (q : Ring α n) {j k : Nat} (hj : j < n) (hk : k < n)
    (h : q.slot j = q.slot k) : j = k := by
  have hm : q.head + j ≡ q.head + k [MOD n] := congrArg Fin.val h
  exact (Nat.ModEq.add_left_cancel' q.head hm).eq_of_lt_of_lt hj hk

theorem slot_zero (q : Ring α n) : (⟨q.head, q.head_lt⟩ : Fin n) = q.slot 0 :=
  Fin.ext (Nat.mod_eq_of_lt q.head_lt).symm

theorem slot_tail (q : Ring α n) : (⟨q.tail, q.tail_lt⟩ : Fin n) = q.slot q.count :=
  Fin.ext q.tail_eq

/-- Moving the head on by one shifts every distance by one. -/
theorem slot_succ (q : Ring α n) (k : Nat) :
    (⟨((q.head + 1) % n + k) % n, Nat.mod_lt _ q.pos⟩ : Fin n) = q.slot (k + 1) := by
  apply Fin.ext
  change ((q.head + 1) % n + k) % n = (q.head + (k + 1)) % n
  rw [Nat.mod_add_mod]
  congr 1
  omega

def contents (q : Ring α n) : List α :=
  (List.range q.count).filterMap (fun k => q.buffer (q.slot k))

def empty (hn : 0 < n) : Ring α n where
  buffer := fun _ => none
  head := 0
  tail := 0
  count := 0
  head_lt := hn
  count_le := Nat.zero_le n
  tail_eq := by simp
  filled := by simp

def enqueue (q : Ring α n) (x : α) : Option (Ring α n) :=
  if hfull : q.count = n then none
  else some
    { buffer := Function.update q.buffer ⟨q.tail, q.tail_lt⟩ (some x)
      head := q.head
      tail := (q.tail + 1) % n
      count := q.count + 1
      head_lt := q.head_lt
      count_le := by have := q.count_le; omega
      tail_eq := by rw [q.tail_eq, Nat.mod_add_mod, Nat.add_assoc]
      filled := by
        have hlt : q.count < n := by have := q.count_le; omega
        intro k hk
        change (Function.update q.buffer _ (some x) (q.slot k)).isSome = _
        rw [q.slot_tail]
        by_cases he : k = q.count
        · simp [he]
        · have hne : q.slot k ≠ q.slot q.count := fun h => he (q.slot_injective hk hlt h)
          rw [Function.update_of_ne hne]
          rw [show (q.buffer (q.slot k)).isSome = _ from q.filled k hk]
          exact decide_eq_decide.mpr (by omega) }

def map {β : Type} (f : α → β) (q : Ring α n) : Ring β n where
  buffer := fun i => (q.buffer i).map f
  head := q.head
  tail := q.tail
  count := q.count
  head_lt := q.head_lt
  count_le := q.count_le
  tail_eq := q.tail_eq
  filled k hk := Option.isSome_map.trans (q.filled k hk)

def dequeue (q : Ring α n) : Option α × Ring α n :=
  if hempty : q.count = 0 then (none, q)
  else (q.buffer ⟨q.head, q.head_lt⟩,
    { buffer := Function.update q.buffer ⟨q.head, q.head_lt⟩ none
      head := (q.head + 1) % n
      tail := q.tail
      count := q.count - 1
      head_lt := Nat.mod_lt _ q.pos
      count_le := by have := q.count_le; omega
      tail_eq := by
        rw [q.tail_eq, Nat.mod_add_mod]
        congr 1
        omega
      filled := by
        have hc := q.count_le
        intro k hk
        rw [q.slot_succ, q.slot_zero]
        by_cases he : k + 1 < n
        · have hne : q.slot (k + 1) ≠ q.slot 0 := fun h => by
            have := q.slot_injective he q.pos h
            omega
          rw [Function.update_of_ne hne]
          rw [show (q.buffer (q.slot (k + 1))).isSome = _ from q.filled (k + 1) he]
          exact decide_eq_decide.mpr (by omega)
        · have hw : q.slot (k + 1) = q.slot 0 := by
            apply Fin.ext
            change (q.head + (k + 1)) % n = (q.head + 0) % n
            rw [show k + 1 = n by omega, Nat.add_mod_right, Nat.add_zero]
          rw [hw, Function.update_self]
          simp only [Option.isSome_none, Bool.false_eq, decide_eq_false_iff_not]
          omega })

theorem isSome_slot (q : Ring α n) {k : Nat} (hk : k < q.count) :
    ∃ x, q.buffer (q.slot k) = some x := by
  have h := q.filled k (Nat.lt_of_lt_of_le hk q.count_le)
  exact Option.isSome_iff_exists.mp (h.trans (decide_eq_true hk))

theorem length_contents (q : Ring α n) : q.contents.length = q.count := by
  have h : ∀ c ≤ q.count,
      ((List.range c).filterMap (fun k => q.buffer (q.slot k))).length = c := by
    intro c hc
    induction c with
    | zero => rfl
    | succ c ih =>
      obtain ⟨x, hx⟩ := q.isSome_slot hc
      simp [List.range_succ, List.filterMap_append, hx, ih (by omega)]
  exact h q.count (Nat.le_refl _)

theorem contents_eq_nil (q : Ring α n) : q.contents = [] ↔ q.count = 0 := by
  rw [← q.length_contents, List.length_eq_zero_iff]

@[simp] theorem contents_map {β : Type} (f : α → β) (q : Ring α n) :
    (q.map f).contents = q.contents.map f :=
  (List.map_filterMap ..).symm

@[simp] theorem contents_empty (hn : 0 < n) : (empty hn : Ring α n).contents = [] := rfl

/-- An accepted element goes behind everything already waiting. -/
theorem contents_enqueue {q q' : Ring α n} {x : α} (h : q.enqueue x = some q') :
    q'.contents = q.contents ++ [x] := by
  unfold enqueue at h
  split at h
  · cases h
  · rename_i hfull
    have hlt : q.count < n := by have := q.count_le; omega
    cases h
    unfold contents
    change (List.range (q.count + 1)).filterMap
      (fun k => Function.update q.buffer _ (some x) (q.slot k)) = _
    rw [q.slot_tail, List.range_succ, List.filterMap_append]
    congr 1
    · apply List.filterMap_congr
      intro k hk
      have hk := List.mem_range.mp hk
      apply Function.update_of_ne
      intro he
      have := q.slot_injective (by omega) hlt he
      omega
    · simp

theorem enqueue_none {q : Ring α n} {x : α} : q.enqueue x = none ↔ q.count = n := by
  unfold enqueue
  split <;> simp_all

/-- Dequeuing splits the contents at their oldest element. -/
theorem contents_dequeue (q : Ring α n) :
    (q.contents = [] ∧ q.dequeue = (none, q)) ∨
    ∃ x q', q.dequeue = (some x, q') ∧ q.contents = x :: q'.contents := by
  unfold dequeue
  split
  · rename_i hempty
    exact .inl ⟨q.contents_eq_nil.mpr hempty, rfl⟩
  · rename_i hempty
    right
    obtain ⟨x, hx⟩ := q.isSome_slot (k := 0) (by omega)
    rw [← q.slot_zero] at hx
    refine ⟨x, _, Prod.ext hx rfl, ?_⟩
    obtain ⟨c, hc⟩ : ∃ c, q.count = c + 1 := ⟨q.count - 1, by omega⟩
    have hp : q.count - 1 = c := by omega
    unfold contents
    change (List.range q.count).filterMap (fun k => q.buffer (q.slot k)) =
      x :: (List.range (q.count - 1)).filterMap (fun k =>
        Function.update q.buffer ⟨q.head, q.head_lt⟩ none
          ⟨((q.head + 1) % n + k) % n, Nat.mod_lt _ q.pos⟩)
    rw [hp, hc, List.range_succ_eq_map,
      List.filterMap_cons_some (by rw [← q.slot_zero]; exact hx), List.filterMap_map]
    congr 1
    apply List.filterMap_congr
    intro k hk
    have hk := List.mem_range.mp hk
    rw [q.slot_succ, q.slot_zero]
    symm
    apply Function.update_of_ne
    intro he
    have hle := q.count_le
    have := q.slot_injective (by omega) q.pos he
    omega

end Ring

end Runix.Lib
