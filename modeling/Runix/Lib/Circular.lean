import Mathlib.Data.List.Basic
import Mathlib.Data.Nat.ModEq
import Runix.Lib.Bytes

namespace Runix.Lib

structure Circular (α : Type) (n : Nat) where
  data : Fin n → α
  head : Nat
  tail : Nat
  count : Nat

namespace Circular
variable {α : Type} {n : Nat}

def new (x : α) : Circular α n := ⟨fun _ => x, 0, 0, 0⟩

def reset (q : Circular α n) : Circular α n := { q with head := 0, tail := 0, count := 0 }

/-- Appends at the tail and says whether there was room; `none` is an access out
of bounds. -/
def push (q : Circular α n) (x : α) : Option (Bool × Circular α n) :=
  if q.count < n then
    (assign q.data q.tail x).map (fun data =>
      (true, { q with data := data, tail := (q.tail + 1) % n, count := q.count + 1 }))
  else some (false, q)

def pop (q : Circular α n) : Option (Option α × Circular α n) :=
  if 0 < q.count then
    (index q.data q.head).map (fun x =>
      (some x, { q with head := (q.head + 1) % n, count := q.count - 1 }))
  else some (none, q)

structure Wf (q : Circular α n) : Prop where
  head_lt : q.head < n
  count_le : q.count ≤ n
  tail_eq : q.tail = (q.head + q.count) % n

def contents (q : Circular α n) : List α :=
  (List.range q.count).filterMap (fun k => index q.data ((q.head + k) % n))

variable {q q' : Circular α n} {x : α} {b : Bool}

theorem new_wf (hn : 0 < n) (x : α) : (new x : Circular α n).Wf :=
  ⟨hn, Nat.zero_le n, (Nat.mod_eq_of_lt hn).symm⟩

theorem reset_wf (hn : 0 < n) (q : Circular α n) : q.reset.Wf :=
  ⟨hn, Nat.zero_le n, (Nat.mod_eq_of_lt hn).symm⟩

@[simp] theorem contents_reset (q : Circular α n) : q.reset.contents = [] := rfl

@[simp] theorem contents_new (x : α) : (new x : Circular α n).contents = [] := rfl

theorem Wf.pos (h : q.Wf) : 0 < n := Nat.lt_of_le_of_lt (Nat.zero_le _) h.head_lt

theorem Wf.tail_lt (h : q.Wf) : q.tail < n := by
  rw [h.tail_eq]
  exact Nat.mod_lt _ h.pos

theorem Wf.length_contents (h : q.Wf) : q.contents.length = q.count := by
  have hsome : ∀ k ∈ List.range q.count,
      index q.data ((q.head + k) % n) = some (q.data ⟨(q.head + k) % n, Nat.mod_lt _ h.pos⟩) :=
    fun k _ => index_of_lt (Nat.mod_lt _ h.pos)
  unfold contents
  rw [List.filterMap_congr hsome, List.filterMap_eq_map', List.length_map, List.length_range]

/-- No other waiting element is in the slot at the tail. -/
theorem Wf.slot_ne_tail (h : q.Wf) {k : Nat} (hk : k < q.count) (hroom : q.count < n) :
    (q.head + k) % n ≠ q.tail := by
  rw [h.tail_eq]
  intro he
  have hm : q.head + k ≡ q.head + q.count [MOD n] := he
  have hk' := (Nat.ModEq.add_left_cancel' q.head hm).eq_of_lt_of_lt (by omega) hroom
  omega

theorem Wf.push_room (h : q.Wf) (hroom : q.count < n) (x : α) :
    ∃ q', q.push x = some (true, q') ∧ q'.Wf ∧ q'.contents = q.contents ++ [x] := by
  have hpush : q.push x = some (true, { q with
      data := Function.update q.data ⟨q.tail, h.tail_lt⟩ x
      tail := (q.tail + 1) % n, count := q.count + 1 }) := by
    rw [push, if_pos hroom, assign_of_lt h.tail_lt, Option.map_some]
  refine ⟨_, hpush, ⟨h.head_lt, hroom, ?_⟩, ?_⟩
  · change (q.tail + 1) % n = (q.head + (q.count + 1)) % n
    rw [h.tail_eq, Nat.mod_add_mod, Nat.add_assoc]
  · unfold contents
    dsimp only
    rw [List.range_succ, List.filterMap_append]
    congr 1
    · apply List.filterMap_congr
      intro k hk
      have hlt : (q.head + k) % n < n := Nat.mod_lt _ h.pos
      rw [index_of_lt hlt, index_of_lt hlt, Function.update_of_ne]
      intro he
      exact h.slot_ne_tail (List.mem_range.mp hk) hroom (congrArg Fin.val he)
    · have hlast : (q.head + q.count) % n = q.tail := h.tail_eq.symm
      rw [List.filterMap_cons, hlast, index_of_lt h.tail_lt, Function.update_self]
      rfl

theorem push_full (hfull : ¬ q.count < n) (x : α) : q.push x = some (false, q) := if_neg hfull

theorem pop_empty (hzero : q.count = 0) : q.pop = some (none, q) :=
  if_neg (by omega)

theorem Wf.pop_front (h : q.Wf) (hpos : 0 < q.count) :
    ∃ x q', q.pop = some (some x, q') ∧ q'.Wf ∧ q.contents = x :: q'.contents ∧
      q'.count = q.count - 1 := by
  have hpop : q.pop = some (some (q.data ⟨q.head, h.head_lt⟩),
      { q with head := (q.head + 1) % n, count := q.count - 1 }) := by
    rw [pop, if_pos hpos, index_of_lt h.head_lt, Option.map_some]
  refine ⟨_, _, hpop, ⟨Nat.mod_lt _ h.pos, ?_, ?_⟩, ?_, rfl⟩
  · have := h.count_le
    change q.count - 1 ≤ n
    omega
  · change q.tail = ((q.head + 1) % n + (q.count - 1)) % n
    rw [h.tail_eq, Nat.mod_add_mod]
    congr 1
    omega
  · unfold contents
    obtain ⟨m, hm⟩ : ∃ m, q.count = m + 1 := ⟨q.count - 1, by omega⟩
    rw [hm, List.range_succ_eq_map, List.filterMap_cons, Nat.add_zero,
      Nat.mod_eq_of_lt h.head_lt, index_of_lt h.head_lt, List.filterMap_map]
    change _ :: _ = _ :: _
    congr 1
    apply List.filterMap_congr
    intro k _
    change index q.data ((q.head + (k + 1)) % n) = index q.data (((q.head + 1) % n + k) % n)
    rw [Nat.mod_add_mod]
    congr 2
    omega

theorem Wf.pop_some (h : q.Wf) : ∃ x q', q.pop = some (x, q') := by
  by_cases hpos : 0 < q.count
  · obtain ⟨x, q', hpop, _⟩ := h.pop_front hpos
    exact ⟨some x, q', hpop⟩
  · exact ⟨none, q, pop_empty (by omega)⟩

theorem Wf.push_some (h : q.Wf) (x : α) : ∃ b q', q.push x = some (b, q') := by
  by_cases hroom : q.count < n
  · obtain ⟨q', hpush, _⟩ := h.push_room hroom x
    exact ⟨true, q', hpush⟩
  · exact ⟨false, q, push_full hroom x⟩

theorem room_of_push (hp : q.push x = some (true, q')) : q.count < n := by
  by_contra hfull
  cases (push_full hfull x).symm.trans hp

theorem Wf.contents_push (h : q.Wf) (hp : q.push x = some (true, q')) :
    q'.contents = q.contents ++ [x] := by
  obtain ⟨q'', hq'', _, hcontents⟩ := h.push_room (room_of_push hp) x
  cases hp.symm.trans hq''
  exact hcontents

theorem Wf.full_of_push (h : q.Wf) (hp : q.push x = some (false, q')) : q.count = n := by
  by_contra hne
  have hle := h.count_le
  obtain ⟨q'', hq'', _⟩ := h.push_room (by omega) x
  cases hq''.symm.trans hp

theorem Wf.contents_pop (h : q.Wf) (hp : q.pop = some (some x, q')) :
    q.contents = x :: q'.contents := by
  by_cases hpos : 0 < q.count
  · obtain ⟨y, q'', hy, _, hcontents, _⟩ := h.pop_front hpos
    cases hy.symm.trans hp
    exact hcontents
  · cases (pop_empty (Nat.eq_zero_of_not_pos hpos)).symm.trans hp

/-- Nothing is taken only from an empty ring. -/
theorem Wf.pop_none (h : q.Wf) (hp : q.pop = some (none, q')) : q.count = 0 := by
  by_contra hne
  obtain ⟨x, q'', hx, _⟩ := h.pop_front (Nat.pos_of_ne_zero hne)
  cases hx.symm.trans hp

theorem Wf.pop (h : q.Wf) {o : Option α} (hp : q.pop = some (o, q')) : q'.Wf := by
  by_cases hpos : 0 < q.count
  · obtain ⟨y, q'', hy, hwf, _⟩ := h.pop_front hpos
    cases hy.symm.trans hp
    exact hwf
  · cases (pop_empty (Nat.eq_zero_of_not_pos hpos)).symm.trans hp
    exact h

theorem Wf.push (h : q.Wf) (hp : q.push x = some (b, q')) : q'.Wf := by
  by_cases hroom : q.count < n
  · obtain ⟨q'', hq'', hwf, _⟩ := h.push_room hroom x
    cases hp.symm.trans hq''
    exact hwf
  · cases hp.symm.trans (push_full hroom x)
    exact h

/-- An empty ring has nothing waiting and only an empty one. -/
theorem Wf.contents_eq_nil (h : q.Wf) : q.contents = [] ↔ q.count = 0 := by
  rw [← List.length_eq_zero_iff, h.length_contents]

end Circular

end Runix.Lib
