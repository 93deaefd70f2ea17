import Mathlib.Data.List.Nodup
import Mathlib.Data.List.Pairwise
import Mathlib.Logic.Function.Basic

namespace Runix.Lib

structure Tally where
  hits : Nat
  misses : Nat
  evictions : Nat

structure Lru (ι α : Type) where
  sets : ι → List α
  tally : Tally

section
variable {ι α : Type} [DecidableEq ι] [DecidableEq α] {ways : Nat} {keys : List α} {x : α}

def Tally.use (t : Tally) (ways : Nat) (keys : List α) (x : α) : Tally :=
  if x ∈ keys then { t with hits := t.hits + 1 }
  else if keys.length = ways then
    { t with misses := t.misses + 1, evictions := t.evictions + 1 }
  else { t with misses := t.misses + 1 }

theorem Tally.use_total (t : Tally) (ways : Nat) (keys : List α) (x : α) :
    (t.use ways keys x).hits + (t.use ways keys x).misses = t.hits + t.misses + 1 := by
  unfold Tally.use
  split
  · exact Nat.succ_add _ _
  · split <;> rfl

theorem Tally.use_evictions (t : Tally) (ways : Nat) (keys : List α) (x : α)
    (h : t.evictions ≤ t.misses) : (t.use ways keys x).evictions ≤ (t.use ways keys x).misses := by
  unfold Tally.use
  split
  · exact h
  · split
    · exact Nat.succ_le_succ h
    · exact Nat.le_succ_of_le h

structure Tally.Beats (t t' : Tally) : Prop where
  hits : t'.hits ≤ t.hits
  misses : t.misses ≤ t'.misses

def touch (ways : Nat) (keys : List α) (x : α) : List α := (x :: keys.erase x).take ways

namespace Lru

def empty : Lru ι α := ⟨fun _ => [], 0, 0, 0⟩

def use (ways : Nat) (c : Lru ι α) (u : ι × α) : Lru ι α :=
  ⟨Function.update c.sets u.1 (touch ways (c.sets u.1) u.2), c.tally.use ways (c.sets u.1) u.2⟩

def count (ways : Nat) (uses : List (ι × α)) : Tally := (uses.foldl (use ways) empty).tally

end Lru

theorem touch_of_mem (h : x ∈ keys) (hlen : keys.length ≤ ways) :
    touch ways keys x = x :: keys.erase x := by
  apply List.take_of_length_le
  rw [List.length_cons, List.length_erase_of_mem h]
  have := List.length_pos_of_mem h
  omega

theorem touch_of_lt (h : x ∉ keys) (hlen : keys.length < ways) : touch ways keys x = x :: keys := by
  rw [touch, List.erase_of_not_mem h]
  exact List.take_of_length_le hlen

theorem touch_of_full (h : x ∉ keys) (hlen : keys.length = ways) (hpos : 0 < ways) :
    touch ways keys x = x :: keys.dropLast := by
  rw [touch, List.erase_of_not_mem h, List.dropLast_eq_take, hlen]
  cases ways with
  | zero => cases hpos
  | succ n => rfl

/-- Removing a key from the front of a list concerns one place more than it leaves. -/
theorem take_erase (n : Nat) (keys : List α) (x : α) :
    ((keys.take (n + 1)).erase x).take n = (keys.erase x).take n := by
  induction keys generalizing n with
  | nil => rfl
  | cons y ys ih =>
    rw [List.take_succ_cons]
    by_cases hy : y = x
    · subst hy
      rw [List.erase_cons_head, List.erase_cons_head, List.take_take, Nat.min_self]
    · rw [List.erase_cons_tail (by simpa using hy), List.erase_cons_tail (by simpa using hy)]
      cases n with
      | zero => rfl
      | succ n => rw [List.take_succ_cons, List.take_succ_cons, ih]

/-- Inclusion: the smaller set stays the front of the larger one. -/
theorem touch_take {small large : Nat} (h : small ≤ large) (keys : List α) (x : α) :
    touch small (keys.take small) x = (touch large keys x).take small := by
  unfold touch
  rw [List.take_take, Nat.min_eq_left h]
  cases small with
  | zero => rfl
  | succ n => rw [List.take_succ_cons, List.take_succ_cons, take_erase]

theorem Tally.Beats.use {t t' : Tally} {small large : Nat} (h : t.Beats t') (keys : List α) (x : α) :
    (t.use large keys x).Beats (t'.use small (keys.take small) x) := by
  have hhits := h.hits
  have hmisses := h.misses
  unfold Tally.use
  by_cases hx : x ∈ keys
  · rw [if_pos hx]
    split_ifs <;> constructor <;> simp only <;> omega
  · have hfront : x ∉ keys.take small := fun hmem => hx (List.mem_of_mem_take hmem)
    rw [if_neg hx, if_neg hfront]
    split_ifs <;> constructor <;> simp only <;> omega

namespace Lru

/-- Every set of one cache is the front of that set in the other, whose tally is no
worse. -/
structure Includes (small : Nat) (c c' : Lru ι α) : Prop where
  sets : ∀ i, c'.sets i = (c.sets i).take small
  tally : c.tally.Beats c'.tally

theorem Includes.use {small large : Nat} {c c' : Lru ι α} (hle : small ≤ large)
    (h : Includes small c c') (u : ι × α) : Includes small (c.use large u) (c'.use small u) where
  sets i := by
    change Function.update c'.sets _ _ i = (Function.update c.sets _ _ i).take small
    by_cases hi : i = u.1
    · subst hi
      rw [Function.update_self, Function.update_self, h.sets, touch_take hle]
    · rw [Function.update_of_ne hi, Function.update_of_ne hi, h.sets]
  tally := by
    change (c.tally.use large (c.sets u.1) u.2).Beats (c'.tally.use small (c'.sets u.1) u.2)
    rw [h.sets]
    exact h.tally.use (c.sets u.1) u.2

/-- More ways in the same sets are never worse. -/
theorem count_beats {small large : Nat} (hle : small ≤ large) (uses : List (ι × α)) :
    (count large uses).Beats (count small uses) := by
  have hrun : ∀ (c c' : Lru ι α), Includes small c c' →
      Includes small (uses.foldl (Lru.use large) c) (uses.foldl (Lru.use small) c') := by
    induction uses with
    | nil => exact fun _ _ h => h
    | cons u us ih => exact fun c c' h => ih _ _ (h.use hle u)
  exact (hrun empty empty ⟨fun _ => List.take_nil.symm, Nat.le_refl _, Nat.le_refl _⟩).tally

end Lru
end

section Stamps
variable {ι : Type} {used : ι → Prop} {stamp : ι → Nat} {order : List ι} {i : ι}

structure Recent (used : ι → Prop) (stamp : ι → Nat) (order : List ι) : Prop where
  mem : ∀ i, i ∈ order ↔ used i
  sorted : order.Pairwise (fun i j => stamp j < stamp i)

namespace Recent

theorem nodup (h : Recent used stamp order) : order.Nodup := by
  refine h.sorted.imp ?_
  intro i j hlt he
  subst he
  exact Nat.lt_irrefl _ hlt

theorem congr {used' : ι → Prop} {stamp' : ι → Nat} (h : Recent used stamp order)
    (hused : ∀ i, used' i ↔ used i) (hstamp : ∀ i, used i → stamp' i = stamp i) :
    Recent used' stamp' order where
  mem i := (h.mem i).trans (hused i).symm
  sorted := by
    refine h.sorted.imp_of_mem ?_
    intro i j hi hj hlt
    rw [hstamp i ((h.mem i).mp hi), hstamp j ((h.mem j).mp hj)]
    exact hlt

variable [DecidableEq ι]

/-- Stamping a cell with a later time brings it to the front. -/
theorem use {now : Nat} (h : Recent used stamp order) (i : ι) (hnow : ∀ j, used j → stamp j < now) :
    Recent (fun j => j = i ∨ used j) (Function.update stamp i now) (i :: order.erase i) where
  mem j := by
    rw [List.mem_cons, h.nodup.mem_erase_iff, h.mem]
    by_cases hj : j = i <;> simp [hj]
  sorted := by
    refine List.pairwise_cons.mpr ⟨fun j hj => ?_, ?_⟩
    · obtain ⟨hne, hmem⟩ := h.nodup.mem_erase_iff.mp hj
      rw [Function.update_self, Function.update_of_ne hne]
      exact hnow j ((h.mem j).mp hmem)
    · refine (h.sorted.sublist (List.erase_sublist)).imp_of_mem ?_
      intro j k hj hk hlt
      rw [Function.update_of_ne (h.nodup.mem_erase_iff.mp hj).1,
        Function.update_of_ne (h.nodup.mem_erase_iff.mp hk).1]
      exact hlt

/-- The cell with the earliest stamp stands last. -/
theorem erase_least (h : Recent used stamp order) (hi : used i)
    (hleast : ∀ j, used j → stamp i ≤ stamp j) : order.erase i = order.dropLast := by
  have hmem : i ∈ order := (h.mem i).mpr hi
  obtain ⟨front, back, rfl⟩ := List.append_of_mem hmem
  have hback : back = [] := by
    cases back with
    | nil => rfl
    | cons j rest =>
      have hlt : stamp j < stamp i :=
        List.rel_of_pairwise_cons (List.pairwise_append.mp h.sorted).2.1 List.mem_cons_self
      have hle := hleast j ((h.mem j).mp (by simp))
      omega
  subst hback
  have hfront : i ∉ front := fun hf =>
    (List.nodup_append.mp h.nodup).2.2 i hf i List.mem_cons_self rfl
  rw [List.erase_append_right _ hfront, List.erase_cons_head, List.append_nil, List.dropLast_concat]

end Recent

/-- Along keys that differ, removing a cell removes its key. -/
theorem map_erase_of_nodup {α : Type} [DecidableEq ι] [DecidableEq α] {key : ι → α} (h : (order.map key).Nodup)
    (hi : i ∈ order) : (order.erase i).map key = (order.map key).erase (key i) := by
  induction order with
  | nil => cases hi
  | cons j js ih =>
    rw [List.map_cons, List.nodup_cons] at h
    by_cases hj : j = i
    · subst hj
      rw [List.erase_cons_head, List.map_cons, List.erase_cons_head]
    · have hmem : i ∈ js := (List.mem_cons.mp hi).resolve_left (Ne.symm hj)
      have hkey : key j ≠ key i := fun he => h.1 (he ▸ List.mem_map_of_mem hmem)
      rw [List.erase_cons_tail (by simpa using hj), List.map_cons, List.map_cons,
        List.erase_cons_tail (by simpa using hkey), ih h.2 hmem]

end Stamps
end Runix.Lib
