import Mathlib.Data.Finset.Card
import Mathlib.Data.Fintype.Card
import Mathlib.Data.Set.Card
import Mathlib.Data.Set.Finite.Range
import Mathlib.Data.List.FinRange
import Mathlib.Data.List.OfFn
import Mathlib.Data.List.Sort
import Mathlib.Logic.Function.Basic

namespace Runix.Lib

/-- A search over the indices in order finds the lowest one. -/
theorem find_finRange {n : Nat} {p : Fin n → Bool} {i : Fin n} :
    (List.finRange n).find? p = some i ↔ p i = true ∧ ∀ j < i, ¬ p j = true := by
  rw [← List.ofFn_id]
  exact List.find?_ofFn_eq_some_of_injective Function.injective_id

abbrev Table (n : Nat) (K V : Type) := Fin n → Option (K × V)

namespace Table
variable {n : Nat} {K V : Type}

def free (t : Table n K V) : Option (Fin n) :=
  (List.finRange n).find? (fun i => (t i).isNone)

def push (t : Table n K V) (k : K) (v : V) : Table n K V :=
  match t.free with
  | some i => Function.update t i (some (k, v))
  | none => t

def Distinct (t : Table n K V) : Prop :=
  ∀ i j k v w, t i = some (k, v) → t j = some (k, w) → i = j

section
variable {t : Table n K V} {k : K} {v : V} {i : Fin n}

theorem free_some (h : t.free = some i) : t i = none := by
  have hi := List.find?_some h
  simpa using hi

theorem free_none (h : t.free = none) (i : Fin n) : ∃ k v, t i = some (k, v) := by
  have hi := List.find?_eq_none.mp h i (List.mem_finRange i)
  obtain ⟨⟨k, v⟩, hv⟩ := Option.ne_none_iff_exists'.mp (fun he => hi (Option.isNone_iff_eq_none.mpr he))
  exact ⟨k, v, hv⟩

theorem free_le {j : Fin n} (h : t.free = some i) (hj : t j = none) : i ≤ j := by
  by_contra hlt
  exact (find_finRange.mp h).2 j (not_le.mp hlt) (by rw [hj]; rfl)

theorem push_eq_some {e : K × V} (h : t.push k v i = some e) : e = (k, v) ∨ t i = some e := by
  cases hfree : t.free with
  | none =>
    simp only [push, hfree] at h
    exact .inr h
  | some j =>
    simp only [push, hfree, Function.update_apply] at h
    split at h
    · exact .inl (Option.some.inj h).symm
    · exact .inr h

theorem Distinct.update (h : t.Distinct) (hi : ∀ j v, t j = some (k, v) → j = i) :
    Distinct (Function.update t i (some (k, v))) := by
  intro a b key x y ha hb
  simp only [Function.update_apply] at ha hb
  split at ha
  · rename_i hai
    cases ha
    split at hb
    · rename_i hbi
      rw [hai, hbi]
    · rw [hai, hi b y hb]
  · split at hb
    · rename_i hbi
      cases hb
      rw [hbi, hi a x ha]
    · exact h a b key x y ha hb

theorem Distinct.erase (h : t.Distinct) (i : Fin n) : Distinct (Function.update t i none) := by
  have hold : ∀ {j e}, Function.update t i none j = some e → t j = some e := by
    intro j e hj
    by_cases hji : j = i
    · rw [hji, Function.update_self] at hj
      cases hj
    · rwa [Function.update_of_ne hji] at hj
  exact fun a b key x y ha hb => h a b key x y (hold ha) (hold hb)

end

variable [DecidableEq K]

def held (k : K) : Option (K × V) → Option V
  | some (k', v) => if k' = k then some v else none
  | none => none

def lookup (t : Table n K V) (k : K) : Option V :=
  (List.finRange n).findSome? (fun i => held k (t i))

def slotOf (t : Table n K V) (k : K) : Option (Fin n) :=
  (List.finRange n).find? (fun i => (held k (t i)).isSome)

def put (t : Table n K V) (k : K) (v : V) : Table n K V :=
  match t.slotOf k with
  | some i => Function.update t i (some (k, v))
  | none => t.push k v

variable {t : Table n K V} {k k' : K} {v w : V} {i : Fin n}

theorem held_eq_some {e : Option (K × V)} : held k e = some v ↔ e = some (k, v) := by
  cases e with
  | none => simp [held]
  | some p =>
    obtain ⟨k', v'⟩ := p
    by_cases hk : k' = k <;> simp [held, hk]

theorem held_self : held k (some (k, v)) = some v := held_eq_some.mpr rfl

theorem lookup_eq_none : t.lookup k = none ↔ ∀ i v, t i ≠ some (k, v) := by
  unfold lookup
  rw [List.findSome?_eq_none_iff]
  constructor
  · intro h i v hi
    have hnone := h i (List.mem_finRange i)
    rw [hi, held_self] at hnone
    cases hnone
  · intro h i _
    cases hv : held k (t i) with
    | none => rfl
    | some v => exact absurd (held_eq_some.mp hv) (h i v)

theorem exists_of_lookup (h : t.lookup k = some v) : ∃ i, t i = some (k, v) := by
  obtain ⟨i, _, hi⟩ := List.exists_of_findSome?_eq_some h
  exact ⟨i, held_eq_some.mp hi⟩

/-- With distinct keys every entry is found. -/
theorem Distinct.lookup_of_entry (h : t.Distinct) (hi : t i = some (k, v)) :
    t.lookup k = some v := by
  cases hl : t.lookup k with
  | none => exact absurd hi (lookup_eq_none.mp hl i v)
  | some w =>
    obtain ⟨j, hj⟩ := exists_of_lookup hl
    obtain rfl := h j i k w v hj hi
    exact congrArg (fun e => e.map Prod.snd) (hj.symm.trans hi)

theorem slotOf_some (h : t.slotOf k = some i) : ∃ w, t i = some (k, w) := by
  have hi := List.find?_some h
  obtain ⟨w, hw⟩ := Option.isSome_iff_exists.mp (show (held k (t i)).isSome = true by simpa using hi)
  exact ⟨w, held_eq_some.mp hw⟩

theorem slotOf_none (h : t.slotOf k = none) : t.lookup k = none := by
  refine lookup_eq_none.mpr (fun i v hi => ?_)
  have hnot := List.find?_eq_none.mp h i (List.mem_finRange i)
  rw [hi, held_self] at hnot
  exact hnot rfl

/-- A write to an entry that does not hold the key leaves the key alone. -/
theorem lookup_update_ne (hk : k' ≠ k) (hi : held k' (t i) = none) :
    lookup (Function.update t i (some (k, v))) k' = lookup t k' := by
  unfold lookup
  congr 1
  funext j
  by_cases hj : j = i
  · subst hj
    rw [Function.update_self, hi]
    simp [held, hk.symm]
  · rw [Function.update_of_ne hj]

theorem lookup_push_ne (hk : k' ≠ k) : (t.push k v).lookup k' = t.lookup k' := by
  unfold push
  split
  · rename_i i hi
    exact lookup_update_ne hk (by rw [free_some hi]; rfl)
  · rfl

theorem lookup_put_ne (hk : k' ≠ k) : (t.put k v).lookup k' = t.lookup k' := by
  unfold put
  split
  · rename_i i hi
    obtain ⟨w, hw⟩ := slotOf_some hi
    exact lookup_update_ne hk (by simp [hw, held, hk.symm])
  · exact lookup_push_ne hk

/-- A search that meets the new entry first finds the new value; otherwise it
finds what it found before. -/
theorem findSome_update (hi : t i = none) (is : List (Fin n))
    (h : is.findSome? (fun j => held k (Function.update t i (some (k, v)) j)) = some w) :
    w = v ∨ is.findSome? (fun j => held k (t j)) = some w := by
  induction is with
  | nil => cases h
  | cons j is ih =>
    by_cases hj : j = i
    · subst hj
      simp only [List.findSome?_cons, Function.update_self, held_self, Option.some.injEq] at h
      exact .inl h.symm
    · simp only [List.findSome?_cons, Function.update_of_ne hj] at h ⊢
      cases hv : held k (t j) with
      | none =>
        rw [hv] at h
        exact ih h
      | some x =>
        rw [hv] at h
        exact .inr h

theorem lookup_push_some (h : (t.push k v).lookup k = some w) : w = v ∨ t.lookup k = some w := by
  unfold push at h
  split at h
  · rename_i i hi
    exact findSome_update (free_some hi) _ h
  · exact .inr h

/-- A search in order finds the new value exactly when nothing before the new
entry holds the key. -/
theorem findSome_update_sorted (hi : t i = none) (is : List (Fin n))
    (hsorted : is.Pairwise (· < ·)) (hmem : i ∈ is) :
    is.findSome? (fun j => held k (Function.update t i (some (k, v)) j)) =
      if ∀ j ∈ is, j < i → held k (t j) = none then some v
      else is.findSome? (fun j => held k (t j)) := by
  induction is with
  | nil => cases hmem
  | cons j is ih =>
    obtain ⟨hlt, htail⟩ := List.pairwise_cons.mp hsorted
    by_cases hj : j = i
    · subst hj
      have hnone : ∀ a ∈ j :: is, a < j → held k (t a) = none := by
        intro a ha haj
        rcases List.mem_cons.mp ha with rfl | ha
        · exact absurd haj (lt_irrefl _)
        · exact absurd (hlt a ha) (lt_asymm haj)
      rw [if_pos hnone, List.findSome?_cons, Function.update_self, held_self]
    · have hrest : i ∈ is := (List.mem_cons.mp hmem).resolve_left (Ne.symm hj)
      simp only [List.findSome?_cons, Function.update_of_ne hj, List.forall_mem_cons, hlt i hrest,
        true_imp_iff]
      cases held k (t j) with
      | none => simpa using ih htail hrest
      | some x => simp

def Open (t : Table n K V) (k : K) : Prop := ∃ i, t i = none ∧ ∀ j < i, ∀ v, t j ≠ some (k, v)

/-- A push shows in a lookup of its key if the first free entry comes before
every entry of the key. -/
theorem lookup_push_open (h : t.Open k) : (t.push k v).lookup k = some v := by
  obtain ⟨a, ha, hbefore⟩ := h
  cases hfree : t.free with
  | none =>
    obtain ⟨k', v', hv⟩ := free_none hfree a
    cases ha.symm.trans hv
  | some i =>
    have hnone : ∀ j ∈ List.finRange n, j < i → held k (t j) = none := by
      intro j _ hj
      refine Option.eq_none_iff_forall_ne_some.mpr (fun w hw => ?_)
      have hia : i ≤ a := free_le hfree ha
      exact hbefore j (lt_of_lt_of_le hj hia) w (held_eq_some.mp hw)
    rw [push, hfree, lookup, findSome_update_sorted (free_some hfree) _
      (List.sortedLT_finRange n).pairwise (List.mem_finRange i), if_pos hnone]

theorem lookup_push_not_open (h : ¬ t.Open k) : (t.push k v).lookup k = t.lookup k := by
  cases hfree : t.free with
  | none => rw [push, hfree]
  | some i =>
    have hheld : ¬ ∀ j ∈ List.finRange n, j < i → held k (t j) = none := by
      intro hall
      refine h ⟨i, free_some hfree, fun j hj w hw => ?_⟩
      have hnone := hall j (List.mem_finRange j) hj
      rw [hw, held_self] at hnone
      cases hnone
    rw [push, hfree, lookup, findSome_update_sorted (free_some hfree) _
      (List.sortedLT_finRange n).pairwise (List.mem_finRange i), if_neg hheld]
    rfl

theorem lookup_push_self (hfree : t.free = some i) (h : t.lookup k = none) :
    (t.push k v).lookup k = some v := by
  cases hw : (t.push k v).lookup k with
  | none =>
    have hnot := lookup_eq_none.mp hw i v
    simp [push, hfree] at hnot
  | some w =>
    rcases lookup_push_some hw with rfl | hold
    · rfl
    · cases h.symm.trans hold

/-- A pushed key is found afterwards if it was before or there was room. -/
theorem lookup_push_isSome : ((t.push k v).lookup k).isSome ↔
    (t.lookup k).isSome ∨ t.free.isSome := by
  cases hfree : t.free with
  | none => simp [push, hfree]
  | some i =>
    have hmem : (t.push k v) i = some (k, v) := by simp [push, hfree]
    have hsome : ((t.push k v).lookup k).isSome := by
      rw [Option.isSome_iff_ne_none]
      exact fun hnone => lookup_eq_none.mp hnone i v hmem
    simp [hsome]

/-- The search stops at the rewritten entry. -/
theorem findSome_update_slot (is : List (Fin n))
    (h : is.find? (fun j => (held k (t j)).isSome) = some i) :
    is.findSome? (fun j => held k (Function.update t i (some (k, v)) j)) = some v := by
  induction is with
  | nil => cases h
  | cons j is ih =>
    cases hv : held k (t j) with
    | some x =>
      simp only [List.find?_cons, hv, Option.isSome_some, Option.some.injEq] at h
      subst h
      simp [held_self]
    | none =>
      simp only [List.find?_cons, hv, Option.isSome_none] at h
      have hne : j ≠ i := fun he => by
        have hi := List.find?_some h
        rw [← he, hv] at hi
        cases hi
      simp only [List.findSome?_cons, Function.update_of_ne hne, hv]
      exact ih h

theorem lookup_put_self (h : (t.lookup k).isSome ∨ t.free.isSome) :
    (t.put k v).lookup k = some v := by
  unfold put
  split
  · rename_i i hi
    exact findSome_update_slot _ hi
  · rename_i hnone
    have hno := slotOf_none hnone
    rw [hno] at h
    obtain ⟨i, hi⟩ := Option.isSome_iff_exists.mp (h.resolve_left (by simp))
    exact lookup_push_self hi hno

/-- With room, a write is an update of the finite map. -/
theorem lookup_put (h : (t.lookup k).isSome ∨ t.free.isSome) :
    (t.put k v).lookup = Function.update t.lookup k (some v) := by
  funext k'
  by_cases hk : k' = k
  · rw [hk, Function.update_self, lookup_put_self h]
  · rw [Function.update_of_ne hk, lookup_put_ne hk]

/-- Every entry after a write is the new one or was there. -/
theorem put_eq_some {e : K × V} (h : t.put k v i = some e) : e = (k, v) ∨ t i = some e := by
  cases hslot : t.slotOf k with
  | none =>
    simp only [put, hslot] at h
    exact push_eq_some h
  | some j =>
    simp only [put, hslot, Function.update_apply] at h
    split at h
    · exact .inl (Option.some.inj h).symm
    · exact .inr h

/-- With or without room, no other value is found for a written key. -/
theorem lookup_put_some (h : (t.put k v).lookup k = some w) : w = v := by
  by_cases hroom : (t.lookup k).isSome ∨ t.free.isSome
  · rw [lookup_put_self hroom] at h
    exact (Option.some.inj h).symm
  · obtain ⟨i, hi⟩ := exists_of_lookup h
    rcases put_eq_some hi with hnew | hold
    · exact (Prod.mk.inj hnew).2
    · refine absurd (.inl ?_) hroom
      rw [Option.isSome_iff_ne_none]
      exact fun hnone => lookup_eq_none.mp hnone i w hold

theorem Distinct.put (h : t.Distinct) : (t.put k v).Distinct := by
  unfold Table.put
  split
  · rename_i i hi
    obtain ⟨w, hw⟩ := slotOf_some hi
    exact h.update (fun j x hj => h j i k x w hj hw)
  · rename_i hnone
    unfold push
    split
    · exact h.update (fun j x hj => absurd hj (lookup_eq_none.mp (slotOf_none hnone) j x))
    · exact h

/-- Emptying the only entry of a key takes the key out of the map. -/
theorem Distinct.lookup_erase (h : t.Distinct) (hi : t i = some (k, v)) :
    lookup (Function.update t i none) = Function.update t.lookup k none := by
  funext k'
  by_cases hk : k' = k
  · subst hk
    rw [Function.update_self, lookup_eq_none]
    intro j w hj
    by_cases hji : j = i
    · rw [hji, Function.update_self] at hj
      cases hj
    · rw [Function.update_of_ne hji] at hj
      exact hji (h j i k' w v hj hi)
  · rw [Function.update_of_ne hk]
    unfold lookup
    congr 1
    funext j
    by_cases hji : j = i
    · rw [hji, Function.update_self, hi]
      simp [held, Ne.symm hk]
    · rw [Function.update_of_ne hji]

def keys (t : Table n K V) : Set K := {k | t.lookup k ≠ none}

/-- There are as many keys as occupied entries. -/
theorem Distinct.ncard_keys (h : t.Distinct) : t.keys.ncard = {i | t i ≠ none}.ncard := by
  have hinj : Set.InjOn (fun i => (t i).map Prod.fst) {i | t i ≠ none} := by
    intro a ha b hb hab
    obtain ⟨⟨k, x⟩, hx⟩ := Option.ne_none_iff_exists'.mp ha
    obtain ⟨⟨k', y⟩, hy⟩ := Option.ne_none_iff_exists'.mp hb
    simp only [hx, hy, Option.map_some, Option.some.injEq] at hab
    subst hab
    exact h a b k x y hx hy
  have himage : some '' t.keys = (fun i => (t i).map Prod.fst) '' {i | t i ≠ none} := by
    ext o
    constructor
    · rintro ⟨k, hk, rfl⟩
      obtain ⟨v, hv⟩ := Option.ne_none_iff_exists'.mp hk
      obtain ⟨i, hi⟩ := exists_of_lookup hv
      refine ⟨i, fun hnone => ?_, ?_⟩
      · cases hnone.symm.trans hi
      · simp only [hi, Option.map_some]
    · rintro ⟨i, hi, rfl⟩
      obtain ⟨⟨k, v⟩, hv⟩ := Option.ne_none_iff_exists'.mp hi
      refine ⟨k, fun hnone => lookup_eq_none.mp hnone i v hv, ?_⟩
      simp only [hv, Option.map_some]
  rw [← Set.ncard_image_of_injective t.keys (Option.some_injective K), himage,
    hinj.ncard_image]

theorem Distinct.ncard_keys_le (h : t.Distinct) : t.keys.ncard ≤ n := by
  rw [h.ncard_keys]
  have hle := Set.ncard_le_ncard (Set.subset_univ {i | t i ≠ none})
  rwa [Set.ncard_univ, Nat.card_eq_fintype_card, Fintype.card_fin] at hle

theorem keys_finite : t.keys.Finite := by
  have hsub : some '' t.keys ⊆ Set.range (fun i => (t i).map Prod.fst) := by
    rintro _ ⟨k, hk, rfl⟩
    obtain ⟨v, hv⟩ := Option.ne_none_iff_exists'.mp hk
    obtain ⟨i, hi⟩ := exists_of_lookup hv
    exact ⟨i, by simp only [hi, Option.map_some]⟩
  exact Set.Finite.of_finite_image ((Set.finite_range _).subset hsub)
    (Option.some_injective K).injOn

/-- The table is full when it has as many keys as entries. -/
theorem Distinct.free_eq_none (h : t.Distinct) : t.free = none ↔ t.keys.ncard = n := by
  rw [h.ncard_keys]
  constructor
  · intro hfull
    have huniv : {i | t i ≠ none} = Set.univ := Set.eq_univ_of_forall (fun i => by
      obtain ⟨k, v, hi⟩ := free_none hfull i
      exact fun hnone => by cases hnone.symm.trans hi)
    rw [huniv, Set.ncard_univ, Nat.card_eq_fintype_card, Fintype.card_fin]
  · intro hcard
    have huniv : {i | t i ≠ none} = Set.univ := by
      refine Set.eq_of_subset_of_ncard_le (Set.subset_univ _) ?_
      rw [hcard, Set.ncard_univ, Nat.card_eq_fintype_card, Fintype.card_fin]
    cases hfree : t.free with
    | none => rfl
    | some i =>
      have hi : i ∈ {i | t i ≠ none} := huniv ▸ Set.mem_univ i
      exact absurd (free_some hfree) hi

/-- A table with distinct keys out of a set has room for another key of the set,
if the set is not larger than the table. -/
theorem Distinct.room (h : t.Distinct) {keys : Finset K} (hkeys : ∀ i k v, t i = some (k, v) → k ∈ keys)
    (hk : k ∈ keys) (hcard : keys.card ≤ n) : (t.lookup k).isSome ∨ t.free.isSome := by
  by_contra hno
  simp only [not_or, Option.not_isSome_iff_eq_none] at hno
  obtain ⟨hnone, hfull⟩ := hno
  choose key val hentry using free_none hfull
  have hmaps : ∀ i ∈ Finset.univ, key i ∈ keys.erase k := fun i _ =>
    Finset.mem_erase.mpr ⟨fun he => lookup_eq_none.mp hnone i (val i) (he ▸ hentry i),
      hkeys i _ _ (hentry i)⟩
  have hinj : Set.InjOn key (Finset.univ : Finset (Fin n)) := fun i _ j _ he =>
    h i j (key i) (val i) (val j) (hentry i) (he ▸ hentry j)
  have hle := Finset.card_le_card_of_injOn key hmaps hinj
  rw [Finset.card_univ, Fintype.card_fin, Finset.card_erase_of_mem hk] at hle
  have hpos := Finset.card_pos.mpr ⟨k, hk⟩
  omega

end Table

end Runix.Lib
