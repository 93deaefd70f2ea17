import Mathlib.Logic.Function.Basic
import Mathlib.Data.List.Infix

namespace Runix.Lib

/-- A format of table entries. `depth` tables lead from a root to a leaf entry;
a present entry that is `final` ends the walk early. The paths in `own` are
those on which the tables of a forest hang. -/
structure Radix (ν ι ε : Type) where
  present : ε → Bool
  final : ε → Bool
  child : ε → ν
  link : ν → ε
  depth : Nat
  own : List ι → Prop
  own_of_append : ∀ p q, own (p ++ q) → own p

namespace Radix

variable {ν ι ε : Type} (R : Radix ν ι ε)

def walk (s : ν → ι → ε) : ν → List ι → Option (List ε)
  | _, [] => some []
  | n, i :: is =>
    if R.present (s n i) then
      if R.final (s n i) then some [s n i]
      else (walk s (R.child (s n i)) is).map (fun es => s n i :: es)
    else none

def cells (s : ν → ι → ε) : ν → List ι → List (ν × ι)
  | _, [] => []
  | n, i :: is =>
    (n, i) :: if R.present (s n i) && !R.final (s n i) then cells s (R.child (s n i)) is else []

structure Linkable (n : ν) : Prop where
  present : R.present (R.link n) = true
  final : R.final (R.link n) = false
  child : R.child (R.link n) = n

/-- The tables with a position form disjoint trees: on the paths of the forest
a table's entries are absent or link to the table at the longer path. Since
positions are a function, no table hangs in two places. -/
structure Forest (s : ν → ι → ε) (pos : ν → Option (ν × List ι)) : Prop where
  linkable : ∀ n x, pos n = some x → R.Linkable n
  linked : ∀ n r p i, pos n = some (r, p) → p.length + 1 < R.depth → R.own (p ++ [i]) →
    R.present (s n i) = true → ∃ g, s n i = R.link g ∧ pos g = some (r, p ++ [i])

variable {R} {s s' : ν → ι → ε} {pos : ν → Option (ν × List ι)}

/-- A walk depends only on what it reads. -/
theorem walk_congr {n : ν} {is : List ι} (h : ∀ c ∈ R.cells s n is, s' c.1 c.2 = s c.1 c.2) :
    R.walk s' n is = R.walk s n is := by
  induction is generalizing n with
  | nil => rfl
  | cons i is ih =>
    have hhead : s' n i = s n i := h (n, i) (by simp [cells])
    unfold walk
    rw [hhead]
    by_cases hp : R.present (s n i) = true
    · by_cases hf : R.final (s n i) = true
      · simp [hp, hf]
      · rw [ih]
        intro c hc
        exact h c (by simp [cells, hp, hf, hc])
    · simp [hp]

theorem cells_congr {n : ν} {is : List ι} (h : ∀ c ∈ R.cells s n is, s' c.1 c.2 = s c.1 c.2) :
    R.cells s' n is = R.cells s n is := by
  induction is generalizing n with
  | nil => rfl
  | cons i is ih =>
    rw [cells, List.forall_mem_cons] at h
    rw [cells, cells, h.1]
    split
    · rename_i hp
      rw [if_pos hp] at h
      rw [ih h.2]
    · rfl

/-- The same from another table with the same first entry. -/
theorem walk_congr_of_head {n n' : ν} {i : ι} {is : List ι} (hhead : s' n' i = s n i)
    (h : ∀ c ∈ R.cells s n (i :: is), s' c.1 c.2 = s c.1 c.2) :
    R.walk s' n' (i :: is) = R.walk s n (i :: is) := by
  have hsame : s' n i = s n i := h (n, i) (by simp [cells])
  rw [← walk_congr h]
  unfold walk
  rw [hhead, hsame]

theorem walk_link {n g : ν} {i : ι} {is : List ι} (hg : R.Linkable g) (h : s n i = R.link g) :
    R.walk s n (i :: is) = (R.walk s g is).map (fun es => R.link g :: es) := by
  simp [walk, h, hg.present, hg.final, hg.child]

theorem walk_absent {n : ν} {i : ι} {is : List ι} (h : R.present (s n i) = false) :
    R.walk s n (i :: is) = none := by
  simp [walk, h]

theorem walk_last {n : ν} {i : ι} (h : R.present (s n i) = true) :
    R.walk s n [i] = some [s n i] := by
  unfold walk
  rw [if_pos h]
  split <;> rfl

/-- A walk in a forest depends only on the tables along its path. -/
theorem Forest.walk_agree (hf : R.Forest s pos) {n r : ν} {p is : List ι}
    (hn : pos n = some (r, p)) (hlen : p.length + is.length = R.depth) (hown : R.own (p ++ is))
    (hagree : ∀ m q i, pos m = some (r, q) → q ++ [i] <+: p ++ is → s' m i = s m i) :
    R.walk s' n is = R.walk s n is := by
  induction is generalizing n p with
  | nil => rfl
  | cons i is ih =>
    have hassoc : p ++ i :: is = (p ++ [i]) ++ is := by simp
    have hhead : s' n i = s n i := hagree n p i hn (hassoc ▸ List.prefix_append _ _)
    cases hp : R.present (s n i) with
    | false => rw [walk_absent (hhead ▸ hp), walk_absent hp]
    | true =>
      cases is with
      | nil => rw [walk_last (hhead ▸ hp), walk_last hp, hhead]
      | cons j js =>
        simp only [List.length_cons] at hlen
        obtain ⟨g, hlink, hg⟩ := hf.linked n r p i hn (by omega)
          (R.own_of_append _ (j :: js) (hassoc ▸ hown)) hp
        have hlinkable := hf.linkable g _ hg
        rw [walk_link hlinkable (hhead.trans hlink), walk_link hlinkable hlink]
        congr 1
        refine ih hg (by simp; omega) (hassoc ▸ hown) fun m q i' hm hpre => ?_
        exact hagree m q i' hm (hassoc ▸ hpre)

/-- The same forest in a store that agrees on all its tables. -/
theorem Forest.congr (hf : R.Forest s pos) (h : ∀ n x i, pos n = some x → s' n i = s n i) :
    R.Forest s' pos where
  linkable := hf.linkable
  linked n r p i hn hlen hown hp := by
    rw [h n _ i hn] at hp ⊢
    exact hf.linked n r p i hn hlen hown hp

/-- Leaf entries may hold anything. -/
theorem Forest.set_leaf (hf : R.Forest s pos) {n r : ν} {p : List ι} {i : ι}
    (hn : pos n = some (r, p)) (hlen : p.length + 1 = R.depth)
    (h : ∀ m x j, pos m = some x → (m, j) ≠ (n, i) → s' m j = s m j) : R.Forest s' pos where
  linkable := hf.linkable
  linked m r' q j hm hlen' hown hp := by
    have hne : (m, j) ≠ (n, i) := by
      rintro ⟨⟩
      cases hn.symm.trans hm
      omega
    rw [h m _ j hm hne] at hp ⊢
    exact hf.linked m r' q j hm hlen' hown hp

section
variable [DecidableEq ν]

theorem pos_update {g n : ν} {x y : ν × List ι} (h : Function.update pos g (some x) n = some y) :
    (n = g ∧ y = x) ∨ (n ≠ g ∧ pos n = some y) := by
  by_cases hng : n = g
  · subst hng
    rw [Function.update_self, Option.some.injEq] at h
    exact .inl ⟨rfl, h.symm⟩
  · rw [Function.update_of_ne hng] at h
    exact .inr ⟨hng, h⟩

theorem pos_update_of_some {g n : ν} {x y : ν × List ι} (hg : pos g = none) (h : pos n = some y) :
    Function.update pos g (some x) n = some y := by
  rw [Function.update_of_ne, h]
  rintro rfl
  cases hg.symm.trans h

/-- A new tree: a table without entries on the paths of the forest. -/
theorem Forest.plant (hf : R.Forest s pos) {g : ν} (hg : pos g = none) (hlink : R.Linkable g)
    (hagree : ∀ n x i, pos n = some x → s' n i = s n i)
    (hempty : ∀ i, R.own [i] → R.present (s' g i) = false) :
    R.Forest s' (Function.update pos g (some (g, []))) where
  linkable n x hn := by
    rcases pos_update hn with ⟨rfl, _⟩ | ⟨_, hn⟩
    · exact hlink
    · exact hf.linkable n x hn
  linked n r p i hn hlen hown hp := by
    rcases pos_update hn with ⟨rfl, he⟩ | ⟨_, hn⟩
    · cases he
      rw [hempty i hown] at hp
      cases hp
    · rw [hagree n _ i hn] at hp ⊢
      obtain ⟨g', hlink', hg'⟩ := hf.linked n r p i hn hlen hown hp
      exact ⟨g', hlink', pos_update_of_some hg hg'⟩

structure Attach (R : Radix ν ι ε) (s s' : ν → ι → ε) (pos : ν → Option (ν × List ι))
    (n r : ν) (p : List ι) (i : ι) (g : ν) : Prop where
  parent : pos n = some (r, p)
  inner : p.length + 1 < R.depth
  absent : R.present (s n i) = false
  fresh : pos g = none
  linkable : R.Linkable g
  agree : ∀ m x j, pos m = some x → (m, j) ≠ (n, i) → s' m j = s m j
  set : s' n i = R.link g
  empty : ∀ j, R.present (s' g j) = false

variable {n r g : ν} {p : List ι} {i : ι}

theorem Forest.attach (hf : R.Forest s pos) (h : R.Attach s s' pos n r p i g) :
    R.Forest s' (Function.update pos g (some (r, p ++ [i]))) where
  linkable m x hm := by
    rcases pos_update hm with ⟨rfl, _⟩ | ⟨_, hm⟩
    · exact h.linkable
    · exact hf.linkable m x hm
  linked m r' q j hm hlen hown hp := by
    rcases pos_update hm with ⟨rfl, _⟩ | ⟨_, hm⟩
    · rw [h.empty j] at hp
      cases hp
    · by_cases hcell : (m, j) = (n, i)
      · cases hcell
        cases h.parent.symm.trans hm
        exact ⟨g, h.set, Function.update_self ..⟩
      · rw [h.agree m _ j hm hcell] at hp ⊢
        obtain ⟨g', hlink', hg'⟩ := hf.linked m r' q j hm hlen hown hp
        exact ⟨g', hlink', pos_update_of_some h.fresh hg'⟩

/-- Linking an empty table changes no walk of the forest: where it is met, the
walk failed one entry earlier before. -/
theorem Forest.attach_walk (hf : R.Forest s pos) (h : R.Attach s s' pos n r p i g) {m r' : ν}
    {q is : List ι} (hm : pos m = some (r', q)) (hlen : q.length + is.length = R.depth)
    (hown : R.own (q ++ is)) : R.walk s' m is = R.walk s m is := by
  induction is generalizing m q with
  | nil => rfl
  | cons j js ih =>
    simp only [List.length_cons] at hlen
    have hassoc : q ++ j :: js = (q ++ [j]) ++ js := by simp
    by_cases hcell : (m, j) = (n, i)
    · cases hcell
      cases h.parent.symm.trans hm
      rw [walk_link h.linkable h.set, walk_absent h.absent]
      cases js with
      | nil =>
        have := h.inner
        simp only [List.length_nil] at hlen
        omega
      | cons j' js' => rw [walk_absent (h.empty j'), Option.map_none]
    · have hhead : s' m j = s m j := h.agree m _ j hm hcell
      cases hp : R.present (s m j) with
      | false => rw [walk_absent (hhead ▸ hp), walk_absent hp]
      | true =>
        cases js with
        | nil => rw [walk_last (hhead ▸ hp), walk_last hp, hhead]
        | cons j' js' =>
          simp only [List.length_cons] at hlen
          obtain ⟨g', hlink, hg'⟩ := hf.linked m r' q j hm (by omega)
            (R.own_of_append _ (j' :: js') (hassoc ▸ hown)) hp
          have hlinkable := hf.linkable g' _ hg'
          rw [walk_link hlinkable (hhead.trans hlink), walk_link hlinkable hlink,
            ih hg' (by simp; omega) (hassoc ▸ hown)]

end
end Radix

end Runix.Lib
