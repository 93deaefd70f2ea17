import Mathlib.Logic.Relation
import Mathlib.Logic.Function.Basic
import Mathlib.Order.Bounds.Basic
import Mathlib.Data.Fintype.Card

namespace Runix.Lib

/-- Records kept at places. Each has a key and may name the key of the record
it was derived from. -/
structure Lineage (α κ : Type) where
  key : α → κ
  parent : α → Option κ

namespace Lineage

variable {ι α κ : Type} (L : Lineage α κ)

/-- The record has the key among its ancestors, following parent links through
records of the store. -/
inductive Descends (s : ι → Option α) (r : κ) : α → Prop where
  | child {c : α} (hp : L.parent c = some r) : Descends s r c
  | step {c d : α} {p : ι} (hp : L.parent c = some (L.key d)) (hd : s p = some d)
      (tail : Descends s r d) : Descends s r c

abbrev Cascade (ι α κ : Type) := (ι → Option α) × List κ

inductive Prune [DecidableEq ι] : Cascade ι α κ → Cascade ι α κ → Prop where
  | mk {s : ι → Option α} {rs : List κ} {p : ι} {c : α} {k : κ} (hc : s p = some c)
      (hp : L.parent c = some k) (hk : k ∈ rs) :
      Prune (s, rs) (Function.update s p none, rs ++ [L.key c])

def Closed (w : Cascade ι α κ) : Prop :=
  ∀ p c k, w.1 p = some c → L.parent c = some k → k ∉ w.2

/-- The facts a cascade from `s` keeps: it only removes, what it removes
descends from `r`, and the removed keys are recorded. -/
structure Pruned (s : ι → Option α) (r : κ) (w : Cascade ι α κ) : Prop where
  only : ∀ p, w.1 p = s p ∨ w.1 p = none
  sound : ∀ p c, s p = some c → w.1 p = none → L.Descends s r c
  keys : ∀ p c, s p = some c → w.1 p = none → L.key c ∈ w.2
  root : r ∈ w.2
  source : ∀ k ∈ w.2, k = r ∨ ∃ p c, s p = some c ∧ L.key c = k ∧ L.Descends s r c

variable {L} {s : ι → Option α} {r : κ} {w w' : Cascade ι α κ}

theorem pruned_refl (s : ι → Option α) (r : κ) : L.Pruned s r (s, [r]) where
  only p := .inl rfl
  sound p c hc hn := by simp [hc] at hn
  keys p c hc hn := by simp [hc] at hn
  root := by simp
  source k hk := .inl (by simpa using hk)

theorem Pruned.kept (hw : L.Pruned s r w) {p : ι} {c : α} (h : w.1 p = some c) :
    s p = some c := by
  rcases hw.only p with he | he
  · exact he.symm.trans h
  · cases he.symm.trans h

/-- What a cascade leaves after one record was taken out was there before. -/
theorem Pruned.kept_cleared [DecidableEq ι] {p q : ι} {c : α}
    (hw : L.Pruned (Function.update s p none) r w) (h : w.1 q = some c) :
    q ≠ p ∧ s q = some c := by
  have hq := hw.kept h
  by_cases hqp : q = p
  · simp [hqp] at hq
  · exact ⟨hqp, by simpa [Function.update_of_ne hqp] using hq⟩

theorem Pruned.step [DecidableEq ι] (hw : L.Pruned s r w) (h : L.Prune w w') :
    L.Pruned s r w' := by
  obtain @⟨u, rs, p, c, k, hc, hp, hk⟩ := h
  have hsc : s p = some c := hw.kept hc
  have hd : L.Descends s r c := by
    rcases hw.source k hk with rfl | ⟨q, d, hq, rfl, hd⟩
    · exact .child hp
    · exact .step hp hq hd
  refine ⟨fun q => ?_, fun q d hq hn => ?_, fun q d hq hn => ?_, ?_, fun k' hk' => ?_⟩
  · by_cases hqp : q = p
    · subst hqp
      exact .inr (Function.update_self ..)
    · simpa [Function.update_of_ne hqp] using hw.only q
  · by_cases hqp : q = p
    · subst hqp
      cases hsc.symm.trans hq
      exact hd
    · exact hw.sound q d hq (by simpa [Function.update_of_ne hqp] using hn)
  · by_cases hqp : q = p
    · subst hqp
      cases hsc.symm.trans hq
      simp
    · exact List.mem_append_left _
        (hw.keys q d hq (by simpa [Function.update_of_ne hqp] using hn))
  · exact List.mem_append_left _ hw.root
  · rcases List.mem_append.mp hk' with h | h
    · exact hw.source k' h
    · exact .inr ⟨p, c, hsc, (List.mem_singleton.mp h).symm, hd⟩

theorem Pruned.steps [DecidableEq ι] (hw : L.Pruned s r w)
    (h : Relation.ReflTransGen L.Prune w w') : L.Pruned s r w' := by
  induction h with
  | refl => exact hw
  | tail _ hstep ih => exact ih.step hstep

/-- A cascade that has come to rest removed exactly the descendants. -/
theorem Pruned.exact (hw : L.Pruned s r w) (hc : L.Closed w) (p : ι) {c : α}
    (h : s p = some c) : w.1 p = none ↔ L.Descends s r c := by
  constructor
  · exact hw.sound p c h
  · intro hd
    induction hd generalizing p with
    | child hp =>
      rcases hw.only p with he | he
      · exact absurd hw.root (hc p _ _ (he.trans h) hp)
      · exact he
    | step hp hq _ ih =>
      rcases hw.only p with he | he
      · exact absurd (hw.keys _ _ hq (ih _ hq)) (hc p _ _ (he.trans h) hp)
      · exact he

/-- A set of places that holds every record derived from the key or from a record at
one of its places. -/
def Inherits (L : Lineage α κ) (s : ι → Option α) (r : κ) (R : Set ι) : Prop :=
  ∀ p c, s p = some c →
    L.parent c = some r ∨ (∃ q ∈ R, ∃ d, s q = some d ∧ L.parent c = some (L.key d)) → p ∈ R

/-- A cascade that has come to rest emptied the least such set. -/
theorem Pruned.isLeast (hw : L.Pruned s r w) (hc : L.Closed w) :
    IsLeast {R | L.Inherits s r R} {p | s p ≠ none ∧ w.1 p = none} := by
  constructor
  · intro p c hp hparent
    refine ⟨by simp [hp], (hw.exact hc p hp).mpr ?_⟩
    rcases hparent with hroot | ⟨q, ⟨_, hgone⟩, d, hq, hkey⟩
    · exact .child hroot
    · exact .step hkey hq ((hw.exact hc q hq).mp hgone)
  · rintro R hR p ⟨hsome, hgone⟩
    obtain ⟨c, hp⟩ := Option.ne_none_iff_exists'.mp hsome
    have hd := (hw.exact hc p hp).mp hgone
    clear hsome hgone
    induction hd generalizing p with
    | child hroot => exact hR p _ hp (.inl hroot)
    | step hkey hq _ ih => exact hR p _ hp (.inr ⟨_, ih hq, _, hq, hkey⟩)

structure Family (L : Lineage α κ) (s : ι → Option α) (p : ι) (R : Set ι) : Prop where
  root : p ∈ R
  derived : ∀ q ∈ R, ∀ c, s q = some c → ∀ q' d, s q' = some d → L.parent d = some (L.key c) → q' ∈ R

/-- A record that is taken out first, and then what was derived from it, are together
the record's family. -/
theorem Inherits.family [DecidableEq ι] {p : ι} {c : α} {R : Set ι} (hp : s p = some c)
    (h : IsLeast {R | L.Inherits (Function.update s p none) (L.key c) R} R) :
    IsLeast {R | L.Family s p R} (insert p R) := by
  have hother : ∀ {q d}, q ≠ p → s q = some d → Function.update s p none q = some d := by
    intro q d hq hd
    rw [Function.update_of_ne hq, hd]
  constructor
  · refine ⟨Set.mem_insert p R, fun q hq d hd q' d' hd' hparent => ?_⟩
    by_cases hq' : q' = p
    · exact hq' ▸ Set.mem_insert p R
    · refine Set.mem_insert_of_mem p (h.1 q' d' (hother hq' hd') ?_)
      by_cases hqp : q = p
      · subst hqp
        cases hp.symm.trans hd
        exact .inl hparent
      · exact .inr ⟨q, (Set.mem_insert_iff.mp hq).resolve_left hqp, d, hother hqp hd, hparent⟩
  · intro R' hR'
    refine Set.insert_subset hR'.root (h.2 (fun q d hd hparent => ?_))
    have hkept : ∀ {q d}, Function.update s p none q = some d → s q = some d := by
      intro q d hd
      by_cases hq : q = p
      · rw [hq, Function.update_self] at hd
        cases hd
      · rwa [Function.update_of_ne hq] at hd
    rcases hparent with hroot | ⟨q', hq', d', hd', hkey⟩
    · exact hR'.derived p hR'.root c hp q d (hkept hd) hroot
    · exact hR'.derived q' hq' d' (hkept hd') q d (hkept hd) hkey

section Size
variable [Fintype ι]

def occupied (s : ι → Option α) : Nat := (Finset.univ.filter (fun p => (s p).isSome)).card

theorem occupied_le (s : ι → Option α) : occupied s ≤ Fintype.card ι :=
  Finset.card_le_univ _

theorem occupied_pos {p : ι} {c : α} (h : s p = some c) : 0 < occupied s :=
  Finset.card_pos.mpr ⟨p, by simp [h]⟩

theorem occupied_remove [DecidableEq ι] {p : ι} {c : α} (h : s p = some c) :
    occupied (Function.update s p none) + 1 = occupied s := by
  have he : Finset.univ.filter (fun q => (Function.update s p none q).isSome) =
      (Finset.univ.filter (fun q => (s q).isSome)).erase p := by
    ext q
    by_cases hq : q = p <;> simp [Function.update_apply, hq]
  unfold occupied
  rw [he]
  exact Finset.card_erase_add_one (by simp [h])

/-- Every removal frees a place and records a key. -/
theorem Prune.size [DecidableEq ι] (h : L.Prune w w') :
    occupied w'.1 + w'.2.length = occupied w.1 + w.2.length := by
  obtain ⟨hc, _, _⟩ := h
  have := occupied_remove hc
  simp only [List.length_append, List.length_singleton]
  omega

theorem size_steps [DecidableEq ι] (h : Relation.ReflTransGen L.Prune w w') :
    occupied w'.1 + w'.2.length = occupied w.1 + w.2.length := by
  induction h with
  | refl => rfl
  | tail _ hstep ih => rw [hstep.size, ih]

end Size

/-- Every derived record has its donor in the store, with a smaller key and
related to it. -/
def Forest [LT κ] (L : Lineage α κ) (R : α → α → Prop) (s : ι → Option α) : Prop :=
  ∀ p c k, s p = some c → L.parent c = some k →
    ∃ q d, s q = some d ∧ L.key d = k ∧ k < L.key c ∧ R d c

/-- Following the parent links ends at a record without parent. -/
theorem Forest.root [LT κ] [WellFoundedLT κ] {R : α → α → Prop} (hf : L.Forest R s)
    {p : ι} {c : α} (hc : s p = some c) :
    ∃ q d, s q = some d ∧ L.parent d = none ∧ (d = c ∨ L.Descends s (L.key d) c) ∧
      Relation.ReflTransGen R d c := by
  induction hk : L.key c using WellFoundedLT.induction generalizing p c with
  | ind k ih =>
    subst hk
    cases hp : L.parent c with
    | none => exact ⟨p, c, hc, hp, .inl rfl, .refl⟩
    | some k =>
      obtain ⟨q, d, hd, rfl, hlt, hr⟩ := hf p c k hc hp
      obtain ⟨q', e, he, hroot, hdesc, hre⟩ := ih _ hlt hd rfl
      refine ⟨q', e, he, hroot, .inr ?_, hre.tail hr⟩
      rcases hdesc with rfl | h
      · exact .child hp
      · exact .step hp hd h

/-- Adding a record next to its donor keeps the forest. -/
theorem Forest.insert [LT κ] [DecidableEq ι] {R : α → α → Prop} (hf : L.Forest R s) {p : ι}
    {c : α} (hp : s p = none) (hc : ∀ k, L.parent c = some k →
      ∃ q d, s q = some d ∧ L.key d = k ∧ k < L.key c ∧ R d c) :
    L.Forest R (Function.update s p (some c)) := by
  have hkeep : ∀ q d, s q = some d → Function.update s p (some c) q = some d := by
    intro q d hq
    rw [Function.update_of_ne (fun he => by simp [he, hp] at hq), hq]
  intro q e k hq hk
  by_cases hqp : q = p
  · subst hqp
    rw [Function.update_self] at hq
    cases hq
    obtain ⟨q', d, hd, hrest⟩ := hc k hk
    exact ⟨q', d, hkeep _ _ hd, hrest⟩
  · rw [Function.update_of_ne hqp] at hq
    obtain ⟨q', d, hd, hrest⟩ := hf q e k hq hk
    exact ⟨q', d, hkeep _ _ hd, hrest⟩

/-- Removing a record and, to the end, all its descendants keeps the forest. -/
theorem Forest.pruned [LT κ] {R : α → α → Prop} {s₀ : ι → Option α} (hf : L.Forest R s₀)
    (p₀ : ι) (h₀ : ∀ p, p ≠ p₀ → s p = s₀ p) (hroot : ∀ c, s₀ p₀ = some c → L.key c = r)
    (hp₀ : s p₀ = none) (hw : L.Pruned s r w) (hc : L.Closed w) : L.Forest R w.1 := by
  intro p c k hp hk
  have hsp : s p = some c := hw.kept hp
  have hne : p ≠ p₀ := by
    rintro rfl
    simp [hp₀] at hsp
  obtain ⟨q, d, hd, rfl, hlt, hr⟩ := hf p c k (h₀ p hne ▸ hsp) hk
  refine ⟨q, d, ?_, rfl, hlt, hr⟩
  by_cases hq : q = p₀
  · subst hq
    exact absurd (hroot d hd ▸ hw.root) (hc p c _ hp hk)
  · rw [← h₀ q hq] at hd
    rcases hw.only q with h | h
    · exact h.trans hd
    · exact absurd (hw.keys q d hd h) (hc p c _ hp hk)

end Lineage

end Runix.Lib
