import Mathlib.Logic.Function.Basic
import Mathlib.Logic.Relation

namespace Runix.Lib

/-- Records with names, kept in rows of places. A fixed record has a place of
its own and a name that is reserved for it. -/
structure Naming (τ ρ α κ : Type) where
  name : α → κ
  fixed : τ × ρ → α → Prop
  coherent : ∀ p q a b, fixed p a → fixed q b → name a = name b → p = q ∧ a = b

structure Naming.State (τ ρ α κ : Type) where
  live : τ × ρ → Option α
  saved : (ρ → Option α) → Prop
  spent : κ → Prop

namespace Naming

variable {τ ρ α κ : Type}

def State.Present (s : State τ ρ α κ) (a : α) : Prop :=
  (∃ p, s.live p = some a) ∨ ∃ r j, s.saved r ∧ r j = some a

def State.row (s : State τ ρ α κ) (i : τ) (j : ρ) : Option α := s.live (i, j)

def putRow [DecidableEq τ] (live : τ × ρ → Option α) (i : τ) (r : ρ → Option α) (p : τ × ρ) :
    Option α :=
  if p.1 = i then r p.2 else live p

variable (N : Naming τ ρ α κ)

def Reserved (k : κ) : Prop := ∃ p a, N.fixed p a ∧ N.name a = k

/-- The ways in which a disciplined system changes: it forgets, gives out a
name not yet spent, posts a fixed record, saves a row, or restores a saved row
that is live nowhere else. -/
inductive Step [DecidableEq τ] [DecidableEq ρ] : State τ ρ α κ → State τ ρ α κ → Prop where
  | drop {s t : State τ ρ α κ} (hlive : ∀ p a, t.live p = some a → s.live p = some a)
      (hsaved : ∀ r, t.saved r → s.saved r) (hspent : ∀ k, s.spent k → t.spent k) : Step s t
  | issue {s t : State τ ρ α κ} {p : τ × ρ} {a : α} (hfresh : ¬ s.spent (N.name a))
      (hfree : ¬ N.Reserved (N.name a)) (hlive : t.live = Function.update s.live p (some a))
      (hsaved : t.saved = s.saved) (hspent : ∀ k, s.spent k → t.spent k)
      (hused : t.spent (N.name a)) : Step s t
  | post {s : State τ ρ α κ} {p : τ × ρ} {a : α} (hfixed : N.fixed p a) :
      Step s { s with live := Function.update s.live p (some a) }
  | save (s : State τ ρ α κ) (i : τ) :
      Step s { s with saved := fun r => s.saved r ∨ r = s.row i }
  | restore {s : State τ ρ α κ} {i : τ} {r : ρ → Option α} (hr : s.saved r)
      (hfree : ∀ j a, r j = some a → ¬ N.Reserved (N.name a))
      (halone : ∀ j a q b, r j = some a → q.1 ≠ i → s.live q = some b → N.name b ≠ N.name a) :
      Step s { s with live := putRow s.live i r }

structure Sound (s : State τ ρ α κ) : Prop where
  distinct : ∀ p q a b, s.live p = some a → s.live q = some b → N.name a = N.name b → p = q
  rows : ∀ r, s.saved r → ∀ i j a b, r i = some a → r j = some b → N.name a = N.name b → i = j
  known : ∀ a, s.Present a →
    (s.spent (N.name a) ∧ ¬ N.Reserved (N.name a)) ∨ ∃ p, N.fixed p a
  home : ∀ p q a, s.live p = some a → N.fixed q a → p = q
  agree : ∀ a b, s.Present a → s.Present b → N.name a = N.name b → a = b

variable {N} {s t : State τ ρ α κ} {a b : α}

theorem State.present_live {p : τ × ρ} (h : s.live p = some a) : s.Present a := .inl ⟨p, h⟩

theorem State.present_saved {r : ρ → Option α} {j : ρ} (hr : s.saved r) (h : r j = some a) :
    s.Present a :=
  .inr ⟨r, j, hr, h⟩

/-- A record that is present is fixed exactly when its name is reserved. -/
theorem Sound.fixed_of_reserved (h : N.Sound s) (ha : s.Present a) {p : τ × ρ}
    (hb : N.fixed p b) (he : N.name a = N.name b) : a = b := by
  rcases h.known a ha with ⟨_, hfree⟩ | ⟨q, hq⟩
  · exact absurd ⟨p, b, hb, he.symm⟩ hfree
  · exact (N.coherent q p a b hq hb he).2

/-- The places of an updated store. -/
theorem update_cases [DecidableEq τ] [DecidableEq ρ] {live : τ × ρ → Option α} {p q : τ × ρ}
    (h : Function.update live p (some a) q = some b) :
    (q = p ∧ b = a) ∨ (q ≠ p ∧ live q = some b) := by
  by_cases hqp : q = p
  · subst hqp
    rw [Function.update_self, Option.some.injEq] at h
    exact .inl ⟨rfl, h.symm⟩
  · rw [Function.update_of_ne hqp] at h
    exact .inr ⟨hqp, h⟩

theorem putRow_cases [DecidableEq τ] {live : τ × ρ → Option α} {i : τ} {r : ρ → Option α}
    {q : τ × ρ} (h : putRow live i r q = some b) :
    (q.1 = i ∧ r q.2 = some b) ∨ (q.1 ≠ i ∧ live q = some b) := by
  unfold putRow at h
  split at h
  · rename_i hq
    exact .inl ⟨hq, h⟩
  · rename_i hq
    exact .inr ⟨hq, h⟩

/-- Names stay distinct when a record with a name unknown elsewhere is put in. -/
theorem distinct_update [DecidableEq τ] [DecidableEq ρ] {live : τ × ρ → Option α} {p : τ × ρ}
    (hd : ∀ p q a b, live p = some a → live q = some b → N.name a = N.name b → p = q)
    (hnew : ∀ q b, q ≠ p → live q = some b → N.name b ≠ N.name a) :
    ∀ q q' b b', Function.update live p (some a) q = some b →
      Function.update live p (some a) q' = some b' → N.name b = N.name b' → q = q' := by
  intro q q' b b' hq hq' he
  rcases update_cases hq with ⟨rfl, rfl⟩ | ⟨hne, hb⟩ <;>
    rcases update_cases hq' with ⟨rfl, rfl⟩ | ⟨hne', hb'⟩
  · rfl
  · exact absurd he.symm (hnew q' b' hne' hb')
  · exact absurd he (hnew q b hne hb)
  · exact hd q q' b b' hb hb' he

section
variable [DecidableEq τ] [DecidableEq ρ]

/-- Where the records of the next state come from. At most one is new. -/
theorem Step.source (h : N.Step s t) : ∃ new : Option α, ∀ a, t.Present a →
    s.Present a ∨
    (new = some a ∧ ¬ s.spent (N.name a) ∧ t.spent (N.name a) ∧ ¬ N.Reserved (N.name a)) ∨
    ∃ p, N.fixed p a := by
  cases h with
  | drop hlive hsaved _ =>
    refine ⟨none, ?_⟩
    rintro a (⟨p, hp⟩ | ⟨r, j, hr, hj⟩)
    · exact .inl (State.present_live (hlive p a hp))
    · exact .inl (State.present_saved (hsaved r hr) hj)
  | @issue _ p new hfresh hfree hlive hsaved _ hused =>
    refine ⟨some new, ?_⟩
    rintro a (⟨q, hq⟩ | ⟨r, j, hr, hj⟩)
    · rw [hlive] at hq
      rcases update_cases hq with ⟨_, rfl⟩ | ⟨_, hq⟩
      · exact .inr (.inl ⟨rfl, hfresh, hused, hfree⟩)
      · exact .inl (State.present_live hq)
    · rw [hsaved] at hr
      exact .inl (State.present_saved hr hj)
  | @post p new hfixed =>
    refine ⟨none, ?_⟩
    rintro a (⟨q, hq⟩ | ⟨r, j, hr, hj⟩)
    · rcases update_cases hq with ⟨_, rfl⟩ | ⟨_, hq⟩
      · exact .inr (.inr ⟨p, hfixed⟩)
      · exact .inl (State.present_live hq)
    · exact .inl (State.present_saved hr hj)
  | save i =>
    refine ⟨none, ?_⟩
    rintro a (⟨q, hq⟩ | ⟨r, j, hr | rfl, hj⟩)
    · exact .inl (State.present_live hq)
    · exact .inl (State.present_saved hr hj)
    · exact .inl (State.present_live hj)
  | @restore i r hr _ _ =>
    refine ⟨none, ?_⟩
    rintro a (⟨q, hq⟩ | ⟨r', j, hr', hj⟩)
    · rcases putRow_cases hq with ⟨_, hq⟩ | ⟨_, hq⟩
      · exact .inl (State.present_saved hr hq)
      · exact .inl (State.present_live hq)
    · exact .inl (State.present_saved hr' hj)

theorem Step.spent (h : N.Step s t) {k : κ} (hk : s.spent k) : t.spent k := by
  cases h with
  | drop _ _ hspent => exact hspent k hk
  | issue _ _ _ _ hspent _ => exact hspent k hk
  | post | save | restore => exact hk

theorem Step.known (h : N.Step s t) (hs : N.Sound s) (ha : t.Present a) :
    (t.spent (N.name a) ∧ ¬ N.Reserved (N.name a)) ∨ ∃ p, N.fixed p a := by
  obtain ⟨new, hsource⟩ := h.source
  rcases hsource a ha with hold | ⟨_, _, hused, hfree⟩ | hfixed
  · rcases hs.known a hold with ⟨hspent, hfree⟩ | hfixed
    · exact .inl ⟨h.spent hspent, hfree⟩
    · exact .inr hfixed
  · exact .inl ⟨hused, hfree⟩
  · exact .inr hfixed

/-- A record of the next state with the name of an old one is that one. -/
theorem Step.keeps (h : N.Step s t) (hs : N.Sound s) (ha : s.Present a) (hb : t.Present b)
    (he : N.name a = N.name b) : a = b := by
  obtain ⟨new, hsource⟩ := h.source
  rcases hsource b hb with hold | ⟨_, hfresh, _, hfree⟩ | ⟨p, hfixed⟩
  · exact hs.agree a b ha hold he
  · rcases hs.known a ha with ⟨hspent, _⟩ | ⟨p, hfixed⟩
    · exact absurd (he ▸ hspent) hfresh
    · exact absurd ⟨p, a, hfixed, he⟩ hfree
  · exact hs.fixed_of_reserved ha hfixed he

theorem Step.agree (h : N.Step s t) (hs : N.Sound s) (ha : t.Present a) (hb : t.Present b)
    (he : N.name a = N.name b) : a = b := by
  obtain ⟨new, hsource⟩ := h.source
  rcases hsource a ha with hold | ⟨hnew, _, _, hfree⟩ | ⟨p, hfixed⟩
  · exact h.keeps hs hold hb he
  · rcases hsource b hb with hold' | ⟨hnew', _⟩ | ⟨q, hfixed'⟩
    · exact (h.keeps hs hold' ha he.symm).symm
    · exact Option.some.inj (hnew.symm.trans hnew')
    · exact absurd ⟨q, b, hfixed', he.symm⟩ hfree
  · rcases h.known hs hb with ⟨_, hfree⟩ | ⟨q, hfixed'⟩
    · exact absurd ⟨p, a, hfixed, he⟩ hfree
    · exact (N.coherent p q a b hfixed hfixed' he).2

theorem Step.distinct (h : N.Step s t) (hs : N.Sound s) : ∀ p q a b, t.live p = some a →
    t.live q = some b → N.name a = N.name b → p = q := by
  cases h with
  | drop hlive _ _ =>
    intro p q a b ha hb
    exact hs.distinct p q a b (hlive p a ha) (hlive q b hb)
  | issue hfresh hfree hlive _ _ _ =>
    rw [hlive]
    refine distinct_update hs.distinct fun q b _ hb he => ?_
    rcases hs.known b (State.present_live hb) with ⟨hspent, _⟩ | ⟨p, hfixed⟩
    · exact hfresh (he ▸ hspent)
    · exact hfree ⟨p, b, hfixed, he⟩
  | @post p a hfixed =>
    refine distinct_update hs.distinct fun q b hne hb he => ?_
    cases hs.fixed_of_reserved (State.present_live hb) hfixed he
    exact hne (hs.home q p _ hb hfixed)
  | save => exact hs.distinct
  | @restore i r hr _ halone =>
    intro p q a b ha hb he
    rcases putRow_cases ha with ⟨hp, ha⟩ | ⟨hp, ha⟩ <;>
      rcases putRow_cases hb with ⟨hq, hb⟩ | ⟨hq, hb⟩
    · exact Prod.ext (hp.trans hq.symm) (hs.rows r hr p.2 q.2 a b ha hb he)
    · exact absurd he.symm (halone p.2 a q b ha hq hb)
    · exact absurd he (halone q.2 b p a hb hp ha)
    · exact hs.distinct p q a b ha hb he

theorem Step.rows (h : N.Step s t) (hs : N.Sound s) : ∀ r, t.saved r → ∀ i j a b,
    r i = some a → r j = some b → N.name a = N.name b → i = j := by
  cases h with
  | drop _ hsaved _ => exact fun r hr => hs.rows r (hsaved r hr)
  | issue _ _ _ hsaved _ _ => exact hsaved ▸ hs.rows
  | post | restore => exact hs.rows
  | save i =>
    rintro r (hr | rfl)
    · exact hs.rows r hr
    · intro j j' a b ha hb he
      exact congrArg Prod.snd (hs.distinct (i, j) (i, j') a b ha hb he)

theorem Step.home (h : N.Step s t) (hs : N.Sound s) : ∀ p q a, t.live p = some a →
    N.fixed q a → p = q := by
  cases h with
  | drop hlive _ _ => exact fun p q a ha => hs.home p q a (hlive p a ha)
  | issue _ hfree hlive _ _ _ =>
    intro p q a ha hfixed
    rw [hlive] at ha
    rcases update_cases ha with ⟨_, rfl⟩ | ⟨_, ha⟩
    · exact absurd ⟨q, a, hfixed, rfl⟩ hfree
    · exact hs.home p q a ha hfixed
  | @post p₀ a₀ hfixed₀ =>
    intro p q a ha hfixed
    rcases update_cases ha with ⟨rfl, rfl⟩ | ⟨_, ha⟩
    · exact (N.coherent p q a a hfixed₀ hfixed rfl).1
    · exact hs.home p q a ha hfixed
  | save => exact hs.home
  | restore _ hfree _ =>
    intro p q a ha hfixed
    rcases putRow_cases ha with ⟨_, ha⟩ | ⟨_, ha⟩
    · exact absurd ⟨q, a, hfixed, rfl⟩ (hfree p.2 a ha)
    · exact hs.home p q a ha hfixed

/-- The step rule: a disciplined step keeps the invariant. -/
theorem Sound.step (hs : N.Sound s) (h : N.Step s t) : N.Sound t where
  distinct := h.distinct hs
  rows := h.rows hs
  known _ := h.known hs
  home := h.home hs
  agree _ _ := h.agree hs

theorem Sound.steps (hs : N.Sound s) (h : Relation.ReflTransGen N.Step s t) : N.Sound t := by
  induction h with
  | refl => exact hs
  | tail _ hstep ih => exact ih.step hstep

/-- Names are given once: what carries a name later is what carried it first. -/
theorem Sound.same (hs : N.Sound s) (h : Relation.ReflTransGen N.Step s t)
    (ha : s.Present a) (hb : t.Present b) (he : N.name a = N.name b) : a = b := by
  rcases hs.known a ha with ⟨hspent, hfree⟩ | ⟨p, hfixed⟩
  · suffices hinv : t.spent (N.name a) ∧ ∀ b, t.Present b → N.name a = N.name b → a = b from
      hinv.2 b hb he
    clear hb he
    induction h with
    | refl => exact ⟨hspent, fun b hb he => hs.agree a b ha hb he⟩
    | tail _ hstep ih =>
      obtain ⟨hspent', hsame⟩ := ih
      obtain ⟨new, hsource⟩ := hstep.source
      refine ⟨hstep.spent hspent', fun b hb he => ?_⟩
      rcases hsource b hb with hold | ⟨_, hfresh, _⟩ | ⟨p, hfixed⟩
      · exact hsame b hold he
      · exact absurd (he ▸ hspent') hfresh
      · exact absurd ⟨p, b, hfixed, he.symm⟩ hfree
  · exact ((hs.steps h).fixed_of_reserved hb hfixed he.symm).symm

end
end Naming

end Runix.Lib
