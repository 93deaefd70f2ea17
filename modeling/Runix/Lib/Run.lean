import Mathlib.Logic.Basic

namespace Runix.Lib

inductive Run {σ ε : Type} (step : σ → ε → σ → Prop) : σ → List ε → σ → Prop where
  | nil (s : σ) : Run step s [] s
  | cons {s t u : σ} {a : ε} {as : List ε} (head : step s a t)
      (tail : Run step t as u) : Run step s (a :: as) u

/-- The relation of a partial step function; `none` means not enabled. -/
def Steps {σ ε : Type} (step : σ → ε → Option σ) (s : σ) (a : ε) (t : σ) : Prop :=
  step s a = some t

/-- A step relation cut down to the labels a condition admits in the state
before the step. -/
def Guarded {σ ε : Type} (ok : σ → ε → Prop) (step : σ → ε → σ → Prop)
    (s : σ) (a : ε) (t : σ) : Prop :=
  ok s a ∧ step s a t

def execute {σ ε : Type} (step : σ → ε → Option σ) : σ → List ε → Option σ
  | s, [] => some s
  | s, a :: as => (step s a).bind (fun t => execute step t as)

section
variable {σ ε : Type} {step : σ → ε → σ → Prop} {s t u : σ} {a : ε} {as bs : List ε}

theorem Run.append (hs : Run step s as t) (ht : Run step t bs u) :
    Run step s (as ++ bs) u := by
  induction hs with
  | nil => exact ht
  | cons head tail ih => exact .cons head (ih ht)

/-- A run over a concatenation passes through an intermediate state. -/
theorem Run.split (hr : Run step s (as ++ bs) u) :
    ∃ t, Run step s as t ∧ Run step t bs u := by
  induction as generalizing s with
  | nil => exact ⟨s, .nil s, hr⟩
  | cons a as ih =>
    cases hr with
    | cons head tail =>
      obtain ⟨t, hs, ht⟩ := ih tail
      exact ⟨t, .cons head hs, ht⟩

/-- The induction rule for safety: what holds first and every step keeps
holds in the last state of every run. -/
theorem Run.invariant {P : σ → Prop} (h0 : P s)
    (hstep : ∀ s a t, P s → step s a t → P t) (hr : Run step s as t) : P t := by
  induction hr with
  | nil => exact h0
  | cons head tail ih => exact ih (hstep _ _ _ h0 head)

/-- The induction rule for runs that are extended at their end: the property may
speak of the labels so far. -/
theorem Run.history {P : List ε → σ → Prop} (h0 : P [] s)
    (hstep : ∀ as t a u, Run step s as t → P as t → step t a u → P (as ++ [a]) u)
    (hr : Run step s as t) : P as t := by
  have hextend : ∀ {t bs u}, Run step t bs u → ∀ as, Run step s as t → P as t → P (as ++ bs) u := by
    intro t bs u ht
    induction ht with
    | nil =>
      intro as _ h
      rwa [List.append_nil]
    | @cons t u v a bs head _ ih =>
      intro as hs h
      have hnext := ih (as ++ [a]) (hs.append (.cons head (.nil u))) (hstep as t a u hs h head)
      rwa [List.append_assoc] at hnext
  exact hextend hr [] (.nil s) h0

/-- Runs are monotone in the step relation. -/
theorem Run.mono {step' : σ → ε → σ → Prop}
    (h : ∀ s a t, step s a t → step' s a t) (hr : Run step s as t) : Run step' s as t := by
  induction hr with
  | nil => exact .nil _
  | cons head tail ih => exact .cons (h _ _ _ head) ih

/-- Labels that are always admitted can be run under the guard. -/
theorem Run.guard (ok : σ → ε → Prop) (hr : Run step s as t) (h : ∀ a ∈ as, ∀ s, ok s a) :
    Run (Guarded ok step) s as t := by
  induction hr with
  | nil => exact .nil _
  | cons head _ ih =>
    exact .cons ⟨h _ List.mem_cons_self _, head⟩ (ih (fun a ha => h a (List.mem_cons_of_mem _ ha)))

end

/-- The induction rule for a loop that can fail: if no turn fails and every turn
keeps the property, the loop ends with it. -/
theorem foldlM_invariant {α β : Type} {f : β → α → Option β} {P : β → Prop} {b : β} (l : List α)
    (hb : P b) (hstep : ∀ b, ∀ a ∈ l, P b → ∃ b', f b a = some b' ∧ P b') :
    ∃ b', l.foldlM f b = some b' ∧ P b' := by
  induction l generalizing b with
  | nil => exact ⟨b, rfl, hb⟩
  | cons a l ih =>
    obtain ⟨b', hfb, hb'⟩ := hstep b a List.mem_cons_self hb
    rw [List.foldlM_cons, hfb]
    exact ih hb' (fun c x hx => hstep c x (List.mem_cons_of_mem _ hx))

theorem foldlM_total {α β : Type} {f : β → α → Option β} (l : List α) (b : β)
    (hstep : ∀ b, ∀ a ∈ l, ∃ b', f b a = some b') : ∃ b', l.foldlM f b = some b' := by
  obtain ⟨b', hb', _⟩ := foldlM_invariant (P := fun _ => True) l (b := b) trivial
    (fun b a ha _ => (hstep b a ha).imp (fun _ h => ⟨h, trivial⟩))
  exact ⟨b', hb'⟩

theorem mapM_total {α β : Type} {f : α → Option β} (l : List α) (h : ∀ a ∈ l, ∃ b, f a = some b) :
    ∃ bs, l.mapM f = some bs := by
  induction l with
  | nil => exact ⟨[], rfl⟩
  | cons a l ih =>
    obtain ⟨b, hb⟩ := h a List.mem_cons_self
    obtain ⟨bs, hbs⟩ := ih (fun x hx => h x (List.mem_cons_of_mem _ hx))
    exact ⟨b :: bs, by rw [List.mapM_cons, hb, hbs]; rfl⟩

theorem mapM_eq_map {α β : Type} {f : α → Option β} {g : α → β} {l : List α}
    (h : ∀ a, f a = some (g a)) : l.mapM f = some (l.map g) := by
  rw [funext h]
  exact List.mapM_pure

/-- A map that succeeds has succeeded everywhere, and gives nothing else. -/
theorem mapM_some {α β : Type} {f : α → Option β} {l : List α} {bs : List β}
    (h : l.mapM f = some bs) :
    bs.length = l.length ∧ (∀ a ∈ l, ∃ b, f a = some b) ∧ ∀ b ∈ bs, ∃ a ∈ l, f a = some b := by
  induction l generalizing bs with
  | nil =>
    cases h
    simp
  | cons a l ih =>
    rw [List.mapM_cons] at h
    obtain ⟨b, hb, h⟩ := Option.bind_eq_some_iff.mp h
    obtain ⟨cs, hcs, h⟩ := Option.bind_eq_some_iff.mp h
    cases h
    obtain ⟨hlength, hall, hfrom⟩ := ih hcs
    refine ⟨by rw [List.length_cons, List.length_cons, hlength], ?_, ?_⟩
    · exact List.forall_mem_cons.mpr ⟨⟨b, hb⟩, hall⟩
    · intro c hc
      rcases List.mem_cons.mp hc with rfl | hc
      · exact ⟨a, List.mem_cons_self, hb⟩
      · obtain ⟨x, hx, hfx⟩ := hfrom c hc
        exact ⟨x, List.mem_cons_of_mem _ hx, hfx⟩

/-- A step function has at most one run for each list of labels. -/
theorem Run.unique {σ ε : Type} {step : σ → ε → Option σ} {s t u : σ} {as : List ε}
    (ht : Run (Steps step) s as t) (hu : Run (Steps step) s as u) : t = u := by
  induction ht with
  | nil =>
    cases hu
    rfl
  | cons head _ ih =>
    cases hu with
    | cons head' tail' =>
      cases Option.some.inj (head.symm.trans head')
      exact ih tail'

theorem run_of_execute {σ ε : Type} {step : σ → ε → Option σ} {s t : σ} {as : List ε}
    (h : execute step s as = some t) : Run (Steps step) s as t := by
  induction as generalizing s with
  | nil =>
    have hst := Option.some.inj h
    subst hst
    exact .nil _
  | cons a as ih =>
    obtain ⟨u, hu, ht⟩ := Option.bind_eq_some_iff.mp h
    exact .cons hu (ih ht)

def admits {σ ε : Type} (ok : σ → ε → Prop) [∀ s a, Decidable (ok s a)]
    (step : σ → ε → Option σ) : σ → List ε → Bool
  | _, [] => true
  | s, a :: as => decide (ok s a) && (step s a).all (fun t => admits ok step t as)

theorem guarded_of_execute {σ ε : Type} {ok : σ → ε → Prop} [∀ s a, Decidable (ok s a)]
    {step : σ → ε → Option σ} {s t : σ} {as : List ε} (h : execute step s as = some t)
    (hok : admits ok step s as = true) : Run (Guarded ok (Steps step)) s as t := by
  induction as generalizing s with
  | nil =>
    have hst := Option.some.inj h
    subst hst
    exact .nil _
  | cons a as ih =>
    obtain ⟨u, hu, ht⟩ := Option.bind_eq_some_iff.mp h
    simp only [admits, Bool.and_eq_true, decide_eq_true_eq, hu, Option.all_some] at hok
    exact .cons ⟨hok.1, hu⟩ (ih ht hok.2)

/-- Somewhere along the labels a step is taken that meets `P`. -/
def Occurred {σ ε : Type} (step : σ → ε → Option σ) (P : σ → ε → Prop) (s : σ) (as : List ε) :
    Prop :=
  ∃ bs a cs t, as = bs ++ a :: cs ∧ Run (Steps step) s bs t ∧ P t a

section
variable {σ ε : Type} {step : σ → ε → Option σ} {P : σ → ε → Prop} {s t : σ} {a : ε} {as : List ε}

theorem not_occurred_nil : ¬ Occurred step P s [] := by
  rintro ⟨bs, a, cs, _, heq, _⟩
  simp at heq

/-- What has occurred after one more step. -/
theorem occurred_snoc (hr : Run (Steps step) s as t) :
    Occurred step P s (as ++ [a]) ↔ Occurred step P s as ∨ P t a := by
  constructor
  · rintro ⟨bs, b, cs, u, heq, hu, hP⟩
    rcases List.eq_nil_or_concat cs with rfl | ⟨ds, d, rfl⟩
    · obtain ⟨rfl, hab⟩ := List.append_inj' heq rfl
      cases hab
      exact .inr (hr.unique hu ▸ hP)
    · rw [List.concat_eq_append, ← List.cons_append, ← List.append_assoc] at heq
      exact .inl ⟨bs, b, ds, u, (List.append_inj' heq rfl).1, hu, hP⟩
  · rintro (⟨bs, b, cs, u, rfl, hu, hP⟩ | hP)
    · exact ⟨bs, b, cs ++ [a], u, by simp, hu, hP⟩
    · exact ⟨as, a, [], t, rfl, hr, hP⟩

/-- What a guard excludes does not occur. -/
theorem Run.not_occurred (hr : Run (Guarded (fun s a => ¬ P s a) (Steps step)) s as t) :
    ¬ Occurred step P s as := by
  rintro ⟨bs, a, cs, u, rfl, hu, hP⟩
  obtain ⟨v, hv, hrest⟩ := hr.split
  cases hu.unique (hv.mono (fun _ _ _ h => h.2))
  cases hrest with
  | cons head _ => exact head.1 hP

end

end Runix.Lib
