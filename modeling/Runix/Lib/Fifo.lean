import Runix.Lib.Ring
import Runix.Lib.Circular

namespace Runix.Lib

inductive QueueOp (α : Type) where
  | insert (x : α)
  | remove

inductive QueueAnswer (α : Type) where
  | inserted (accepted : Bool)
  | removed (x : Option α)
deriving DecidableEq

def QueueAnswer.taken {α : Type} : QueueAnswer α → Option α
  | .inserted _ => none
  | .removed x => x

section
variable {α : Type}

/-- One operation on a list of at most `n` elements, the oldest first. -/
def fifoStep (n : Nat) (l : List α) : QueueOp α → QueueAnswer α × List α
  | .insert x => if l.length < n then (.inserted true, l ++ [x]) else (.inserted false, l)
  | .remove => (.removed l.head?, l.tail)

def fifo (n : Nat) : List α → List (QueueOp α) → List (QueueAnswer α) × List α
  | l, [] => ([], l)
  | l, op :: ops =>
    let next := fifoStep n l op
    let rest := fifo n next.2 ops
    (next.1 :: rest.1, rest.2)

def operate {σ ε ρ : Type} (step : σ → ε → Option (ρ × σ)) : σ → List ε → Option (List ρ × σ)
  | s, [] => some ([], s)
  | s, a :: as =>
    (step s a).bind (fun next => (operate step next.2 as).map (fun rest => (next.1 :: rest.1, rest.2)))

/-- A representation whose every step answers as the bounded list does, and stands
for the list again, answers every sequence as the list does. -/
theorem operate_refines {σ ρ : Type} {step : σ → QueueOp α → Option (ρ × σ)} {n : Nat}
    {R : σ → List α → Prop} (view : QueueAnswer α → ρ)
    (hstep : ∀ s l op, R s l → ∃ s', step s op = some (view (fifoStep n l op).1, s') ∧
      R s' (fifoStep n l op).2)
    (ops : List (QueueOp α)) {s : σ} {l : List α} (h : R s l) :
    ∃ s', operate step s ops = some ((fifo n l ops).1.map view, s') ∧ R s' (fifo n l ops).2 := by
  induction ops generalizing s l with
  | nil => exact ⟨s, rfl, h⟩
  | cons op ops ih =>
    obtain ⟨t, ht, hR⟩ := hstep s l op h
    obtain ⟨s', hs', hR'⟩ := ih hR
    refine ⟨s', ?_, hR'⟩
    rw [operate, ht, Option.bind_some, hs']
    rfl

/-- The counters of a ring of `n` slots agree and stay in range. -/
structure Counters (n head tail count : Nat) : Prop where
  head_lt : head < n
  tail_lt : tail < n
  count_le : count ≤ n
  tail_eq : tail = (head + count) % n

end

namespace Ring
variable {α : Type} {n : Nat}

def step (q : Ring α n) : QueueOp α → Option (QueueAnswer α × Ring α n)
  | .insert x =>
    match q.enqueue x with
    | some q' => some (.inserted true, q')
    | none => some (.inserted false, q)
  | .remove => some (.removed q.dequeue.1, q.dequeue.2)

theorem counters (q : Ring α n) : Counters n q.head q.tail q.count :=
  ⟨q.head_lt, q.tail_lt, q.count_le, q.tail_eq⟩

/-- A ring is the list of its contents. -/
theorem step_refines (q : Ring α n) (op : QueueOp α) :
    ∃ q', q.step op = some ((fifoStep n q.contents op).1, q') ∧
      q'.contents = (fifoStep n q.contents op).2 := by
  cases op with
  | insert x =>
    simp only [step, fifoStep, q.length_contents]
    cases henq : q.enqueue x with
    | none =>
      have hfull := enqueue_none.mp henq
      rw [if_neg (by omega)]
      exact ⟨q, rfl, rfl⟩
    | some q' =>
      have hroom : q.count < n := by
        have hle := q.count_le
        have hne : q.count ≠ n := fun h => by
          rw [enqueue_none.mpr h] at henq
          cases henq
        omega
      rw [if_pos hroom]
      exact ⟨q', rfl, contents_enqueue henq⟩
  | remove =>
    simp only [step, fifoStep]
    rcases q.contents_dequeue with ⟨hnil, hdeq⟩ | ⟨x, q', hdeq, hcons⟩
    · rw [hdeq, hnil]
      exact ⟨q, rfl, hnil⟩
    · rw [hdeq, hcons]
      exact ⟨q', rfl, rfl⟩

end Ring

namespace Circular
variable {α : Type} {n : Nat} {q : Circular α n}

def step (q : Circular α n) : QueueOp α → Option (QueueAnswer α × Circular α n)
  | .insert x => (q.push x).map (fun pushed => (.inserted pushed.1, pushed.2))
  | .remove => q.pop.map (fun popped => (.removed popped.1, popped.2))

theorem Wf.counters (h : q.Wf) : Counters n q.head q.tail q.count :=
  ⟨h.head_lt, h.tail_lt, h.count_le, h.tail_eq⟩

theorem Wf.step_refines (h : q.Wf) (op : QueueOp α) :
    ∃ q', q.step op = some ((fifoStep n q.contents op).1, q') ∧ q'.Wf ∧
      q'.contents = (fifoStep n q.contents op).2 := by
  cases op with
  | insert x =>
    simp only [step, fifoStep, h.length_contents]
    by_cases hroom : q.count < n
    · obtain ⟨q', hpush, hwf, hcontents⟩ := h.push_room hroom x
      rw [hpush, if_pos hroom]
      exact ⟨q', rfl, hwf, hcontents⟩
    · rw [push_full hroom, if_neg hroom]
      exact ⟨q, rfl, h, rfl⟩
  | remove =>
    simp only [step, fifoStep]
    by_cases hpos : 0 < q.count
    · obtain ⟨x, q', hpop, hwf, hcons, _⟩ := h.pop_front hpos
      rw [hpop, hcons]
      exact ⟨q', rfl, hwf, rfl⟩
    · have hzero : q.count = 0 := Nat.eq_zero_of_not_pos hpos
      have hnil := h.contents_eq_nil.mpr hzero
      rw [pop_empty hzero, hnil]
      exact ⟨q, rfl, h, hnil⟩

end Circular

end Runix.Lib
