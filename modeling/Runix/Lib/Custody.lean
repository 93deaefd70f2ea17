import Mathlib.Logic.Function.Basic

namespace Runix.Lib

/-- Where an item is, in a system of parties that each have a queue, a
one-item buffer that also serves outgoing items, and a record of receipts. -/
inductive Place (ι : Type) where
  | nowhere
  | parked (i : ι)
  | queued (i : ι)
  | deposited (i : ι)
  | received (i : ι)
  deriving DecidableEq

/-- How often each party has an item in its queue and among its receipts, and
what its buffer holds. -/
structure Mailboxes (ι κ : Type) where
  queue : ι → κ → Nat
  buffer : ι → Option κ
  receipts : ι → κ → Nat

/-- The mailboxes hold no more than the places say: no item is in two places, and the receipts
are exact. If items are `kept`, none has been lost either. -/
structure Custody {ι κ : Type} [DecidableEq ι] (kept : Prop) (x : Mailboxes ι κ) (w : κ → Place ι) :
    Prop where
  queue : ∀ i n, x.queue i n ≤ if w n = .queued i then 1 else 0
  buffer : ∀ i n, x.buffer i = some n → w n = .parked i ∨ w n = .deposited i
  receipts : ∀ i n, x.receipts i n = if w n = .received i then 1 else 0
  queue_kept : kept → ∀ i n, w n = .queued i → x.queue i n = 1
  buffer_kept : kept → ∀ i n, w n = .parked i ∨ w n = .deposited i → x.buffer i = some n

namespace Custody

variable {ι κ : Type} [DecidableEq ι] {kept : Prop} {x y : Mailboxes ι κ} {w : κ → Place ι}
  {i j : ι} {n : κ}

theorem empty : Custody kept (⟨fun _ _ => 0, fun _ => none, fun _ _ => 0⟩ : Mailboxes ι κ)
    (fun _ => .nowhere) := by
  constructor <;> simp

theorem queue_eq (h : Custody True x w) (i : ι) (n : κ) :
    x.queue i n = if w n = .queued i then 1 else 0 := by
  have hle := h.queue i n
  split
  · exact h.queue_kept trivial i n ‹_›
  · rename_i hne
    rw [if_neg hne] at hle
    exact Nat.le_zero.mp hle

theorem buffer_iff (h : Custody True x w) (i : ι) (n : κ) :
    x.buffer i = some n ↔ w n = .parked i ∨ w n = .deposited i :=
  ⟨h.buffer i n, h.buffer_kept trivial i n⟩

/-- Items are lost. -/
theorem drop (h : Custody kept x w) (hq : ∀ k c, y.queue k c ≤ x.queue k c)
    (hb : ∀ k c, y.buffer k = some c → x.buffer k = some c) (hr : y.receipts = x.receipts) :
    Custody False y w :=
  ⟨fun k c => Nat.le_trans (hq k c) (h.queue k c), fun k c hy => h.buffer k c (hb k c hy),
    fun k c => hr ▸ h.receipts k c, False.elim, False.elim⟩

variable [DecidableEq κ]

/-- An item that is new, or there already, is put into a buffer, by its owner or by somebody
else; over whatever was there, if items may be lost. -/
theorem place_buffer (h : Custody kept x w) (p : Place ι) (hp : p = .parked i ∨ p = .deposited i)
    (hw : w n = .nowhere ∨ w n = p) (hfree : kept → x.buffer i = none) (hq : y.queue = x.queue)
    (hy : y.buffer = Function.update x.buffer i (some n)) (hr : y.receipts = x.receipts) :
    Custody kept y (Function.update w n p) := by
  refine ⟨fun k c => ?_, fun k c => ?_, fun k c => ?_, fun hk k c => ?_, fun hk k c => ?_⟩
  · have := h.queue k c
    rw [hq]
    grind
  · have := h.buffer k c
    rw [hy]
    grind
  · have := h.receipts k c
    rw [hr, this]
    grind
  · have := h.queue_kept hk k c
    rw [hq]
    grind
  · have := h.buffer_kept hk k c
    have := hfree hk
    rw [hy]
    grind

theorem enqueue (h : Custody kept x w) (hw : w n = .nowhere)
    (hq : ∀ k c, y.queue k c = x.queue k c + if k = i ∧ c = n then 1 else 0)
    (hb : y.buffer = x.buffer) (hr : y.receipts = x.receipts) :
    Custody kept y (Function.update w n (.queued i)) := by
  refine ⟨fun k c => ?_, fun k c => ?_, fun k c => ?_, fun hk k c => ?_, fun hk k c => ?_⟩
  · have := h.queue k c
    have := hq k c
    grind
  · have := h.buffer k c
    rw [hb]
    grind
  · have := h.receipts k c
    rw [hr, this]
    grind
  · have := h.queue_kept hk k c
    have := h.queue k c
    have := hq k c
    grind
  · have := h.buffer_kept hk k c
    rw [hb]
    grind

theorem take_queue (h : Custody kept x w)
    (hq : ∀ k c, x.queue k c = y.queue k c + if k = i ∧ c = n then 1 else 0)
    (hb : y.buffer = x.buffer)
    (hr : ∀ k c, y.receipts k c = x.receipts k c + if k = i ∧ c = n then 1 else 0) :
    w n = .queued i ∧ Custody kept y (Function.update w n (.received i)) := by
  have hw : w n = .queued i := by
    have := h.queue i n
    have := hq i n
    grind
  refine ⟨hw, fun k c => ?_, fun k c => ?_, fun k c => ?_, fun hk k c => ?_, fun hk k c => ?_⟩
  · have := h.queue k c
    have := hq k c
    grind
  · have := h.buffer k c
    rw [hb]
    grind
  · have := h.receipts k c
    have := hr k c
    grind
  · have := h.queue_kept hk k c
    have := hq k c
    grind
  · have := h.buffer_kept hk k c
    rw [hb]
    grind

/-- The item in the buffer of `j` is received by `i`. -/
theorem take_buffer (h : Custody kept x w) (hj : x.buffer j = some n) (hq : y.queue = x.queue)
    (hb : y.buffer = Function.update x.buffer j none)
    (hr : ∀ k c, y.receipts k c = x.receipts k c + if k = i ∧ c = n then 1 else 0) :
    Custody kept y (Function.update w n (.received i)) := by
  have hw := h.buffer j n hj
  refine ⟨fun k c => ?_, fun k c => ?_, fun k c => ?_, fun hk k c => ?_, fun hk k c => ?_⟩
  · have := h.queue k c
    rw [hq]
    grind
  · have := h.buffer k c
    rw [hb]
    grind
  · have := h.receipts k c
    have := hr k c
    grind
  · have := h.queue_kept hk k c
    rw [hq]
    grind
  · have := h.buffer_kept hk k c
    have := h.buffer_kept hk j c
    rw [hb]
    grind

end Custody

end Runix.Lib
