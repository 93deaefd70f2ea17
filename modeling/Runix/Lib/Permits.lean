import Mathlib.Data.Multiset.AddSub

namespace Runix.Lib

/-- The history of a pool of permits: who has one now, who was made to wait and
who was taken off the queue, in order. -/
structure Ledger (ι : Type) where
  holders : Multiset ι
  arrived : List ι
  granted : List ι

namespace Ledger
variable {ι : Type}

def empty : Ledger ι := ⟨0, [], []⟩

def enter (l : Ledger ι) (x : ι) : Ledger ι := { l with holders := x ::ₘ l.holders }

def queue (l : Ledger ι) (x : ι) : Ledger ι := { l with arrived := l.arrived ++ [x] }

variable [DecidableEq ι]

def giveBack (l : Ledger ι) (x : ι) : Ledger ι := { l with holders := l.holders.erase x }

def handOver (l : Ledger ι) (x waiter : ι) : Ledger ι :=
  { l with holders := waiter ::ₘ l.holders.erase x, granted := l.granted ++ [waiter] }

end Ledger

/-- The books of a pool of `c` permits balance against its counter and its
queue. -/
structure Balances {ι : Type} (l : Ledger ι) (count : Int) (waiting : List ι) (c : Int) :
    Prop where
  total : (l.holders.card : Int) + count = c
  order : l.arrived = l.granted ++ waiting

namespace Balances
variable {ι : Type} {l : Ledger ι} {count c : Int} {waiting : List ι} {x : ι}

theorem empty (c : Int) : Balances (Ledger.empty : Ledger ι) c [] c :=
  ⟨by simp [Ledger.empty], rfl⟩

theorem enter (h : Balances l count waiting c) (x : ι) :
    Balances (l.enter x) (count - 1) waiting c := by
  refine ⟨?_, h.order⟩
  have htotal := h.total
  simp only [Ledger.enter, Multiset.card_cons]
  omega

theorem queue (h : Balances l count waiting c) (x : ι) :
    Balances (l.queue x) count (waiting ++ [x]) c := by
  refine ⟨h.total, ?_⟩
  change l.arrived ++ [x] = l.granted ++ (waiting ++ [x])
  rw [h.order, List.append_assoc]

/-- No more permits are out than there are, when the counter is not negative. -/
theorem holders_le (h : Balances l count waiting c) (hcount : 0 ≤ count) :
    (l.holders.card : Int) ≤ c := by
  have htotal := h.total
  omega

variable [DecidableEq ι]

theorem giveBack (h : Balances l count waiting c) (hx : x ∈ l.holders) :
    Balances (l.giveBack x) (count + 1) waiting c := by
  refine ⟨?_, h.order⟩
  have htotal := h.total
  have hcard := Multiset.card_erase_add_one hx
  change ((l.holders.erase x).card : Int) + (count + 1) = c
  omega

theorem handOver {waiter : ι} (h : Balances l count (waiter :: waiting) c) (hx : x ∈ l.holders) :
    Balances (l.handOver x waiter) count waiting c := by
  constructor
  · have htotal := h.total
    have hcard := Multiset.card_erase_add_one hx
    simp only [Ledger.handOver, Multiset.card_cons]
    omega
  · change l.arrived = l.granted ++ [waiter] ++ waiting
    rw [h.order, List.append_assoc, List.singleton_append]

end Balances

end Runix.Lib
