import Mathlib.Logic.Function.Basic
import Mathlib.Data.List.FinRange
import Mathlib.Algebra.Group.Nat.Defs

namespace Runix

abbrev TaskId := Nat

def maxCaps : Nat := 32

inductive Resource where
  | serial
  | ipcChannel (targetTask : TaskId)
  | memoryMapping (startVaddr size : Nat) (writeable : Bool)
  | service (id : Nat)
  | kvEntry (slot : Nat) (readable writable : Bool)
  | logChannel (kind : UInt8) (readable writable : Bool)
  | fsNode (mount : UInt8) (readable writable : Bool)
  | device (id : UInt8) (readable writable : Bool)
  | syncObj (id : UInt8)
  deriving DecidableEq

structure RightsMask where
  read : Bool
  write : Bool
  grant : Bool
  deriving DecidableEq

/-- A bundle of rights to a resource. The identity is 64 bits wide and `0`
before installation; `origin` is the donor's identity of a derived capability
and `none` for one the kernel minted. -/
structure Capability where
  resource : Resource
  read : Bool
  write : Bool
  grant : Bool
  isSealed : Bool
  id : Nat
  origin : Option Nat
  deriving DecidableEq

/-- Clamps the rights of a delegated copy. Sealing is not inherited, identity
and lineage are left for the granting path. -/
def Capability.attenuate (c : Capability) (requested : RightsMask) : Except Unit Capability :=
  if !c.grant then .error ()
  else .ok
    { resource := c.resource
      read := c.read && requested.read
      write := c.write && requested.write
      grant := c.grant && requested.grant
      isSealed := false
      id := 0
      origin := none }

/-- `NEXT_CAP_ID.fetch_add(1)`: the identity handed out and the next counter.
The counter is an `AtomicU64` and wraps. -/
def nextCapId (counter : Nat) : Nat × Nat := (counter, (counter + 1) % 2 ^ 64)

structure CapTable where
  slots : Fin maxCaps → Option Capability

namespace CapTable

def new : CapTable := ⟨fun _ => none⟩

def ofList (cs : List Capability) : CapTable := ⟨fun i => cs[i.val]?⟩

def freeSlot (t : CapTable) : Option (Fin maxCaps) :=
  (List.finRange maxCaps).find? (fun i => (t.slots i).isNone)

/-- Stamps a fresh identity and fills the first free slot. The identity is
drawn even when the table turns out to be full. -/
def insert (t : CapTable) (counter : Nat) (cap : Capability) :
    Option (Fin maxCaps × CapTable) × Nat :=
  let (id, counter) := nextCapId counter
  match t.freeSlot with
  | some i => (some (i, ⟨Function.update t.slots i (some { cap with id := id })⟩), counter)
  | none => (none, counter)

def get (t : CapTable) (idx : Nat) : Option Capability :=
  if h : idx < maxCaps then t.slots ⟨idx, h⟩ else none

def clear (t : CapTable) (idx : Nat) : CapTable :=
  if h : idx < maxCaps then ⟨Function.update t.slots ⟨idx, h⟩ none⟩ else t

def remove (t : CapTable) (idx : Nat) : Except Unit (Option Capability) × CapTable :=
  match t.get idx with
  | some cap => if cap.isSealed then (.error (), t) else (.ok (some cap), t.clear idx)
  | none => (.ok none, t)

def kernelRevoke (t : CapTable) (idx : Nat) : Option Capability × CapTable :=
  (t.get idx, t.clear idx)

theorem freeSlot_some {t : CapTable} {i : Fin maxCaps} (h : t.freeSlot = some i) :
    t.slots i = none := by
  have := List.find?_some h
  simpa using this

theorem freeSlot_none {t : CapTable} (h : t.freeSlot = none) (i : Fin maxCaps) :
    t.slots i ≠ none := by
  have := List.find?_eq_none.mp h i (List.mem_finRange i)
  simpa using this

/-- The two outcomes of an insertion. -/
theorem insert_cases (t : CapTable) (counter : Nat) (cap : Capability) :
    (∃ i, t.slots i = none ∧ t.insert counter cap =
      (some (i, ⟨Function.update t.slots i (some { cap with id := counter })⟩),
        (counter + 1) % 2 ^ 64)) ∨
    ((∀ i, t.slots i ≠ none) ∧ t.insert counter cap = (none, (counter + 1) % 2 ^ 64)) := by
  cases hf : t.freeSlot with
  | some i => exact .inl ⟨i, freeSlot_some hf, by simp [insert, nextCapId, hf]⟩
  | none => exact .inr ⟨freeSlot_none hf, by simp [insert, nextCapId, hf]⟩

@[simp] theorem get_val (t : CapTable) (i : Fin maxCaps) : t.get i = t.slots i := by
  simp [get]

theorem get_eq_some {t : CapTable} {idx : Nat} {c : Capability} :
    t.get idx = some c ↔ ∃ h : idx < maxCaps, t.slots ⟨idx, h⟩ = some c := by
  unfold get
  split <;> simp_all

end CapTable

theorem attenuate_ok {c d : Capability} {r : RightsMask} (h : c.attenuate r = .ok d) :
    c.grant = true ∧ d =
      { resource := c.resource, read := c.read && r.read, write := c.write && r.write,
        grant := c.grant && r.grant, isSealed := false, id := 0, origin := none } := by
  unfold Capability.attenuate at h
  split at h
  · cases h
  · rename_i hg
    cases h
    exact ⟨by simpa using hg, rfl⟩

end Runix
