import Runix.Memory
import Runix.Lib.Radix
import Runix.Lib.Run

namespace Runix

def isPresent (e : BitVec 64) : Bool := e.getLsbD 0
def isWritable (e : BitVec 64) : Bool := e.getLsbD 1
def isUser (e : BitVec 64) : Bool := e.getLsbD 2

def isLarge (e : BitVec 64) : Bool := e.getLsbD 7

def frameOf (e : BitVec 64) : Nat := (e &&& frameMask).toNat

/-- Four-level paging as the processor reads it. The lower half of an address
space, below index 256 of its root, is its own. -/
def paging : Lib.Radix Nat (Fin 512) (BitVec 64) where
  present := isPresent
  final := isLarge
  child := frameOf
  link frame := BitVec.ofNat 64 frame ||| 0x7
  depth := 4
  own p := ∀ i ∈ p.head?, i.val < 256
  own_of_append p q h := by
    cases p with
    | nil => simp
    | cons i p => simpa using h

namespace Memory

def table (m : Memory) (frame : Nat) (i : Fin 512) : BitVec 64 := m.entry frame i

def indices (vaddr : Nat) : List (Fin 512) :=
  [⟨pml4Idx vaddr, Nat.mod_lt _ (by decide)⟩, ⟨pdptIdx vaddr, Nat.mod_lt _ (by decide)⟩,
    ⟨pdIdx vaddr, Nat.mod_lt _ (by decide)⟩, ⟨ptIdx vaddr, Nat.mod_lt _ (by decide)⟩]

def walk (m : Memory) (root vaddr : Nat) : Option (List (BitVec 64)) :=
  paging.walk m.table root (indices vaddr)

/-- A page is mapped for user programs: its walk goes through four entries that
are all present and open to them and ends at `paddr`. The processor allows
writing if all four do. -/
def Mapped (m : Memory) (root vaddr paddr : Nat) (writeable : Bool) : Prop :=
  ∃ es, m.walk root vaddr = some es ∧ es.length = 4 ∧ es.getLast?.map frameOf = some paddr ∧
    (∀ e ∈ es, isPresent e = true ∧ isUser e = true) ∧
    ((∀ e ∈ es, isWritable e = true) ↔ writeable = true)

def Outside (m : Memory) (addr : Nat) : Prop :=
  addr < m.alloc.nextFreePaddr ∨ m.alloc.usableEnd ≤ addr

/-- What the boot loader leaves: page-aligned free memory within the physical
address width, and a kernel half whose tables lie elsewhere. -/
structure Bootable (m : Memory) : Prop where
  aligned : m.alloc.nextFreePaddr % 4096 = 0
  width : m.alloc.usableEnd ≤ 2 ^ 52
  pml4 : m.activePml4 % 4096 = 0
  kernel : ∀ vaddr, 256 ≤ pml4Idx vaddr →
    ∀ c ∈ paging.cells m.table m.activePml4 (indices vaddr), m.Outside (c.1 + 8 * c.2)

end Memory

structure Spaces where
  mem : Memory
  kernelPml4 : Nat
  roots : List Nat
  data : List Nat

inductive SpaceAction where
  | newAddressSpace
  | allocateFrame
  | mapPageUserInto (root vaddr paddr : Nat) (writeable : Bool)
  | switchAddressSpace (root : Nat)
  | write (addr : Nat) (value : BitVec 64)

namespace Spaces

def boot (m : Memory) : Spaces := ⟨m, m.activePml4, [], []⟩

def setMem (s : Spaces) (m : Memory) : Spaces := { s with mem := m }

/-- One operation; `none` when it is used other than as intended. A `write` is
one of the programs writing to its data. -/
def step (s : Spaces) : SpaceAction → Option Spaces
  | .newAddressSpace =>
    match s.mem.newAddressSpace with
    | (some root, m) => some { s with mem := m, roots := root :: s.roots }
    | (none, m) => some (s.setMem m)
  | .allocateFrame =>
    match s.mem.alloc.allocateFrame with
    | some (frame, alloc) =>
      some { s with mem := { s.mem with alloc := alloc }, data := frame :: s.data }
    | none => some s
  | .mapPageUserInto root vaddr paddr writeable =>
    if root ∈ s.roots ∧ Memory.pml4Idx vaddr < 256 ∧ paddr ∈ s.data then
      some (s.setMem (s.mem.mapPageUserInto root vaddr paddr writeable).2)
    else none
  | .switchAddressSpace root =>
    if root = s.kernelPml4 ∨ root ∈ s.roots then
      some (s.setMem { s.mem with activePml4 := root })
    else none
  | .write addr value =>
    if ∃ frame ∈ s.data, frame ≤ addr ∧ addr < frame + 4096 then
      some (s.setMem { s.mem with words := fun a => if a = addr then value else s.mem.words a })
    else none

end Spaces

end Runix
