import Mathlib.Data.List.Basic
import Mathlib.Data.Nat.Notation
import Mathlib.Algebra.Group.Nat.Defs

namespace Runix

structure FrameAllocator where
  nextFreePaddr : Nat
  usableEnd : Nat

def FrameAllocator.allocateFrame (a : FrameAllocator) : Option (Nat × FrameAllocator) :=
  if a.nextFreePaddr + 4096 ≤ a.usableEnd then
    some (a.nextFreePaddr, { a with nextFreePaddr := a.nextFreePaddr + 4096 })
  else none

/-- Physical memory as the direct map shows it: 64-bit words by the physical
address of their first byte. `activePml4` is the table `CR3` points to. -/
structure Memory where
  words : Nat → BitVec 64
  alloc : FrameAllocator
  activePml4 : Nat

def frameMask : BitVec 64 := 0x000ffffffffff000

namespace Memory

/-- `*table.add(idx)` -/
def entry (m : Memory) (table idx : Nat) : BitVec 64 := m.words (table + 8 * idx)

def setEntry (m : Memory) (table idx : Nat) (e : BitVec 64) : Memory :=
  { m with words := fun a => if a = table + 8 * idx then e else m.words a }

/-- `write_bytes(frame, 0, 4096)` -/
def zeroFrame (m : Memory) (frame : Nat) : Memory :=
  { m with words := fun a => if frame ≤ a ∧ a < frame + 4096 then 0 else m.words a }

def copyEntries (m : Memory) (dst src : Nat) : List Nat → Memory
  | [] => m
  | i :: is => (m.setEntry dst i (m.entry src i)).copyEntries dst src is

def newAddressSpace (m : Memory) : Option Nat × Memory :=
  match m.alloc.allocateFrame with
  | some (paddr, alloc) =>
    (some paddr, (({ m with alloc := alloc } : Memory).zeroFrame paddr).copyEntries
      paddr m.activePml4 (List.range' 256 256))
  | none => (none, m)

def getOrCreateTableUser (m : Memory) (table idx : Nat) : Option Nat × Memory :=
  if m.entry table idx &&& 0x1 = 0 then
    match m.alloc.allocateFrame with
    | some (paddr, alloc) =>
      (some paddr, (({ m with alloc := alloc } : Memory).zeroFrame paddr).setEntry table idx
        (BitVec.ofNat 64 paddr ||| 0x7))
    | none => (none, m)
  else
    (some (m.entry table idx &&& frameMask).toNat,
      m.setEntry table idx (m.entry table idx ||| 0x4))

def pml4Idx (vaddr : Nat) : Nat := vaddr / 2 ^ 39 % 512
def pdptIdx (vaddr : Nat) : Nat := vaddr / 2 ^ 30 % 512
def pdIdx (vaddr : Nat) : Nat := vaddr / 2 ^ 21 % 512
def ptIdx (vaddr : Nat) : Nat := vaddr / 2 ^ 12 % 512

def leafEntry (paddr : Nat) (writeable : Bool) : BitVec 64 :=
  (BitVec.ofNat 64 paddr &&& frameMask) ||| (0x1 ||| 0x4 ||| (if writeable then 0x2 else 0x0))

def mapPageUserInto (m : Memory) (pml4 vaddr paddr : Nat) (writeable : Bool) :
    Option Unit × Memory :=
  match m.getOrCreateTableUser pml4 (pml4Idx vaddr) with
  | (none, m) => (none, m)
  | (some pdpt, m) =>
    match m.getOrCreateTableUser pdpt (pdptIdx vaddr) with
    | (none, m) => (none, m)
    | (some pd, m) =>
      match m.getOrCreateTableUser pd (pdIdx vaddr) with
      | (none, m) => (none, m)
      | (some pt, m) => (some (), m.setEntry pt (ptIdx vaddr) (leafEntry paddr writeable))

end Memory

end Runix
