import Runix.Syscall
import Runix.Paging

namespace Runix

namespace Memory

/-- The physical address of a byte. The page that the walk ends at is the larger the
earlier it ends. -/
def physical (m : Memory) (root vaddr : Nat) : Option Nat := do
  let es ← m.walk root vaddr
  let e ← es.getLast?
  let size := 4096 * 512 ^ (4 - es.length)
  return frameOf e / size * size + vaddr % size

def byte (m : Memory) (paddr : Nat) : UInt8 :=
  .ofBitVec ((m.words (paddr / 8 * 8)).extractLsb' (8 * (paddr % 8)) 8)

def setByte (m : Memory) (paddr : Nat) (b : UInt8) : Memory :=
  let shift := 8 * (paddr % 8)
  let others := m.words (paddr / 8 * 8) &&& ~~~((0xff : BitVec 64) <<< shift)
  { m with words := fun a =>
      if a = paddr / 8 * 8 then others ||| b.toBitVec.setWidth 64 <<< shift else m.words a }

def load (m : Memory) (root vaddr : Nat) : Option UInt8 := (m.physical root vaddr).map m.byte

def store (m : Memory) (vaddr : Nat) (b : UInt8) : Option Memory :=
  (m.physical m.activePml4 vaddr).map (fun paddr => m.setByte paddr b)

/-- The upper bits of an address repeat bit 47; any other faults. -/
def canonical (vaddr : Nat) : Bool :=
  vaddr < 2 ^ 47 || (2 ^ 64 - 2 ^ 47 ≤ vaddr && vaddr < 2 ^ 64)

def userMayWrite (m : Memory) (vaddr : Nat) : Bool :=
  canonical vaddr &&
    (m.walk m.activePml4 vaddr).any (fun es => es.all (fun e => isUser e && isWritable e))

/-- The boot loader maps the upper half for ring 0 only. -/
def KernelOnly (m : Memory) : Prop :=
  ∀ vaddr, 256 ≤ pml4Idx vaddr → m.userMayWrite vaddr = false

def fill : Memory → Nat → List UInt8 → Memory
  | m, _, [] => m
  | m, paddr, b :: bytes => (m.setByte paddr b).fill (paddr + 1) bytes

/-- `spawn_user`, for a program that fits its page. The frame of its code is the one
that the allocator hands out after the root. -/
def spawnUser (m : Memory) (blob : List UInt8) : Option (Nat × Memory) := do
  let (codeFrame, _) ← m.newAddressSpace.2.alloc.allocateFrame
  let (cr3, m) ← Kernel.buildUserSpace m
  if blob.length ≤ 4096 then return (cr3, m.fill codeFrame blob) else none

end Memory

structure Userland where
  mem : Memory
  kernelPml4 : Nat
  programs : List Nat

/-- What happens to user memory: a program is spawned, the scheduler switches, or the
running program stores a byte. -/
inductive UserAction where
  | spawn (blob : List UInt8)
  | switchAddressSpace (root : Nat)
  | store (vaddr : Nat) (value : UInt8)

namespace Userland

def boot (m : Memory) : Userland := ⟨m, m.activePml4, []⟩

def setMem (u : Userland) (m : Memory) : Userland := { u with mem := m }

/-- One step; `none` when it faults or is not enabled. -/
def step (u : Userland) : UserAction → Option Userland
  | .spawn blob =>
    (u.mem.spawnUser blob).map (fun (cr3, m) => { u with mem := m, programs := cr3 :: u.programs })
  | .switchAddressSpace root =>
    if root = u.kernelPml4 ∨ root ∈ u.programs then
      some (u.setMem { u.mem with activePml4 := root })
    else none
  | .store vaddr value =>
    if u.mem.activePml4 ∈ u.programs ∧ u.mem.userMayWrite vaddr = true then
      (u.mem.store vaddr value).map u.setMem
    else none

end Userland

end Runix
