import Runix.Memory
import Runix.Service.Reply

namespace Runix

def memmapUsable : Nat := 0

/-- An entry of the memory map: a range of physical addresses, which have at most 52 bits. -/
structure MemmapEntry where
  base : Nat
  length : Nat
  type_ : Nat
  fits : base + length ≤ 2 ^ 52

/-- `x - y` in 64 bits; `none` is an underflow. -/
def subU64 (x y : Nat) : Option Nat := if y ≤ x then some (x - y) else none

/-- `x & !0xfff` -/
def pageFloor (x : Nat) : Nat := x / 4096 * 4096

namespace FrameAllocator

def new : FrameAllocator := ⟨0, 0⟩

/-- A round of the loop of `init`: the window so far is kept unless the entry is longer. -/
def consider (a : FrameAllocator) (entry : MemmapEntry) : Option FrameAllocator :=
  if entry.type_ = memmapUsable then do
    let stop ← addU64 entry.base entry.length
    let size ← subU64 stop entry.base
    let best ← subU64 a.usableEnd a.nextFreePaddr
    if size > best then
      (addU64 entry.base 0xfff).map (fun above => ⟨pageFloor above, pageFloor stop⟩)
    else some a
  else some a

/-- `init`, with the response to the request for the memory map. -/
def init (a : FrameAllocator) : Option (List MemmapEntry) → Option FrameAllocator
  | some entries => entries.foldlM consider a
  | none => some a

/-- `allocate_frame` in 64 bits; the outer `none` is the overflow of its sum. -/
def tryAllocateFrame (a : FrameAllocator) : Option (Option Nat × FrameAllocator) :=
  if a.nextFreePaddr + 4096 < 2 ^ 64 then
    match a.allocateFrame with
    | some (paddr, next) => some (some paddr, next)
    | none => some (none, a)
  else none

def allocateFrames : FrameAllocator → Nat → Option (List (Option Nat))
  | _, 0 => some []
  | a, calls + 1 => do
    let next ← a.tryAllocateFrame
    let frames ← allocateFrames next.2 calls
    some (next.1 :: frames)

end FrameAllocator

end Runix
