import Runix.Paging

namespace Runix

/-- `USER_SPACE_UPPER_BOUND` -/
def userSpaceUpperBound : Nat := 0x00007FFFFFFFFFFF

namespace Memory

/-- `addr & !0xfff` -/
def pageOf (addr : Nat) : Nat := addr / 4096 * 4096

/-- The two tests that `validate_user_range` makes on every entry. -/
def refused (e : BitVec 64) (writeable : Bool) : Bool :=
  (e &&& 0x1 == 0 || e &&& 0x4 == 0) || (writeable && e &&& 0x2 == 0)

/-- `*((paddr + hhdm) as *const u64).add(idx)`; `none` when the sum overflows. The boot
loader's direct map shows physical memory from `hhdm` on. -/
def readDirect (m : Memory) (hhdm paddr idx : Nat) : Option (BitVec 64) :=
  if paddr + hhdm < 2 ^ 64 then some (m.entry paddr idx) else none

def validatePage (m : Memory) (hhdm vaddr : Nat) (writeable : Bool) : Option (Except Unit Unit) := do
  let pml4Entry ← m.readDirect hhdm m.activePml4 (pml4Idx vaddr)
  if refused pml4Entry writeable then return .error ()
  let pdptEntry ← m.readDirect hhdm (frameOf pml4Entry) (pdptIdx vaddr)
  if refused pdptEntry writeable then return .error ()
  let pdEntry ← m.readDirect hhdm (frameOf pdptEntry) (pdIdx vaddr)
  if refused pdEntry writeable then return .error ()
  let ptEntry ← m.readDirect hhdm (frameOf pdEntry) (ptIdx vaddr)
  if refused ptEntry writeable then return .error ()
  return .ok ()

/-- The page loop; `none` when the address overflows, or when the loop is still going
after the given number of turns. -/
def validatePages (m : Memory) (hhdm endPage : Nat) (writeable : Bool) :
    Nat → Nat → Option (Except Unit Unit)
  | 0, _ => none
  | turns + 1, vaddr =>
    match m.validatePage hhdm vaddr writeable with
    | none => none
    | some (.error ()) => some (.error ())
    | some (.ok ()) =>
      if vaddr = endPage then some (.ok ())
      else if vaddr + 4096 < 2 ^ 64 then m.validatePages hhdm endPage writeable turns (vaddr + 4096)
      else none

/-- `validate_user_range`; `none` is an arithmetic overflow. There are 2^52 pages. -/
def validateUserRange (m : Memory) (hhdm : Nat) (ptr len : UInt64) (writeable : Bool) :
    Option (Except Unit Unit) :=
  if len = 0 then some (.ok ())
  else
    let start := ptr.toNat
    if start + len.toNat < 2 ^ 64 then
      let last := start + len.toNat
      if last > userSpaceUpperBound + 1 then some (.error ())
      else m.validatePages hhdm (pageOf (last - 1)) writeable (2 ^ 52) (pageOf start)
    else some (.error ())

/-- The processor's translation of an address: the entries it meets, if all of them are
present. A large page ends the walk below the root, whose entries have no size bit. -/
def translation (m : Memory) (root vaddr : Nat) : Option (List (BitVec 64)) :=
  let pml4Entry := m.entry root (pml4Idx vaddr)
  let pdptEntry := m.entry (frameOf pml4Entry) (pdptIdx vaddr)
  let pdEntry := m.entry (frameOf pdptEntry) (pdIdx vaddr)
  let ptEntry := m.entry (frameOf pdEntry) (ptIdx vaddr)
  if !isPresent pml4Entry then none
  else if !isPresent pdptEntry then none
  else if isLarge pdptEntry then some [pml4Entry, pdptEntry]
  else if !isPresent pdEntry then none
  else if isLarge pdEntry then some [pml4Entry, pdptEntry, pdEntry]
  else if !isPresent ptEntry then none
  else some [pml4Entry, pdptEntry, pdEntry, ptEntry]

/-- User programs may use the byte: its translation goes through four entries, all
present and open to them, and all writable if it is to be written. -/
def UserByte (m : Memory) (addr : Nat) (writeable : Bool) : Prop :=
  ∃ es, m.translation m.activePml4 addr = some es ∧ es.length = 4 ∧
    ∀ e ∈ es, isPresent e = true ∧ isUser e = true ∧ (writeable = true → isWritable e = true)

def SmallPaged (m : Memory) (addr : Nat) : Prop :=
  ∀ es, m.translation m.activePml4 addr = some es → es.length = 4

def tables (m : Memory) (addr : Nat) : List Nat :=
  let pml4Entry := m.entry m.activePml4 (pml4Idx addr)
  let pdptEntry := m.entry (frameOf pml4Entry) (pdptIdx addr)
  let pdEntry := m.entry (frameOf pdptEntry) (pdIdx addr)
  m.activePml4 ::
    if !isPresent pml4Entry then []
    else frameOf pml4Entry ::
      if !isPresent pdptEntry then []
      else frameOf pdptEntry :: if !isPresent pdEntry then [] else [frameOf pdEntry]

def DirectMapped (m : Memory) (hhdm addr : Nat) : Prop :=
  ∀ table ∈ m.tables addr, table + 4096 + hhdm ≤ 2 ^ 64

end Memory

end Runix
