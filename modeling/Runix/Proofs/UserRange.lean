import Runix.UserRange
import Runix.Proofs.Paging

namespace Runix

/-- A flag test of the source reads one bit. -/
theorem and_twoPow_eq_zero {e : BitVec 64} {i : Nat} (hi : i < 64) :
    e &&& BitVec.twoPow 64 i = 0 ↔ e.getLsbD i = false := by
  constructor
  · intro h
    have hbit := congrArg (fun x => x.getLsbD i) h
    simpa [BitVec.getLsbD_twoPow, hi] using hbit
  · intro h
    apply BitVec.eq_of_getLsbD_eq
    intro j _
    by_cases hj : i = j
    · subst hj
      simp [h]
    · simp [BitVec.getLsbD_twoPow, hj]

namespace Memory

variable {m : Memory} {e : BitVec 64} {w : Bool}

def Open (e : BitVec 64) (w : Bool) : Prop :=
  isPresent e = true ∧ isUser e = true ∧ (w = true → isWritable e = true)

theorem refused_eq_false : refused e w = false ↔ Open e w := by
  have hp : (e &&& 0x1 = 0) ↔ isPresent e = false := and_twoPow_eq_zero (i := 0) (by decide)
  have hu : (e &&& 0x4 = 0) ↔ isUser e = false := and_twoPow_eq_zero (i := 2) (by decide)
  have hw : (e &&& 0x2 = 0) ↔ isWritable e = false := and_twoPow_eq_zero (i := 1) (by decide)
  simp only [refused, Open, Bool.or_eq_false_iff, Bool.and_eq_false_iff, beq_eq_false_iff_ne, ne_eq,
    hp, hu, hw, Bool.not_eq_false]
  cases w <;> simp [and_assoc]

section Path
variable (m : Memory) (addr : Nat)

def entry4 : BitVec 64 := m.entry m.activePml4 (pml4Idx addr)
def entry3 : BitVec 64 := m.entry (frameOf (m.entry4 addr)) (pdptIdx addr)
def entry2 : BitVec 64 := m.entry (frameOf (m.entry3 addr)) (pdIdx addr)
def entry1 : BitVec 64 := m.entry (frameOf (m.entry2 addr)) (ptIdx addr)

end Path

variable {hhdm addr : Nat}

def OpenPath (m : Memory) (addr : Nat) (w : Bool) : Prop :=
  Open (m.entry4 addr) w ∧ Open (m.entry3 addr) w ∧ Open (m.entry2 addr) w ∧ Open (m.entry1 addr) w

/-- One entry is read and tested, and the rest of the turn follows if it is open. -/
theorem passEntry {table idx : Nat} {rest : BitVec 64 → Option (Except Unit Unit)} {P : Prop}
    (h : table + 4096 + hhdm ≤ 2 ^ 64)
    (hrest : Open (m.entry table idx) w →
      ∃ r, rest (m.entry table idx) = some r ∧ (r = .ok () ↔ P)) :
    ∃ r, (do
        let e ← m.readDirect hhdm table idx
        if refused e w = true then pure (.error ()) else rest e) = some r ∧
      (r = .ok () ↔ Open (m.entry table idx) w ∧ P) := by
  have hread : m.readDirect hhdm table idx = some (m.entry table idx) := by
    rw [readDirect, if_pos (by omega)]
  rw [hread, Option.bind_eq_bind, Option.bind_some]
  cases hr : refused (m.entry table idx) w with
  | true =>
    refine ⟨.error (), rfl, ⟨nofun, fun ⟨hopen, _⟩ => ?_⟩⟩
    cases hr.symm.trans (refused_eq_false.mpr hopen)
  | false =>
    have hopen := refused_eq_false.mp hr
    obtain ⟨r, hr, hiff⟩ := hrest hopen
    exact ⟨r, hr, hiff.trans (by simp [hopen])⟩

section Tables
variable (h4 : isPresent (m.entry4 addr) = true)
include h4

theorem pdpt_mem_tables : frameOf (m.entry4 addr) ∈ m.tables addr := by
  unfold entry4 at *
  simp [tables, h4]

variable (h3 : isPresent (m.entry3 addr) = true)
include h3

theorem pd_mem_tables : frameOf (m.entry3 addr) ∈ m.tables addr := by
  unfold entry3 entry4 at *
  simp [tables, h4, h3]

theorem pt_mem_tables (h2 : isPresent (m.entry2 addr) = true) :
    frameOf (m.entry2 addr) ∈ m.tables addr := by
  unfold entry2 entry3 entry4 at *
  simp [tables, h4, h3, h2]

end Tables

/-- A turn of the loop overflows nowhere, and passes exactly if the path is open. -/
theorem validatePage_outcome (h : m.DirectMapped hhdm addr) :
    ∃ r, m.validatePage hhdm addr w = some r ∧ (r = .ok () ↔ m.OpenPath addr w) := by
  have hturn : ∃ r, m.validatePage hhdm addr w = some r ∧
      (r = .ok () ↔ Open (m.entry4 addr) w ∧ Open (m.entry3 addr) w ∧ Open (m.entry2 addr) w ∧
        Open (m.entry1 addr) w ∧ True) := by
    refine passEntry (h _ List.mem_cons_self) (fun h4 => ?_)
    refine passEntry (h _ (pdpt_mem_tables h4.1)) (fun h3 => ?_)
    refine passEntry (h _ (pd_mem_tables h4.1 h3.1)) (fun h2 => ?_)
    refine passEntry (h _ (pt_mem_tables h4.1 h3.1 h2.1)) (fun _ => ?_)
    exact ⟨.ok (), rfl, by simp⟩
  simpa only [OpenPath, and_true] using hturn

theorem translation_eq : m.translation m.activePml4 addr =
    if !isPresent (m.entry4 addr) then none
    else if !isPresent (m.entry3 addr) then none
    else if isLarge (m.entry3 addr) then some [m.entry4 addr, m.entry3 addr]
    else if !isPresent (m.entry2 addr) then none
    else if isLarge (m.entry2 addr) then some [m.entry4 addr, m.entry3 addr, m.entry2 addr]
    else if !isPresent (m.entry1 addr) then none
    else some [m.entry4 addr, m.entry3 addr, m.entry2 addr, m.entry1 addr] := rfl

/-- The processor's translation is the walk through the address space, whose root has no
large pages. -/
theorem translation_eq_walk {root : Nat} (h : isLarge (m.entry root (pml4Idx addr)) = false) :
    m.translation root addr = m.walk root addr := by
  have hstep : ∀ (n : Nat) (i : Fin 512) (is : List (Fin 512)),
      paging.walk m.table n (i :: is) =
        if isPresent (m.entry n i) then
          if isLarge (m.entry n i) then some [m.entry n i]
          else (paging.walk m.table (frameOf (m.entry n i)) is).map (fun es => m.entry n i :: es)
        else none := fun _ _ _ => rfl
  have hend : ∀ n, paging.walk m.table n [] = some [] := fun _ => rfl
  simp only [translation, walk, indices, hstep, hend, h]
  generalize m.entry root (pml4Idx addr) = e4
  generalize m.entry (frameOf e4) (pdptIdx addr) = e3
  generalize m.entry (frameOf e3) (pdIdx addr) = e2
  generalize m.entry (frameOf e2) (ptIdx addr) = e1
  cases isPresent e4 with
  | false => rfl
  | true =>
    cases isPresent e3 with
    | false => rfl
    | true =>
      cases isLarge e3 with
      | true => rfl
      | false =>
        cases isPresent e2 with
        | false => rfl
        | true => cases isLarge e2 <;> cases isPresent e1 <;> cases isLarge e1 <;> rfl

/-- Without large pages an open path is a translation that user programs may use. -/
theorem openPath_iff (h : m.SmallPaged addr) : m.OpenPath addr w ↔ m.UserByte addr w := by
  constructor
  · rintro ⟨h4, h3, h2, h1⟩
    have htrans : m.translation m.activePml4 addr =
        some [m.entry4 addr, m.entry3 addr, m.entry2 addr, m.entry1 addr] := by
      have hsmall := h
      unfold SmallPaged at hsmall
      rw [translation_eq] at hsmall ⊢
      simp only [h4.1, h3.1, h2.1, h1.1, Bool.not_true, Bool.false_eq_true, if_false] at hsmall ⊢
      cases hl3 : isLarge (m.entry3 addr) with
      | true => simp [hl3] at hsmall
      | false =>
        cases hl2 : isLarge (m.entry2 addr) with
        | true => simp [hl3, hl2] at hsmall
        | false => rfl
    refine ⟨_, htrans, rfl, fun e he => ?_⟩
    simp only [List.mem_cons, List.not_mem_nil, or_false] at he
    rcases he with rfl | rfl | rfl | rfl
    exacts [h4, h3, h2, h1]
  · rintro ⟨es, htrans, hlen, hall⟩
    have hes : es = [m.entry4 addr, m.entry3 addr, m.entry2 addr, m.entry1 addr] := by
      rw [translation_eq] at htrans
      split at htrans
      · cases htrans
      · split at htrans
        · cases htrans
        · split at htrans
          · cases htrans
            cases hlen
          · split at htrans
            · cases htrans
            · split at htrans
              · cases htrans
                cases hlen
              · split at htrans
                · cases htrans
                · cases htrans
                  rfl
    subst hes
    exact ⟨hall _ (by simp), hall _ (by simp), hall _ (by simp), hall _ (by simp)⟩

section Pages

theorem pml4Idx_pageOf (addr : Nat) : pml4Idx (pageOf addr) = pml4Idx addr := by
  unfold pml4Idx pageOf
  omega

theorem pdptIdx_pageOf (addr : Nat) : pdptIdx (pageOf addr) = pdptIdx addr := by
  unfold pdptIdx pageOf
  omega

theorem pdIdx_pageOf (addr : Nat) : pdIdx (pageOf addr) = pdIdx addr := by
  unfold pdIdx pageOf
  omega

theorem ptIdx_pageOf (addr : Nat) : ptIdx (pageOf addr) = ptIdx addr := by
  unfold ptIdx pageOf
  omega

/-- The bytes of a page have one path. -/
theorem openPath_pageOf (addr : Nat) : m.OpenPath (pageOf addr) w ↔ m.OpenPath addr w := by
  simp only [OpenPath, entry1, entry2, entry3, entry4, pml4Idx_pageOf, pdptIdx_pageOf, pdIdx_pageOf,
    ptIdx_pageOf]

theorem directMapped_pageOf (h : m.DirectMapped hhdm addr) : m.DirectMapped hhdm (pageOf addr) := by
  simpa only [DirectMapped, tables, pml4Idx_pageOf, pdptIdx_pageOf, pdIdx_pageOf] using h

/-- The loop ends at its last page and overflows nowhere; it passes exactly if the paths
of all pages are open. -/
theorem validatePages_outcome (endPage turns vaddr : Nat) (hend : endPage % 4096 = 0)
    (hlt : endPage < 2 ^ 47) (hv : vaddr % 4096 = 0) (hle : vaddr ≤ endPage)
    (hturns : endPage - vaddr < turns * 4096)
    (hmap : ∀ p, p % 4096 = 0 → vaddr ≤ p → p ≤ endPage → m.DirectMapped hhdm p) :
    ∃ r, m.validatePages hhdm endPage w turns vaddr = some r ∧
      (r = .ok () ↔ ∀ p, p % 4096 = 0 → vaddr ≤ p → p ≤ endPage → m.OpenPath p w) := by
  induction turns generalizing vaddr with
  | zero => omega
  | succ turns ih =>
    obtain ⟨r, hpage, hr⟩ := validatePage_outcome (w := w) (hmap vaddr hv (Nat.le_refl _) hle)
    unfold validatePages
    rw [hpage]
    cases r with
    | error =>
      refine ⟨.error (), rfl, ⟨nofun, fun hall => ?_⟩⟩
      cases hr.mpr (hall vaddr hv (Nat.le_refl _) hle)
    | ok =>
      have hopen : m.OpenPath vaddr w := hr.mp rfl
      by_cases hlast : vaddr = endPage
      · refine ⟨.ok (), if_pos hlast, ⟨fun _ p _ hp hpe => ?_, fun _ => rfl⟩⟩
        rw [show p = vaddr by omega]
        exact hopen
      · have hnext : vaddr + 4096 ≤ endPage := by omega
        obtain ⟨r, hloop, hiff⟩ := ih (vaddr + 4096) (by omega) hnext (by omega)
          (fun p hp hlow hhigh => hmap p hp (by omega) hhigh)
        refine ⟨r, ?_, hiff.trans ⟨fun hall p hp hlow hhigh => ?_, fun hall p hp hlow hhigh => ?_⟩⟩
        · simp only [if_neg hlast]
          rw [if_pos (by omega)]
          exact hloop
        · by_cases hfirst : p = vaddr
          · rw [hfirst]
            exact hopen
          · exact hall p hp (by omega) hhigh
        · exact hall p hp (by omega) hhigh

variable {start len : Nat}

/-- Every page from that of the first byte to that of the last holds a byte of the
range. -/
theorem byte_of_page (hpos : 0 < len) {p : Nat} (hp : p % 4096 = 0) (hlow : pageOf start ≤ p)
    (hhigh : p ≤ pageOf (start + len - 1)) :
    ∃ addr, pageOf addr = p ∧ start ≤ addr ∧ addr < start + len := by
  unfold pageOf at *
  refine ⟨max p start, ?_, ?_, ?_⟩ <;> omega

/-- The page loop decides what can be said of every byte. -/
theorem validateRange_outcome (hpos : 0 < len) (hbound : start + len ≤ 2 ^ 47)
    (hsmall : ∀ addr, start ≤ addr → addr < start + len → m.SmallPaged addr)
    (hmap : ∀ addr, start ≤ addr → addr < start + len → m.DirectMapped hhdm addr) :
    ∃ r, m.validatePages hhdm (pageOf (start + len - 1)) w (2 ^ 52) (pageOf start) = some r ∧
      (r = .ok () ↔ ∀ addr, start ≤ addr → addr < start + len → m.UserByte addr w) := by
  have hpages : ∀ p, p % 4096 = 0 → pageOf start ≤ p → p ≤ pageOf (start + len - 1) →
      m.DirectMapped hhdm p := by
    intro p hp hlow hhigh
    obtain ⟨addr, rfl, hfirst, hlast⟩ := byte_of_page hpos hp hlow hhigh
    exact directMapped_pageOf (hmap addr hfirst hlast)
  have hshape : pageOf (start + len - 1) % 4096 = 0 ∧ pageOf (start + len - 1) < 2 ^ 47 ∧
      pageOf start % 4096 = 0 ∧ pageOf start ≤ pageOf (start + len - 1) ∧
      pageOf (start + len - 1) - pageOf start < 2 ^ 52 * 4096 := by
    unfold pageOf
    omega
  obtain ⟨hend, hlt, hv, hle, hturns⟩ := hshape
  obtain ⟨r, hloop, hr⟩ := validatePages_outcome _ (2 ^ 52) _ hend hlt hv hle hturns hpages (w := w)
  refine ⟨r, hloop, hr.trans ⟨fun hall addr hfirst hlast => ?_, fun hall p hp hlow hhigh => ?_⟩⟩
  · rw [← openPath_iff (hsmall addr hfirst hlast), ← openPath_pageOf]
    refine hall (pageOf addr) ?_ ?_ ?_ <;> (unfold pageOf; omega)
  · obtain ⟨addr, rfl, hfirst, hlast⟩ := byte_of_page hpos hp hlow hhigh
    rw [openPath_pageOf, openPath_iff (hsmall addr hfirst hlast)]
    exact hall addr hfirst hlast

end Pages

/-- `validate_user_range` always returns, without an overflow, and accepts a range
exactly if it is empty or lies in the lower half and user programs may use each of its
bytes. The direct map of the boot loader shows the tables on the paths of the range. -/
theorem validateUserRange_exact (m : Memory) (hhdm : Nat) (ptr len : UInt64) (writeable : Bool)
    (hsmall : ∀ addr, ptr.toNat ≤ addr → addr < ptr.toNat + len.toNat → addr < 2 ^ 47 →
      m.SmallPaged addr)
    (hmap : ∀ addr, ptr.toNat ≤ addr → addr < ptr.toNat + len.toNat → addr < 2 ^ 47 →
      m.DirectMapped hhdm addr) :
    ∃ result, m.validateUserRange hhdm ptr len writeable = some result ∧
      (result = .ok () ↔ len = 0 ∨
        (ptr.toNat + len.toNat < 2 ^ 64 ∧ ptr.toNat + len.toNat ≤ 2 ^ 47 ∧
          ∀ addr, ptr.toNat ≤ addr → addr < ptr.toNat + len.toNat → m.UserByte addr writeable)) := by
  unfold validateUserRange
  by_cases hlen : len = 0
  · exact ⟨.ok (), if_pos hlen, by simp [hlen]⟩
  have hpos : 0 < len.toNat := by
    rw [Nat.pos_iff_ne_zero]
    intro hzero
    exact hlen (UInt64.toNat_inj.mp hzero)
  have htop : userSpaceUpperBound + 1 = 2 ^ 47 := rfl
  simp only [if_neg hlen, htop]
  by_cases hover : ptr.toNat + len.toNat < 2 ^ 64
  · simp only [if_pos hover]
    by_cases hbound : ptr.toNat + len.toNat ≤ 2 ^ 47
    · simp only [if_neg (Nat.not_lt.mpr hbound)]
      obtain ⟨r, hloop, hr⟩ := validateRange_outcome (w := writeable) hpos hbound
        (fun addr hfirst hlast => hsmall addr hfirst hlast (by omega))
        (fun addr hfirst hlast => hmap addr hfirst hlast (by omega))
      exact ⟨r, hloop, by simp only [hr, hlen, hover, hbound, false_or, true_and]⟩
    · simp only [if_pos (Nat.not_le.mp hbound)]
      exact ⟨.error (), rfl, by simp only [reduceCtorEq, hlen, hbound, false_or, false_and, and_false]⟩
  · simp only [if_neg hover]
    exact ⟨.error (), rfl, by simp only [reduceCtorEq, hlen, hover, false_or, false_and]⟩

/-- Every entry is present, writable and open to user programs, and leads back to the
table it stands in. -/
def openMemory : Memory := ⟨fun _ => 0x7, ⟨0, 0⟩, 0⟩

theorem openMemory_translation (addr : Nat) :
    openMemory.translation openMemory.activePml4 addr = some [0x7, 0x7, 0x7, 0x7] := by
  have hentry : ∀ table idx, openMemory.entry table idx = 0x7 := fun _ _ => rfl
  have hpresent : isPresent 0x7 = true := rfl
  have hsmall : isLarge 0x7 = false := rfl
  simp only [translation, hentry, hpresent, hsmall, Bool.not_true, Bool.false_eq_true, if_false]

theorem openMemory_tables (addr : Nat) : ∀ table ∈ openMemory.tables addr, table = 0 := by
  have htables : openMemory.tables addr = [0, 0, 0, 0] := by
    have hentry : ∀ table idx, openMemory.entry table idx = 0x7 := fun _ _ => rfl
    have hframe : frameOf 0x7 = 0 := rfl
    have hroot : openMemory.activePml4 = 0 := rfl
    have hpresent : isPresent 0x7 = true := rfl
    simp only [tables, hentry, hframe, hroot, hpresent, Bool.not_true, Bool.false_eq_true, if_false]
  simp [htables]

/-- A range over two pages that ends at the end of the lower half. -/
theorem validateUserRange_exact_top :
    openMemory.validateUserRange 0xffff800000000000 0x7fffffffeff0 0x1010 true = some (.ok ()) := by
  have huser : ∀ addr, openMemory.UserByte addr true := by
    intro addr
    refine ⟨_, openMemory_translation addr, rfl, fun e he => ?_⟩
    simp only [List.mem_cons, List.not_mem_nil, or_false, or_self] at he
    subst he
    exact ⟨rfl, rfl, fun _ => rfl⟩
  have hsmall : ∀ addr, openMemory.SmallPaged addr := by
    intro addr es hes
    cases (openMemory_translation addr).symm.trans hes
    rfl
  have hmap : ∀ addr, openMemory.DirectMapped 0xffff800000000000 addr := by
    intro addr table htable
    rw [openMemory_tables addr table htable]
    decide
  obtain ⟨result, hresult, hiff⟩ := validateUserRange_exact openMemory 0xffff800000000000
    0x7fffffffeff0 0x1010 true (fun addr _ _ _ => hsmall addr) (fun addr _ _ _ => hmap addr)
  rw [hresult, hiff.mpr (.inr ⟨by decide, by decide, fun addr _ _ => huser addr⟩)]

end Memory

end Runix
