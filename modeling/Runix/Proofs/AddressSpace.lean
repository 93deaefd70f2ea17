import Runix.Proofs.PageTables

namespace Runix
open Lib

section
variable {m₀ : Memory} {s : Spaces} {pos : Positions}

/-- The kernel half of the active table is the one of boot. -/
theorem Isolated.active_high (h : Isolated m₀ s pos) (hb : m₀.Bootable) (i : Fin 512)
    (hi : 256 ≤ i.val) : s.mem.table s.mem.activePml4 i = m₀.table m₀.activePml4 i := by
  rcases h.active with hact | hact
  · rw [hact]
    exact h.outside _ (hb.entry_outside i hi)
  · exact h.high _ hact i hi

theorem Isolated.active_aligned (h : Isolated m₀ s pos) (hb : m₀.Bootable) :
    s.mem.activePml4 % 4096 = 0 := by
  rcases h.active with hact | hact
  · rw [hact]
    exact hb.pml4
  · exact (h.tables _ _ (h.roots _ hact)).aligned

/-- A frame of no table is not the active table. -/
theorem Isolated.active_ne (h : Isolated m₀ s pos) (hb : m₀.Bootable) {m : Memory} {f : Nat}
    (hf : Handed m₀ m f) (hfresh : pos f = none) : s.mem.activePml4 ≠ f := by
  rintro rfl
  rcases h.active with hact | hact
  · refine hf.not_mem (hb.entry_outside ⟨256, by decide⟩ (Nat.le_refl _)) ?_
    rw [hact]
    omega
  · cases hfresh.symm.trans (h.roots _ hact)

/-- The entries after `new_address_space` in the frame `f`. -/
theorem Isolated.table_new (h : Isolated m₀ s pos) (hb : m₀.Bootable) {f k : Nat}
    (hf : Handed m₀ s.mem f) (hfresh : pos f = none) (hk : k % 4096 = 0) (i : Fin 512) :
    ((s.mem.zeroFrame f).copyEntries f s.mem.activePml4 (List.range' 256 256)).table k i =
      if k = f then if 256 ≤ i.val then m₀.table m₀.activePml4 i else 0 else s.mem.table k i := by
  have hne := h.active_ne hb hf hfresh
  have hmem : i.val ∈ List.range' 256 256 ↔ 256 ≤ i.val := by
    have := i.isLt
    rw [List.mem_range'_1]
    omega
  rw [Memory.table_copyEntries hk hf.aligned (h.active_aligned hb) hne _
    (fun j hj => (List.mem_range'_1.mp hj).2), Memory.table_zeroFrame hk hf.aligned,
    Memory.table_zeroFrame (h.active_aligned hb) hf.aligned, if_neg hne]
  simp only [hmem]
  by_cases hkf : k = f
  · by_cases hi : 256 ≤ i.val
    · simp [hkf, hi, h.active_high hb i hi]
    · simp [hkf, hi]
  · simp [hkf]

/-- A fresh frame, prepared as `new_address_space` does, is a tree of its own,
and no other translation changes. -/
theorem Isolated.plant (h : Isolated m₀ s pos) (hb : m₀.Bootable) {f : Nat} {m' : Memory}
    (hf : Handed m₀ s.mem f) (hfresh : pos f = none) (hdata : f ∉ s.data)
    (hm : m' = (s.mem.zeroFrame f).copyEntries f s.mem.activePml4 (List.range' 256 256)) :
    Isolated m₀ { s with mem := m', roots := f :: s.roots }
        (Function.update pos f (some (f, []))) ∧
      (∀ r ∈ s.roots, ∀ v, m'.walk r v = s.mem.walk r v) ∧
      ∀ i : Fin 512, i.val < 256 → m'.table f i = 0 := by
  have htable : ∀ k, k % 4096 = 0 → ∀ i, m'.table k i =
      if k = f then if 256 ≤ i.val then m₀.table m₀.activePml4 i else 0 else s.mem.table k i :=
    fun k hk i => hm ▸ h.table_new hb hf hfresh hk i
  have hempty : ∀ i : Fin 512, i.val < 256 → m'.table f i = 0 := by
    intro i hi
    rw [htable f hf.aligned, if_pos rfl, if_neg (Nat.not_le.mpr hi)]
  have hagree : ∀ k x i, pos k = some x → m'.table k i = s.mem.table k i := by
    intro k x i hk
    have hkf : k ≠ f := by
      rintro rfl
      cases hfresh.symm.trans hk
    rw [htable k (h.tables k x hk).aligned, if_neg hkf]
  have halloc : m'.alloc = s.mem.alloc ∧ m'.activePml4 = s.mem.activePml4 :=
    hm ▸ Memory.copyEntries_alloc ..
  have hle : s.mem.alloc.nextFreePaddr ≤ m'.alloc.nextFreePaddr := by rw [halloc.1]
  have hisolated : Isolated m₀ { s with mem := m', roots := f :: s.roots }
      (Function.update pos f (some (f, []))) := {
    ends := halloc.1 ▸ h.ends
    starts := h.starts.trans hle
    aligned := halloc.1 ▸ h.aligned
    forest := by
      refine h.forest.plant hfresh (hf.linkable hb) hagree fun i hi => ?_
      exact congrArg isPresent (hempty i (hi i rfl))
    tables := by
      intro k x hk
      rcases Radix.pos_update hk with ⟨rfl, _⟩ | ⟨_, hk⟩
      · exact hf.mono hle
      · exact (h.tables k x hk).mono hle
    data := by
      intro d hd
      have hdf : d ≠ f := by
        rintro rfl
        exact hdata hd
      refine ⟨(h.data d hd).1.mono hle, ?_⟩
      rw [Function.update_of_ne hdf]
      exact (h.data d hd).2
    roots := by
      intro r hr
      rcases List.mem_cons.mp hr with rfl | hr
      · exact Function.update_self ..
      · exact Radix.pos_update_of_some hfresh (h.roots r hr)
    high := by
      intro r hr i hi
      rcases List.mem_cons.mp hr with rfl | hr
      · rw [htable r hf.aligned, if_pos rfl, if_pos hi]
      · exact (hagree r _ i (h.roots r hr)).trans (h.high r hr i hi)
    outside := by
      intro a ha
      rw [hm, Memory.words_copyEntries (hf.not_mem ha) _ (fun j hj => (List.mem_range'_1.mp hj).2),
        Memory.words_zeroFrame (hf.not_mem ha)]
      exact h.outside a ha
    kernel := h.kernel
    active := by
      rw [halloc.2]
      exact h.active.imp_right (List.mem_cons_of_mem f) }
  refine ⟨hisolated, fun r hr => ?_, hempty⟩
  refine h.same_walks hisolated hb hr (List.mem_cons_of_mem f hr) fun v hv => ?_
  exact h.forest.walk_agree (h.roots r hr) rfl (own_indices hv) fun k _ i hk _ => hagree k _ i hk

/-- Writing to a data frame touches no table. -/
theorem Isolated.write (h : Isolated m₀ s pos) {d addr : Nat} (hd : d ∈ s.data)
    (hin : d ≤ addr ∧ addr < d + 4096) (value : BitVec 64) :
    Isolated m₀ (s.setMem { s.mem with
      words := fun a => if a = addr then value else s.mem.words a }) pos := by
  obtain ⟨hdata, hnone⟩ := h.data d hd
  have hagree : ∀ k x (i : Fin 512), pos k = some x → k + 8 * i.val ≠ addr := by
    intro k x i hk
    have hkd : k ≠ d := by
      rintro rfl
      cases hnone.symm.trans hk
    have := (h.tables k x hk).aligned
    have := hdata.aligned
    have := i.isLt
    omega
  exact { h with
    forest := h.forest.congr fun k x i hk => if_neg (hagree k x i hk)
    tables := fun k x hk => (h.tables k x hk).mono (Nat.le_refl _)
    data := fun f hf => ⟨(h.data f hf).1.mono (Nat.le_refl _), (h.data f hf).2⟩
    high := fun r hr i hi => (if_neg (hagree r _ i (h.roots r hr))).trans (h.high r hr i hi)
    outside := by
      intro a ha
      have hne : a ≠ addr := by
        rintro rfl
        exact hdata.not_mem ha hin
      exact (if_neg hne).trans (h.outside a ha) }

theorem isolated_boot (hb : m₀.Bootable) : Isolated m₀ (Spaces.boot m₀) fun _ => none where
  ends := rfl
  starts := Nat.le_refl _
  aligned := hb.aligned
  forest := ⟨fun _ _ h => (nomatch h), fun _ _ _ _ h => (nomatch h)⟩
  tables _ _ h := nomatch h
  data _ h := nomatch h
  roots _ h := nomatch h
  high _ h := nomatch h
  outside _ _ := rfl
  kernel := rfl
  active := .inl rfl

theorem step_isolated (h : Isolated m₀ s pos) (hb : m₀.Bootable) {a : SpaceAction} {s' : Spaces}
    (hs : s.step a = some s') : ∃ pos', Isolated m₀ s' pos' := by
  cases a with
  | newAddressSpace =>
    simp only [Spaces.step, Memory.newAddressSpace] at hs
    cases ha : s.mem.alloc.allocateFrame with
    | none =>
      simp only [ha, Option.some.injEq] at hs
      exact ⟨pos, hs ▸ h⟩
    | some fa =>
      obtain ⟨f, alloc⟩ := fa
      simp only [ha, Option.some.injEq] at hs
      obtain ⟨h₁, hf, hfresh, hdata⟩ := h.fresh ha
      exact ⟨_, hs ▸ (h₁.plant hb hf hfresh hdata rfl).1⟩
  | allocateFrame =>
    simp only [Spaces.step] at hs
    cases ha : s.mem.alloc.allocateFrame with
    | none =>
      simp only [ha, Option.some.injEq] at hs
      exact ⟨pos, hs ▸ h⟩
    | some fa =>
      obtain ⟨f, alloc⟩ := fa
      simp only [ha, Option.some.injEq] at hs
      obtain ⟨h₁, hf, hfresh, _⟩ := h.fresh ha
      refine ⟨pos, hs ▸ { h₁ with data := fun d hd => ?_ }⟩
      rcases List.mem_cons.mp hd with rfl | hd
      · exact ⟨hf, hfresh⟩
      · exact h₁.data d hd
  | mapPageUserInto root vaddr paddr w =>
    simp only [Spaces.step, Option.ite_none_right_eq_some, Option.some.injEq] at hs
    obtain ⟨⟨hroot, hlow, _⟩, rfl⟩ := hs
    obtain ⟨m', pos', h', _, hmap | ⟨_, _, pt, hpath, hmap⟩⟩ :=
      mapPageUserInto_cases h hb rfl paddr w hroot hlow
    · exact ⟨pos', by rw [hmap]; exact h'⟩
    · exact ⟨pos', by rw [hmap]; exact (h'.set_leaf hb hpath.atPt rfl _).1⟩
  | switchAddressSpace root =>
    simp only [Spaces.step, Option.ite_none_right_eq_some, Option.some.injEq] at hs
    obtain ⟨hroot, rfl⟩ := hs
    exact ⟨pos, { h with
      tables := fun k x hk => (h.tables k x hk).mono (Nat.le_refl _)
      data := fun f hf => ⟨(h.data f hf).1.mono (Nat.le_refl _), (h.data f hf).2⟩
      active := h.kernel ▸ hroot }⟩
  | write addr value =>
    simp only [Spaces.step, Option.ite_none_right_eq_some, Option.some.injEq] at hs
    obtain ⟨⟨d, hd, hin⟩, rfl⟩ := hs
    exact ⟨pos, h.write hd hin value⟩

theorem run_isolated (hb : m₀.Bootable) {as : List SpaceAction}
    (hr : Run (Steps Spaces.step) (Spaces.boot m₀) as s) : ∃ pos, Isolated m₀ s pos :=
  hr.invariant (P := fun s => ∃ pos, Isolated m₀ s pos) ⟨_, isolated_boot hb⟩
    fun _ _ _ ⟨_, h⟩ hs => step_isolated h hb hs

/-- A walk through three tables of the forest to a leaf entry of a data frame. -/
theorem mapped_of_walk {m : Memory} {root vaddr paddr pdpt pd pt : Nat} {w : Bool}
    (htable : ∀ f ∈ [pdpt, pd, pt, paddr], f % 4096 = 0 ∧ f < 2 ^ 52)
    (hwalk : m.walk root vaddr = some [paging.link pdpt, paging.link pd, paging.link pt,
      Memory.leafEntry paddr w]) : m.Mapped root vaddr paddr w := by
  simp only [List.forall_mem_cons, List.not_mem_nil, false_implies, implies_true, and_true] at htable
  obtain ⟨⟨ha₁, hw₁⟩, ⟨ha₂, hw₂⟩, ⟨ha₃, hw₃⟩, ⟨ha, hw⟩⟩ := htable
  refine ⟨_, hwalk, rfl, ?_, ?_, ?_⟩
  · simp [frameOf_leafEntry ha hw]
  · simp [leafEntry_flags ha hw, link_flags ha₁ hw₁, link_flags ha₂ hw₂, link_flags ha₃ hw₃]
  · simp [leafEntry_flags ha hw, link_flags ha₁ hw₁, link_flags ha₂ hw₂, link_flags ha₃ hw₃]

end

namespace Spaces

variable {m₀ : Memory} {s : Spaces} {as : List SpaceAction}

/-- What `new_address_space` returns is unlike all roots before, empty in its
lower half and the kernel's above it; the others translate as they did. -/
theorem newAddressSpace_walks (hb : m₀.Bootable) (hr : Run (Steps step) (boot m₀) as s)
    {root : Nat} {m' : Memory} (hnew : s.mem.newAddressSpace = (some root, m')) :
    root ∉ s.roots ∧ (∀ r ∈ s.roots, ∀ v, m'.walk r v = s.mem.walk r v) ∧
      ∀ v, m'.walk root v = if Memory.pml4Idx v < 256 then none else m₀.walk m₀.activePml4 v := by
  obtain ⟨pos, h⟩ := run_isolated hb hr
  unfold Memory.newAddressSpace at hnew
  cases ha : s.mem.alloc.allocateFrame with
  | none => simp [ha] at hnew
  | some fa =>
    obtain ⟨f, alloc⟩ := fa
    obtain ⟨h₁, hf, hfresh, hdata⟩ := h.fresh ha
    simp only [ha, Prod.mk.injEq, Option.some.injEq] at hnew
    obtain ⟨rfl, hm⟩ := hnew
    obtain ⟨h', hwalks, hempty⟩ := h₁.plant hb hf hfresh hdata hm.symm
    refine ⟨fun hmem => ?_, hwalks, fun v => ?_⟩
    · cases hfresh.symm.trans (h.roots f hmem)
    · split
      · rename_i hlow
        exact Radix.walk_absent (congrArg isPresent (hempty _ hlow))
      · exact h'.high_walk hb List.mem_cons_self (by omega)

/-- Address spaces are isolated: in every run, mapping a page maps that page
and changes no other translation in any address space, and a mapping that fails
part-way changes none at all. -/
theorem mapping_isolated (hb : m₀.Bootable) (hr : Run (Steps step) (boot m₀) as s)
    {root vaddr paddr : Nat} {w : Bool} {result : Option Unit} {m' : Memory}
    (hroot : root ∈ s.roots) (hlow : Memory.pml4Idx vaddr < 256) (hdata : paddr ∈ s.data)
    (hmap : s.mem.mapPageUserInto root vaddr paddr w = (result, m')) :
    (result = some () → m'.Mapped root vaddr paddr w ∧
      ∀ r ∈ s.roots, ∀ v, (r = root → Memory.indices v ≠ Memory.indices vaddr) →
        m'.walk r v = s.mem.walk r v) ∧
    (result = none → ∀ r ∈ s.roots, ∀ v, m'.walk r v = s.mem.walk r v) := by
  obtain ⟨pos, h⟩ := run_isolated hb hr
  obtain ⟨m₁, pos₁, h₁, hwalks, hfail | ⟨pdpt, pd, pt, hpath, hok⟩⟩ :=
    mapPageUserInto_cases h hb rfl paddr w hroot hlow
  · cases hmap.symm.trans hfail
    exact ⟨fun he => (nomatch he), fun _ => hwalks⟩
  · cases hmap.symm.trans hok
    refine ⟨fun _ => ⟨?_, fun r hr v hv => ?_⟩, fun he => (nomatch he)⟩
    · have hpaddr := (h.data paddr hdata).1.bounded hb
      have hpresent := (leafEntry_flags hpaddr.1 hpaddr.2 w).1
      refine mapped_of_walk ?_ (h₁.walk_set_leaf hb hpath rfl hpresent)
      simp only [List.forall_mem_cons, List.not_mem_nil, false_implies, implies_true, and_true]
      exact ⟨(h₁.tables _ _ hpath.atPdpt).bounded hb, (h₁.tables _ _ hpath.atPd).bounded hb,
        (h₁.tables _ _ hpath.atPt).bounded hb, hpaddr⟩
    · obtain ⟨_, _, hothers⟩ := h₁.set_leaf hb hpath.atPt rfl (Memory.leafEntry paddr w)
      exact (hothers r hr v hv).trans (hwalks r hr v)

end Spaces

/-- Memory of zeros, with the frame after the root and those up to an end to hand out. -/
def Memory.blank (usableEnd : Nat) : Memory := ⟨fun _ => 0, ⟨0x1000, usableEnd⟩, 0⟩

theorem blank_bootable {usableEnd : Nat} (h : usableEnd ≤ 2 ^ 52) :
    (Memory.blank usableEnd).Bootable where
  aligned := show 0x1000 % 4096 = 0 by decide
  width := h
  pml4 := rfl
  kernel := by
    intro v _ c hc
    have habsent : ∀ i, paging.present ((Memory.blank usableEnd).table 0 i) = false :=
      fun i => congrArg isPresent (show (Memory.blank usableEnd).table 0 i = 0 from rfl)
    change c ∈ paging.cells _ 0 _ at hc
    simp only [Memory.indices, Radix.cells, habsent, Bool.false_and, Bool.false_eq_true, if_false,
      List.mem_singleton] at hc
    subst hc
    have hlt : Memory.pml4Idx v < 512 := Nat.mod_lt _ (by decide)
    exact .inl (show 0 + 8 * Memory.pml4Idx v < 0x1000 by omega)

namespace Spaces

/-- One address space with a page of code at `0x400000`. -/
theorem mapping_isolated_first : ∃ s m', Run (Steps step) (boot (.blank 0x6000))
    [.newAddressSpace, .allocateFrame] s ∧ 0x1000 ∈ s.roots ∧ 0x2000 ∈ s.data ∧
      s.mem.mapPageUserInto 0x1000 0x400000 0x2000 false = (some (), m') ∧
      m'.Mapped 0x1000 0x400000 0x2000 false ∧
      m'.walk 0x1000 0x401000 = s.mem.walk 0x1000 0x401000 := by
  have heval : (execute step (boot (.blank 0x6000)) [.newAddressSpace, .allocateFrame]).map (fun s =>
      (s.roots, s.data, (s.mem.mapPageUserInto 0x1000 0x400000 0x2000 false).1)) =
        some ([0x1000], [0x2000], some ()) := by
    decide +kernel
  obtain ⟨s, hs, hvalues⟩ := Option.map_eq_some_iff.mp heval
  simp only [Prod.mk.injEq] at hvalues
  obtain ⟨hroots, hdata, hok⟩ := hvalues
  have hroot : 0x1000 ∈ s.roots := by simp [hroots]
  have hdata : 0x2000 ∈ s.data := by simp [hdata]
  have hmap : s.mem.mapPageUserInto 0x1000 0x400000 0x2000 false = (some (), _) :=
    Prod.ext hok rfl
  have hrun := run_of_execute hs
  obtain ⟨hmapped, hothers⟩ :=
    (mapping_isolated (blank_bootable (by decide)) hrun hroot (by decide) hdata hmap).1 rfl
  exact ⟨s, _, hrun, hroot, hdata, hmap, hmapped, hothers _ hroot 0x401000 fun _ => by decide⟩

end Spaces

end Runix
