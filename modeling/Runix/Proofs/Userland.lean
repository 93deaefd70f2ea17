import Runix.Userland
import Runix.Proofs.AddressSpace

namespace Runix
open Lib

namespace Memory

variable {m : Memory}

theorem byteMask_getLsbD (i : Nat) : (0xff : BitVec 64).getLsbD i = decide (i < 8) := by
  by_cases hi : i < 64
  · exact (by decide : ∀ i : Fin 64, (0xff : BitVec 64).getLsbD i = decide (i.val < 8)) ⟨i, hi⟩
  · rw [BitVec.getLsbD_of_ge _ _ (by omega), decide_eq_false (by omega)]

theorem byte_setByte (p q : Nat) (b : UInt8) :
    (m.setByte p b).byte q = if q = p then b else m.byte q := by
  apply UInt8.toBitVec_inj.mp
  apply BitVec.eq_of_getLsbD_eq
  intro i hi
  by_cases hword : q / 8 * 8 = p / 8 * 8
  · have hpos : 8 * (q % 8) + i < 64 := by omega
    simp only [byte, setByte, if_pos hword, BitVec.getLsbD_extractLsb', hi, BitVec.getLsbD_or,
      BitVec.getLsbD_and, BitVec.getLsbD_not, BitVec.getLsbD_shiftLeft, BitVec.getLsbD_setWidth,
      byteMask_getLsbD, hpos, decide_true, Bool.true_and]
    by_cases hq : q = p
    · have hin : ¬ 8 * (q % 8) + i < 8 * (q % 8) ∧ 8 * (q % 8) + i - 8 * (q % 8) = i := by omega
      simp [← hq, hi, hin, show i < 64 by omega]
    · have hout : 8 * (q % 8) + i < 8 * (p % 8) ∨ 8 ≤ 8 * (q % 8) + i - 8 * (p % 8) := by omega
      rw [if_neg hq]
      rcases hout with h | h
      · simp [h, hword, hi]
      · simp [hword, hi, Nat.not_lt.mpr h, BitVec.getLsbD_of_ge _ _ h]
  · have hq : q ≠ p := fun h => hword (by rw [h])
    simp only [byte, setByte, if_neg hword, if_neg hq]

/-- The lower half is addressed by its page and the offset in it. -/
theorem indices_inj {v v' : Nat} (hv : v < 2 ^ 47) (hv' : v' < 2 ^ 47) (h : indices v = indices v')
    (hoff : v % 4096 = v' % 4096) : v = v' := by
  simp only [indices, pml4Idx, pdptIdx, pdIdx, ptIdx, List.cons.injEq, Fin.mk.injEq] at h
  omega

theorem pml4Idx_low {v : Nat} (hv : v < 2 ^ 47) : pml4Idx v < 256 := by
  unfold pml4Idx
  omega

end Memory

abbrev Homes := Nat → Nat × List (Fin 512)

/-- Isolated address spaces in which every translation of the lower half ends in a data
frame that is at home there. -/
structure Settled (m₀ : Memory) (s : Spaces) (home : Homes) : Prop where
  isolated : ∃ pos, Isolated m₀ s pos
  homes : ∀ r ∈ s.roots, ∀ v, Memory.pml4Idx v < 256 → ∀ es, s.mem.walk r v = some es →
    ∃ e₁ e₂ e₃, ∃ f ∈ s.data, es = [e₁, e₂, e₃, Memory.leafEntry f true] ∧
      home f = (r, Memory.indices v)

section
variable {m₀ : Memory} {s : Spaces} {pos : Positions} {home : Homes}

theorem settled_boot (hb : m₀.Bootable) : Settled m₀ (Spaces.boot m₀) fun _ => (0, []) :=
  ⟨⟨_, isolated_boot hb⟩, fun _ hr => absurd hr List.not_mem_nil⟩

/-- A byte that a program reaches lies in a frame at home at its address. -/
theorem Settled.physical (h : Settled m₀ s home) (hb : m₀.Bootable) {r v p : Nat}
    (hr : r ∈ s.roots) (hv : v < 2 ^ 47) (hp : s.mem.physical r v = some p) :
    ∃ f ∈ s.data, Handed m₀ s.mem f ∧ home f = (r, Memory.indices v) ∧ p = f + v % 4096 := by
  obtain ⟨pos, hi⟩ := h.isolated
  obtain ⟨es, hes, hlast⟩ := Option.bind_eq_some_iff.mp hp
  obtain ⟨e₁, e₂, e₃, f, hf, rfl, hhome⟩ := h.homes r hr v (Memory.pml4Idx_low hv) es hes
  have hhanded := (hi.data f hf).1
  have hframe := hhanded.bounded hb
  refine ⟨f, hf, hhanded, hhome, ?_⟩
  simp [frameOf_leafEntry hframe.1 hframe.2] at hlast
  omega

/-- What a program may write lies in the lower half: the upper one is the kernel's. -/
theorem Settled.writable_low (h : Settled m₀ s home) (hb : m₀.Bootable) (hk : m₀.KernelOnly)
    (hact : s.mem.activePml4 ∈ s.roots) {v : Nat} (hw : s.mem.userMayWrite v = true) : v < 2 ^ 47 := by
  obtain ⟨pos, hi⟩ := h.isolated
  by_contra hv
  rw [Memory.userMayWrite, Bool.and_eq_true] at hw
  have hcan := hw.1
  simp only [Memory.canonical, hv, decide_false, Bool.false_or, Bool.and_eq_true,
    decide_eq_true_eq] at hcan
  have hhigh : 256 ≤ Memory.pml4Idx v := by
    unfold Memory.pml4Idx
    omega
  rw [hi.high_walk hb hact hhigh] at hw
  have hclosed := hk v hhigh
  rw [Memory.userMayWrite, hw.1, hw.2] at hclosed
  cases hclosed

/-- No two addresses of programs share a byte. -/
theorem Settled.physical_inj (h : Settled m₀ s home) (hb : m₀.Bootable) {r r' v v' p : Nat}
    (hr : r ∈ s.roots) (hr' : r' ∈ s.roots) (hv : v < 2 ^ 47) (hv' : v' < 2 ^ 47)
    (hp : s.mem.physical r v = some p) (hp' : s.mem.physical r' v' = some p) : r = r' ∧ v = v' := by
  obtain ⟨f, _, hf, hhome, rfl⟩ := h.physical hb hr hv hp
  obtain ⟨f', _, hf', hhome', heq⟩ := h.physical hb hr' hv' hp'
  have := hf.aligned
  have := hf'.aligned
  obtain rfl : f = f' := by omega
  obtain ⟨hroot, hidx⟩ := Prod.mk.inj (hhome.symm.trans hhome')
  exact ⟨hroot, Memory.indices_inj hv hv' hidx (by omega)⟩

/-- Where translations stay, so does what the frames are at home for. -/
theorem Settled.same_walks {s' : Spaces} (h : Settled m₀ s home) (h' : ∃ pos, Isolated m₀ s' pos)
    (hroots : s'.roots = s.roots) (hdata : s'.data = s.data)
    (hwalks : ∀ r ∈ s.roots, ∀ v, s'.mem.walk r v = s.mem.walk r v) : Settled m₀ s' home where
  isolated := h'
  homes r hr v hv es hes := by
    rw [hroots] at hr
    rw [hdata]
    exact h.homes r hr v hv es ((hwalks r hr v).symm.trans hes)

/-- Translations are the same where the tables are. -/
theorem Isolated.walks_eq {s' : Spaces} {pos' : Positions} (h : Isolated m₀ s pos)
    (h' : Isolated m₀ s' pos') (hb : m₀.Bootable) {r : Nat} (hr : r ∈ s.roots) (hr' : r ∈ s'.roots)
    (hsame : ∀ k x i, pos k = some x → s'.mem.table k i = s.mem.table k i) (v : Nat) :
    s'.mem.walk r v = s.mem.walk r v := by
  refine h.same_walks h' hb hr hr' (fun v hv => ?_) v
  exact h.forest.walk_agree (h.roots r hr) rfl (own_indices hv) fun k _ i hk _ => hsame k _ i hk

/-- Writing to a data frame changes no translation. -/
theorem Settled.setByte (h : Settled m₀ s home) (hb : m₀.Bootable) {f p : Nat} (hf : f ∈ s.data)
    (hp : f ≤ p ∧ p < f + 4096) (b : UInt8) :
    Settled m₀ (s.setMem (s.mem.setByte p b)) home ∧
      ∀ r ∈ s.roots, ∀ v, (s.mem.setByte p b).walk r v = s.mem.walk r v := by
  obtain ⟨pos, hi⟩ := h.isolated
  have halign := (hi.data f hf).1.aligned
  have hin : f ≤ p / 8 * 8 ∧ p / 8 * 8 < f + 4096 := by omega
  have h' : Isolated m₀ (s.setMem (s.mem.setByte p b)) pos := hi.write hf hin _
  have hwalks : ∀ r ∈ s.roots, ∀ v, (s.mem.setByte p b).walk r v = s.mem.walk r v := by
    intro r hr v
    refine hi.walks_eq h' hb hr hr (fun k x i hk => if_neg ?_) v
    have hne : k ≠ f := by
      rintro rfl
      cases (hi.data k hf).2.symm.trans hk
    have := (hi.tables k x hk).aligned
    have := i.isLt
    omega
  exact ⟨h.same_walks ⟨pos, h'⟩ rfl rfl hwalks, hwalks⟩

/-- A store changes the one byte that it names, for the one program that it is made by. -/
theorem Settled.store (h : Settled m₀ s home) (hb : m₀.Bootable)
    (hact : s.mem.activePml4 ∈ s.roots) {v p : Nat} (hv : v < 2 ^ 47)
    (hp : s.mem.physical s.mem.activePml4 v = some p) (b : UInt8) :
    Settled m₀ (s.setMem (s.mem.setByte p b)) home ∧
      ∀ r ∈ s.roots, ∀ x < 2 ^ 47,
        (s.mem.setByte p b).physical r x = s.mem.physical r x ∧
        (s.mem.setByte p b).load r x =
          if r = s.mem.activePml4 ∧ x = v then some b else s.mem.load r x := by
  obtain ⟨f, hf, _, _, hpf⟩ := h.physical hb hact hv hp
  obtain ⟨h', hwalks⟩ := h.setByte hb hf (p := p) (by omega) b
  refine ⟨h', fun r hr x hx => ?_⟩
  have hsame : (s.mem.setByte p b).physical r x = s.mem.physical r x := by
    rw [Memory.physical, hwalks r hr x, Memory.physical]
  refine ⟨hsame, ?_⟩
  rw [Memory.load, hsame, Memory.load]
  by_cases hrx : r = s.mem.activePml4 ∧ x = v
  · obtain ⟨rfl, rfl⟩ := hrx
    simp [hp, Memory.byte_setByte]
  · rw [if_neg hrx]
    refine Option.map_congr fun q hq => ?_
    rw [Memory.byte_setByte, if_neg]
    rintro rfl
    exact hrx (h.physical_inj hb hr hact hx hv hq hp)

/-- A new address space has no translations in its lower half. -/
theorem Settled.newAddressSpace (h : Settled m₀ s home) (hb : m₀.Bootable) {f : Nat}
    {m' : Memory} (hnew : s.mem.newAddressSpace = (some f, m')) :
    Settled m₀ { s with mem := m', roots := f :: s.roots } home := by
  obtain ⟨pos, hi⟩ := h.isolated
  unfold Memory.newAddressSpace at hnew
  cases ha : s.mem.alloc.allocateFrame with
  | none => simp [ha] at hnew
  | some fa =>
    obtain ⟨g, alloc⟩ := fa
    obtain ⟨h₁, hf, hfresh, hdata⟩ := hi.fresh ha
    simp only [ha, Prod.mk.injEq, Option.some.injEq] at hnew
    obtain ⟨rfl, hm⟩ := hnew
    obtain ⟨h', hwalks, hempty⟩ := h₁.plant hb hf hfresh hdata hm.symm
    refine ⟨⟨_, h'⟩, fun r hr v hv es hes => ?_⟩
    rcases List.mem_cons.mp hr with rfl | hr
    · cases (Radix.walk_absent (congrArg isPresent (hempty _ hv))).symm.trans hes
    · exact h.homes r hr v hv es ((hwalks r hr v).symm.trans hes)

/-- A data frame gets a home when it is allocated. -/
theorem Settled.allocateFrame (h : Settled m₀ s home) (hb : m₀.Bootable) {f : Nat}
    {alloc : FrameAllocator} (ha : s.mem.alloc.allocateFrame = some (f, alloc))
    (x : Nat × List (Fin 512)) :
    f ∉ s.data ∧ Settled m₀ { s with mem := { s.mem with alloc := alloc }, data := f :: s.data }
      (Function.update home f x) := by
  obtain ⟨pos, hi⟩ := h.isolated
  have hdata := (hi.fresh ha).2.2.2
  have hstep : s.step .allocateFrame =
      some { s with mem := { s.mem with alloc := alloc }, data := f :: s.data } := by
    simp only [Spaces.step, ha]
  refine ⟨hdata, step_isolated hi hb hstep, fun r hr v hv es hes => ?_⟩
  obtain ⟨e₁, e₂, e₃, d, hd, hes, hhome⟩ := h.homes r hr v hv es hes
  refine ⟨e₁, e₂, e₃, d, List.mem_cons_of_mem f hd, hes, ?_⟩
  have hdf : d ≠ f := fun he => hdata (he ▸ hd)
  rw [Function.update_of_ne hdf, hhome]

/-- Mapping a frame where it is at home. -/
theorem Settled.map (h : Settled m₀ s home) (hb : m₀.Bootable) {root vaddr paddr : Nat}
    (hroot : root ∈ s.roots) (hlow : Memory.pml4Idx vaddr < 256) (hdata : paddr ∈ s.data)
    (hhome : home paddr = (root, Memory.indices vaddr)) {result : Option Unit} {m' : Memory}
    (hmap : s.mem.mapPageUserInto root vaddr paddr true = (result, m')) :
    Settled m₀ (s.setMem m') home := by
  obtain ⟨pos, hi⟩ := h.isolated
  obtain ⟨m₁, pos₁, h₁, hwalks, hfail | ⟨pdpt, pd, pt, hpath, hok⟩⟩ :=
    mapPageUserInto_cases hi hb rfl paddr true hroot hlow
  · cases hmap.symm.trans hfail
    exact h.same_walks ⟨pos₁, h₁⟩ rfl rfl hwalks
  · cases hmap.symm.trans hok
    obtain ⟨h₂, _, hothers⟩ := h₁.set_leaf hb hpath.atPt rfl (Memory.leafEntry paddr true)
    refine ⟨⟨pos₁, h₂⟩, fun r hr v hv es hes => ?_⟩
    by_cases hv' : r = root ∧ Memory.indices v = Memory.indices vaddr
    · obtain ⟨rfl, hidx⟩ := hv'
      have hframe := (hi.data paddr hdata).1.bounded hb
      have hwalk := h₁.walk_set_leaf hb hpath hidx (leafEntry_flags hframe.1 hframe.2 true).1
      cases hwalk.symm.trans hes
      exact ⟨_, _, _, paddr, hdata, rfl, hidx ▸ hhome⟩
    · have hsame := (hothers r hr v (fun he hidx => hv' ⟨he, hidx⟩)).trans (hwalks r hr v)
      exact h.homes r hr v hv es (hsame.symm.trans hes)

/-- Bytes written to one data frame. -/
theorem Settled.fill (hb : m₀.Bootable) {f : Nat} (blob : List UInt8) : ∀ {s : Spaces} {p : Nat},
    Settled m₀ s home → f ∈ s.data → f ≤ p → p + blob.length ≤ f + 4096 →
    Settled m₀ (s.setMem (s.mem.fill p blob)) home := by
  induction blob with
  | nil => exact fun h _ _ _ => h
  | cons b blob ih =>
    intro s p h hf hlow hhigh
    rw [List.length_cons] at hhigh
    have h₁ := (h.setByte hb hf (p := p) (by omega) b).1
    exact ih (p := p + 1) h₁ hf (by omega) (by omega)

/-- A new program gets frames of its own. -/
theorem Settled.spawnUser (h : Settled m₀ s home) (hb : m₀.Bootable) {blob : List UInt8}
    {cr3 : Nat} {m' : Memory} (hs : s.mem.spawnUser blob = some (cr3, m')) :
    ∃ data' home', Settled m₀ ⟨m', s.kernelPml4, cr3 :: s.roots, data'⟩ home' := by
  obtain ⟨⟨codeFrame, _⟩, hcode, hs⟩ := Option.bind_eq_some_iff.mp hs
  obtain ⟨⟨_, m₃⟩, hbuild, hs⟩ := Option.bind_eq_some_iff.mp hs
  simp only [Option.ite_none_right_eq_some, Option.pure_def, Option.some.injEq, Prod.mk.injEq] at hs
  obtain ⟨hlen, rfl, rfl⟩ := hs
  unfold Kernel.buildUserSpace at hbuild
  split at hbuild
  · cases hbuild
  rename_i root m₁ hnew
  rw [hnew] at hcode
  simp only [hcode] at hbuild
  split at hbuild
  · cases hbuild
  rename_i stackFrame alloc₂ hstack
  have h₁ := h.newAddressSpace hb hnew
  have h₂ := h₁.allocateFrame hb hcode (root, Memory.indices Kernel.userCodeVaddr)
  have h₃ := h₂.2.allocateFrame hb hstack (root, Memory.indices Kernel.userStackVaddr)
  have hne : codeFrame ≠ stackFrame := fun he => h₃.1 (he ▸ List.mem_cons_self)
  split at hbuild
  · cases hbuild
  rename_i m₂ hmap₁
  have h₄ := h₃.2.map hb List.mem_cons_self (by decide) (by simp)
    (by rw [Function.update_of_ne hne, Function.update_self]) hmap₁
  split at hbuild
  · cases hbuild
  rename_i m₃ hmap₂
  cases hbuild
  have h₅ := h₄.map hb List.mem_cons_self (by decide) List.mem_cons_self
    (Function.update_self ..) hmap₂
  exact ⟨_, _, Settled.fill hb blob h₅ (by simp [Spaces.setMem]) (Nat.le_refl _) (by omega)⟩

/-- The memory at any time can be taken for the one of a boot. -/
theorem Isolated.bootable (h : Isolated m₀ s pos) (hb : m₀.Bootable) : s.mem.Bootable where
  aligned := h.aligned
  width := h.ends ▸ hb.width
  pml4 := h.active_aligned hb
  kernel := by
    have hout : ∀ a, m₀.Outside a → s.mem.Outside a := by
      rintro a (ha | ha)
      · exact .inl (Nat.lt_of_lt_of_le ha h.starts)
      · exact .inr (h.ends ▸ ha)
    intro v hv c hc
    have hcells := hb.kernel v hv
    rw [Memory.indices, Radix.cells] at hc hcells
    rw [h.active_high hb _ hv] at hc
    rw [List.forall_mem_cons] at hcells
    rcases List.mem_cons.mp hc with rfl | hc
    · rcases h.active with hact | hact
      · rw [hact]
        exact hout _ hcells.1
      · have := (h.tables _ _ (h.roots _ hact)).last
        exact .inl (show _ + 8 * (_ % 512) < _ by omega)
    · split at hc
      · rename_i hp
        rw [if_pos hp] at hcells
        rw [Radix.cells_congr (fun c hc => h.outside _ (hcells.2 c hc))] at hc
        exact hout _ (hcells.2 c hc)
      · cases hc

/-- A spawn leaves the other programs what they have: it lies where the allocator has been. -/
theorem Settled.spawnUser_kept (h : Settled m₀ s home) (hb : m₀.Bootable) {blob : List UInt8}
    {cr3 : Nat} {m' : Memory} (hs : s.mem.spawnUser blob = some (cr3, m')) {r x : Nat}
    (hr : r ∈ s.roots) (hx : x < 2 ^ 47) :
    m'.physical r x = s.mem.physical r x ∧ m'.load r x = s.mem.load r x := by
  obtain ⟨pos, hi⟩ := h.isolated
  obtain ⟨_, _, ⟨_, h'⟩, _⟩ := h.spawnUser hb hs
  have hb' := hi.bootable hb
  obtain ⟨_, _, ⟨_, hnew⟩, _⟩ := (settled_boot hb').spawnUser hb' hs
  have hwalk : m'.walk r x = s.mem.walk r x := by
    refine hi.walks_eq h' hb hr (List.mem_cons_of_mem _ hr) (fun k y i hk => ?_) x
    have := (hi.tables k y hk).last
    have := i.isLt
    exact hnew.outside _ (.inl (by omega))
  have hsame : m'.physical r x = s.mem.physical r x := by
    rw [Memory.physical, hwalk, Memory.physical]
  refine ⟨hsame, ?_⟩
  rw [Memory.load, hsame, Memory.load]
  refine Option.map_congr fun p hp => ?_
  obtain ⟨f, _, hf, _, rfl⟩ := h.physical hb hr hx hp
  have := hf.last
  rw [Memory.byte, hnew.outside _ (.inl (by omega)), Memory.byte]

end

namespace Userland

variable {m₀ : Memory} {u u' : Userland} {acts : List UserAction}

def spaces (u : Userland) (data : List Nat) : Spaces := ⟨u.mem, u.kernelPml4, u.programs, data⟩

/-- Every step keeps the programs apart, and what each of them has. -/
theorem step_settled (hb : m₀.Bootable) (hk : m₀.KernelOnly)
    (h : ∃ data home, Settled m₀ (u.spaces data) home) (act : UserAction) : u.step act = some u' → (∃ data home, Settled m₀ (u'.spaces data) home) ∧
      ∀ r ∈ u.programs, ∀ x < 2 ^ 47, u'.mem.physical r x = u.mem.physical r x ∧
        u'.mem.load r x =
          match act with
          | .store vaddr value =>
            if r = u.mem.activePml4 ∧ x = vaddr then some value else u.mem.load r x
          | _ => u.mem.load r x := by
  obtain ⟨data, home, h⟩ := h
  intro hs
  cases act with
  | spawn blob =>
    obtain ⟨⟨cr3, m'⟩, hspawn, rfl⟩ := Option.map_eq_some_iff.mp hs
    exact ⟨h.spawnUser hb hspawn, fun r hr x hx => h.spawnUser_kept hb hspawn hr hx⟩
  | switchAddressSpace root =>
    simp only [step, Option.ite_none_right_eq_some, Option.some.injEq] at hs
    obtain ⟨hroot, rfl⟩ := hs
    obtain ⟨pos, hi⟩ := h.isolated
    have hswitch : (u.spaces data).step (.switchAddressSpace root) = some _ := if_pos hroot
    exact ⟨⟨data, home, step_isolated hi hb hswitch, h.homes⟩, fun _ _ _ _ => ⟨rfl, rfl⟩⟩
  | store vaddr value =>
    simp only [step, Option.ite_none_right_eq_some] at hs
    obtain ⟨⟨hact, hmay⟩, hs⟩ := hs
    have hv : vaddr < 2 ^ 47 := h.writable_low hb hk hact hmay
    obtain ⟨_, hstore, rfl⟩ := Option.map_eq_some_iff.mp hs
    obtain ⟨p, hp, rfl⟩ := Option.map_eq_some_iff.mp hstore
    obtain ⟨h', hload⟩ := h.store hb hact hv hp value
    exact ⟨⟨data, home, h'⟩, hload⟩

theorem run_settled (hb : m₀.Bootable) (hk : m₀.KernelOnly)
    (hr : Run (Steps step) (boot m₀) acts u) :
    ∃ data home, Settled m₀ (u.spaces data) home :=
  hr.invariant (P := fun u => ∃ data home, Settled m₀ (u.spaces data) home)
    ⟨[], _, settled_boot hb⟩ fun _ act _ h hs => (step_settled hb hk h act hs).1

/-- User programs are isolated from each other and from the kernel. If ring 3 may write nothing
of the kernel's half at boot, then in every run of spawns,
switches and stores, no two addresses of programs share a byte, memory that is not the
allocator's is as at boot, and what a program has at an address changes only when that program
itself stores there. -/
theorem programs_isolated (hb : m₀.Bootable) (hk : m₀.KernelOnly)
    (hr : Run (Steps step) (boot m₀) acts u) :
    (∀ r ∈ u.programs, ∀ r' ∈ u.programs, ∀ v < 2 ^ 47, ∀ v' < 2 ^ 47, ∀ p,
      u.mem.physical r v = some p → u.mem.physical r' v' = some p → r = r' ∧ v = v') ∧
    (∀ a, m₀.Outside a → u.mem.words a = m₀.words a) ∧
    ∀ act u', u.step act = some u' →
      ∀ r ∈ u.programs, ∀ x < 2 ^ 47, u'.mem.physical r x = u.mem.physical r x ∧
        u'.mem.load r x =
          match act with
          | .store vaddr value =>
            if r = u.mem.activePml4 ∧ x = vaddr then some value else u.mem.load r x
          | _ => u.mem.load r x := by
  obtain ⟨data, home, h⟩ := run_settled hb hk hr
  obtain ⟨pos, hi⟩ := h.isolated
  exact ⟨fun r hr r' hr' v hv v' hv' p => h.physical_inj hb hr hr' hv hv', hi.outside,
    fun act u' hs => (step_settled hb hk ⟨data, home, h⟩ act hs).2⟩

theorem blank_kernelOnly (usableEnd : Nat) : (Memory.blank usableEnd).KernelOnly := by
  intro v _
  rw [Memory.userMayWrite, Memory.walk, Memory.indices,
    Radix.walk_absent (congrArg isPresent (show (Memory.blank usableEnd).table _ _ = 0 from rfl))]
  exact Bool.and_false _

/-- The first of two programs writes to its code. -/
theorem programs_isolated_pair : ∃ u u', Run (Steps step) (boot (.blank 0x10000))
      [.spawn [0x90], .spawn [0x90], .switchAddressSpace 0x1000] u ∧
    u.step (.store 0x400000 7) = some u' ∧ u.programs = [0x8000, 0x1000] ∧
    u'.mem.load 0x1000 0x400000 = some 7 ∧
    u'.mem.load 0x8000 0x400000 = u.mem.load 0x8000 0x400000 := by
  have heval : (execute step (boot (.blank 0x10000))
      [.spawn [0x90], .spawn [0x90], .switchAddressSpace 0x1000]).map (fun u =>
        (u.programs, u.mem.activePml4, (u.step (.store 0x400000 7)).isSome)) =
        some ([0x8000, 0x1000], 0x1000, true) := by
    decide +kernel
  obtain ⟨u, hu, hvalues⟩ := Option.map_eq_some_iff.mp heval
  simp only [Prod.mk.injEq] at hvalues
  obtain ⟨hprograms, hactive, hsome⟩ := hvalues
  obtain ⟨u', hs⟩ := Option.isSome_iff_exists.mp hsome
  have hrun := run_of_execute hu
  have hkept := (programs_isolated (blank_bootable (by decide)) (blank_kernelOnly _) hrun).2.2 _ u' hs
  refine ⟨u, u', hrun, hs, hprograms, ?_, ?_⟩
  · rw [(hkept 0x1000 (by simp [hprograms]) _ (by decide)).2, hactive]
    rfl
  · rw [(hkept 0x8000 (by simp [hprograms]) _ (by decide)).2, hactive]
    rfl

end Userland

end Runix
