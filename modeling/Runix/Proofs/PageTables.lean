import Runix.Proofs.Paging

namespace Runix
open Lib

theorem FrameAllocator.allocateFrame_some {a a' : FrameAllocator} {f : Nat}
    (h : a.allocateFrame = some (f, a')) :
    f = a.nextFreePaddr ∧ f + 4096 ≤ a.usableEnd ∧
      a' = { a with nextFreePaddr := f + 4096 } := by
  unfold allocateFrame at h
  split at h
  · rename_i hle
    cases h
    exact ⟨rfl, hle, rfl⟩
  · cases h

structure Handed (m₀ m : Memory) (f : Nat) : Prop where
  aligned : f % 4096 = 0
  first : m₀.alloc.nextFreePaddr ≤ f
  last : f + 4096 ≤ m.alloc.nextFreePaddr
  usable : f + 4096 ≤ m₀.alloc.usableEnd

abbrev Positions := Nat → Option (Nat × List (Fin 512))

/-- The tables of all address spaces are disjoint trees of frames of their own,
data frames lie apart from them, and every kernel half is the one of boot. -/
structure Isolated (m₀ : Memory) (s : Spaces) (pos : Positions) : Prop where
  ends : s.mem.alloc.usableEnd = m₀.alloc.usableEnd
  starts : m₀.alloc.nextFreePaddr ≤ s.mem.alloc.nextFreePaddr
  aligned : s.mem.alloc.nextFreePaddr % 4096 = 0
  forest : paging.Forest s.mem.table pos
  tables : ∀ n x, pos n = some x → Handed m₀ s.mem n
  data : ∀ f ∈ s.data, Handed m₀ s.mem f ∧ pos f = none
  roots : ∀ r ∈ s.roots, pos r = some (r, [])
  high : ∀ r ∈ s.roots, ∀ i : Fin 512, 256 ≤ i.val →
    s.mem.table r i = m₀.table m₀.activePml4 i
  outside : ∀ a, m₀.Outside a → s.mem.words a = m₀.words a
  kernel : s.kernelPml4 = m₀.activePml4
  active : s.mem.activePml4 = m₀.activePml4 ∨ s.mem.activePml4 ∈ s.roots

section
variable {m₀ : Memory} {s : Spaces} {pos : Positions}

theorem Handed.mono {m m' : Memory} {f : Nat} (h : Handed m₀ m f)
    (hle : m.alloc.nextFreePaddr ≤ m'.alloc.nextFreePaddr) : Handed m₀ m' f :=
  ⟨h.aligned, h.first, h.last.trans hle, h.usable⟩

theorem Handed.bounded {m : Memory} {f : Nat} (h : Handed m₀ m f) (hb : m₀.Bootable) :
    f % 4096 = 0 ∧ f < 2 ^ 52 := by
  have := h.usable
  have := hb.width
  exact ⟨h.aligned, by omega⟩

theorem Handed.linkable {m : Memory} {f : Nat} (h : Handed m₀ m f) (hb : m₀.Bootable) :
    paging.Linkable f := by
  exact linkable_frame (h.bounded hb).1 (h.bounded hb).2

/-- Words outside the allocator's range are in no frame it hands out. -/
theorem Handed.not_mem {m : Memory} {f a : Nat} (h : Handed m₀ m f) (ha : m₀.Outside a) :
    ¬ (f ≤ a ∧ a < f + 4096) := by
  have := h.first
  have := h.usable
  rcases ha with ha | ha <;> omega

theorem Memory.Bootable.entry_outside (hb : m₀.Bootable) (i : Fin 512) (hi : 256 ≤ i.val) :
    m₀.Outside (m₀.activePml4 + 8 * i.val) := by
  have hidx : Memory.pml4Idx (i.val * 2 ^ 39) = i.val := by
    have := i.isLt
    unfold Memory.pml4Idx
    omega
  have hcell := hb.kernel (i.val * 2 ^ 39) (by omega)
    (m₀.activePml4, ⟨Memory.pml4Idx (i.val * 2 ^ 39), Nat.mod_lt _ (by decide)⟩)
    (by simp [Memory.indices, Radix.cells])
  simpa only [hidx] using hcell

/-- In every address space the kernel half translates as it did at boot. -/
theorem Isolated.high_walk (h : Isolated m₀ s pos) (hb : m₀.Bootable) {r v : Nat}
    (hr : r ∈ s.roots) (hv : 256 ≤ Memory.pml4Idx v) :
    s.mem.walk r v = m₀.walk m₀.activePml4 v := by
  apply Radix.walk_congr_of_head (h.high r hr _ hv)
  intro c hc
  exact h.outside _ (hb.kernel v hv c hc)

/-- A frame just handed out belongs to nobody. -/
theorem Isolated.fresh (h : Isolated m₀ s pos) {f : Nat} {alloc : FrameAllocator}
    (ha : s.mem.alloc.allocateFrame = some (f, alloc)) :
    Isolated m₀ (s.setMem { s.mem with alloc := alloc }) pos ∧
      Handed m₀ { s.mem with alloc := alloc } f ∧ pos f = none ∧ f ∉ s.data := by
  obtain ⟨rfl, hle, rfl⟩ := FrameAllocator.allocateFrame_some ha
  have haligned := h.aligned
  refine ⟨{ h with
    starts := h.starts.trans (Nat.le_add_right _ _)
    aligned := by simp only [Spaces.setMem]; omega
    tables := fun n x hn => (h.tables n x hn).mono (Nat.le_add_right _ _)
    data := fun f hf => ⟨(h.data f hf).1.mono (Nat.le_add_right _ _), (h.data f hf).2⟩ },
    ⟨haligned, h.starts, Nat.le_refl _, h.ends ▸ hle⟩, ?_, ?_⟩
  · cases hpos : pos s.mem.alloc.nextFreePaddr with
    | none => rfl
    | some x =>
      have := (h.tables _ x hpos).last
      omega
  · intro hmem
    have := (h.data _ hmem).1.last
    omega

/-- A new table under an absent entry of a table of the forest. -/
theorem Isolated.attach (h : Isolated m₀ s pos) (hb : m₀.Bootable) {n r f : Nat}
    {p : List (Fin 512)} {i : Fin 512} (hn : pos n = some (r, p)) (hlen : p.length < 3)
    (habsent : isPresent (s.mem.table n i) = false) (hf : Handed m₀ s.mem f)
    (hfresh : pos f = none) :
    paging.Attach s.mem.table ((s.mem.zeroFrame f).setEntry n i (paging.link f)).table pos
      n r p i f := by
  have hne : n ≠ f := by
    rintro rfl
    cases hfresh.symm.trans hn
  have htable : ∀ m, m % 4096 = 0 → ∀ j,
      ((s.mem.zeroFrame f).setEntry n i (paging.link f)).table m j =
        if (m, j) = (n, i) then paging.link f else if m = f then 0 else s.mem.table m j := by
    intro m hm j
    rw [Memory.table_setEntry hm (h.tables n _ hn).aligned,
      Memory.table_zeroFrame hm hf.aligned]
  refine ⟨hn, Nat.succ_lt_succ hlen, habsent, hfresh, hf.linkable hb, ?_, ?_, ?_⟩
  · intro m x j hm hcell
    have hmf : m ≠ f := by
      rintro rfl
      cases hfresh.symm.trans hm
    rw [htable m (h.tables m x hm).aligned, if_neg hcell, if_neg hmf]
  · rw [htable n (h.tables n _ hn).aligned, if_pos rfl]
  · intro j
    have hcell : (f, j) ≠ (n, i) := fun he => hne (congrArg Prod.fst he).symm
    rw [htable f hf.aligned, if_neg hcell, if_pos rfl]
    rfl

theorem own_indices {v : Nat} (hv : Memory.pml4Idx v < 256) :
    paging.own ([] ++ Memory.indices v) := by
  intro i hi
  simp only [Memory.indices, List.nil_append, List.head?_cons, Option.mem_some_iff] at hi
  subst hi
  exact hv

/-- Two states with the same address spaces translate alike if they do so in
the lower halves. -/
theorem Isolated.same_walks {s' : Spaces} {pos' : Positions} (h : Isolated m₀ s pos)
    (h' : Isolated m₀ s' pos') (hb : m₀.Bootable) {r : Nat} (hr : r ∈ s.roots) (hr' : r ∈ s'.roots)
    (hlow : ∀ v, Memory.pml4Idx v < 256 → s'.mem.walk r v = s.mem.walk r v) (v : Nat) :
    s'.mem.walk r v = s.mem.walk r v := by
  by_cases hv : Memory.pml4Idx v < 256
  · exact hlow v hv
  · rw [h.high_walk hb hr (by omega), h'.high_walk hb hr' (by omega)]

structure Opens (m₀ : Memory) (s : Spaces) (pos : Positions) (n : Nat) (i : Fin 512)
    (m' : Memory) (pos' : Positions) : Prop where
  isolated : Isolated m₀ (s.setMem m') pos'
  grows : ∀ k x, pos k = some x → pos' k = some x
  walks : ∀ r ∈ s.roots, ∀ v, m'.walk r v = s.mem.walk r v
  keeps : ∀ k x j, pos k = some x → (k, j) ≠ (n, i) → m'.table k j = s.mem.table k j

theorem Isolated.attached (h : Isolated m₀ s pos) (hb : m₀.Bootable) {n r f : Nat}
    {p : List (Fin 512)} {i : Fin 512} (hn : pos n = some (r, p)) (hlen : p.length < 3)
    (hown : paging.own (p ++ [i])) (habsent : isPresent (s.mem.table n i) = false)
    (hf : Handed m₀ s.mem f) (hfresh : pos f = none) (hdata : f ∉ s.data) :
    Opens m₀ s pos n i ((s.mem.zeroFrame f).setEntry n i (paging.link f))
      (Function.update pos f (some (r, p ++ [i]))) := by
  have hattach := h.attach hb hn hlen habsent hf hfresh
  have hisolated : Isolated m₀ (s.setMem ((s.mem.zeroFrame f).setEntry n i (paging.link f)))
      (Function.update pos f (some (r, p ++ [i]))) := { h with
    forest := h.forest.attach hattach
    tables := by
      intro m x hm
      rcases Radix.pos_update hm with ⟨rfl, _⟩ | ⟨_, hm⟩
      · exact hf.mono (Nat.le_refl _)
      · exact (h.tables m x hm).mono (Nat.le_refl _)
    data := by
      intro d hd
      have hdf : d ≠ f := by
        rintro rfl
        exact hdata hd
      refine ⟨(h.data d hd).1.mono (Nat.le_refl _), ?_⟩
      rw [Function.update_of_ne hdf]
      exact (h.data d hd).2
    roots := fun r hr => Radix.pos_update_of_some hfresh (h.roots r hr)
    high := by
      intro r' hr' j hj
      have hcell : (r', j) ≠ (n, i) := by
        rintro ⟨⟩
        cases (h.roots _ hr').symm.trans hn
        have := hown i (by simp)
        omega
      exact (hattach.agree r' _ j (h.roots r' hr') hcell).trans (h.high r' hr' j hj)
    outside := by
      intro a ha
      exact (Memory.words_setEntry ((h.tables n _ hn).not_mem ha)).trans
        ((Memory.words_zeroFrame (hf.not_mem ha)).trans (h.outside a ha)) }
  refine ⟨hisolated, fun k x hk => Radix.pos_update_of_some hfresh hk, fun r' hr' => ?_,
    hattach.agree⟩
  refine h.same_walks hisolated hb hr' hr' fun v hv => ?_
  exact h.forest.attach_walk hattach (h.roots r' hr') rfl (own_indices hv)

/-- `get_or_create_table_user` on a table of the forest: it fails without
effect, or the entry leads to the table at the longer path. -/
theorem getOrCreateTableUser_opens (h : Isolated m₀ s pos) (hb : m₀.Bootable) {n r : Nat}
    {p : List (Fin 512)} {i : Fin 512} (hn : pos n = some (r, p)) (hlen : p.length < 3)
    (hown : paging.own (p ++ [i])) : ∃ m' pos', Opens m₀ s pos n i m' pos' ∧
      (s.mem.getOrCreateTableUser n i = (none, m') ∨
      ∃ g, s.mem.getOrCreateTableUser n i = (some g, m') ∧ pos' g = some (r, p ++ [i]) ∧
        m'.table n i = paging.link g) := by
  have hsame : Opens m₀ s pos n i s.mem pos :=
    ⟨h, fun _ _ hk => hk, fun _ _ _ => rfl, fun _ _ _ _ _ => rfl⟩
  unfold Memory.getOrCreateTableUser
  cases hp : isPresent (s.mem.table n i) with
  | false =>
    have habsent : s.mem.entry n i &&& 0x1 = 0 := (not_present_iff _).mpr hp
    rw [if_pos habsent]
    cases ha : s.mem.alloc.allocateFrame with
    | none => exact ⟨s.mem, pos, hsame, .inl rfl⟩
    | some fa =>
      obtain ⟨f, alloc⟩ := fa
      obtain ⟨h₁, hf, hfresh, hdata⟩ := h.fresh ha
      have hopens := h₁.attached hb hn hlen hown hp hf hfresh hdata
      refine ⟨_, _, ⟨hopens.isolated, hopens.grows, hopens.walks, hopens.keeps⟩, .inr ⟨f, rfl,
        Function.update_self .., ?_⟩⟩
      exact (h₁.attach hb hn hlen hp hf hfresh).set
  | true =>
    obtain ⟨g, hlink, hg⟩ := h.forest.linked n r p i hn (Nat.succ_lt_succ hlen) hown hp
    have hgf := h.tables g _ hg
    have hpresent : ¬ s.mem.entry n i &&& 0x1 = 0 := by
      rw [not_present_iff]
      change ¬ isPresent (s.mem.table n i) = false
      simp [hp]
    have hentry : s.mem.entry n i = paging.link g := hlink
    have hor : s.mem.entry n i ||| 0x4 = s.mem.entry n i := by
      rw [hentry]
      change (BitVec.ofNat 64 g ||| 0x7) ||| 0x4 = BitVec.ofNat 64 g ||| 0x7
      rw [BitVec.or_assoc]
      rfl
    rw [if_neg hpresent, hor, Memory.setEntry_self]
    refine ⟨s.mem, pos, hsame, .inr ⟨g, ?_, hg, hlink⟩⟩
    rw [hentry]
    exact congrArg (fun g => (some g, s.mem)) (hgf.linkable hb).child

/-- Writing a leaf entry keeps the trees, and every walk but the one that ends
in it. -/
theorem Isolated.set_leaf (h : Isolated m₀ s pos) (hb : m₀.Bootable) {n r : Nat}
    {p : List (Fin 512)} {i : Fin 512} (hn : pos n = some (r, p)) (hlen : p.length = 3)
    (e : BitVec 64) : Isolated m₀ (s.setMem (s.mem.setEntry n i e)) pos ∧
      (∀ k x j, pos k = some x → (k, j) ≠ (n, i) →
        (s.mem.setEntry n i e).table k j = s.mem.table k j) ∧
      ∀ r' ∈ s.roots, ∀ v, (r' = r → Memory.indices v ≠ p ++ [i]) →
        (s.mem.setEntry n i e).walk r' v = s.mem.walk r' v := by
  have hkeeps : ∀ k x j, pos k = some x → (k, j) ≠ (n, i) →
      (s.mem.setEntry n i e).table k j = s.mem.table k j := by
    intro k x j hk hcell
    rw [Memory.table_setEntry (h.tables k x hk).aligned (h.tables n _ hn).aligned, if_neg hcell]
  have hisolated : Isolated m₀ (s.setMem (s.mem.setEntry n i e)) pos := { h with
    forest := h.forest.set_leaf hn (congrArg (· + 1) hlen) hkeeps
    tables := fun k x hk => (h.tables k x hk).mono (Nat.le_refl _)
    data := fun d hd => ⟨(h.data d hd).1.mono (Nat.le_refl _), (h.data d hd).2⟩
    high := by
      intro r' hr' j hj
      have hcell : (r', j) ≠ (n, i) := by
        rintro ⟨⟩
        cases (h.roots _ hr').symm.trans hn
        cases hlen
      exact (hkeeps r' _ j (h.roots r' hr') hcell).trans (h.high r' hr' j hj)
    outside := fun a ha =>
      (Memory.words_setEntry ((h.tables n _ hn).not_mem ha)).trans (h.outside a ha) }
  refine ⟨hisolated, hkeeps, fun r' hr' v hv => ?_⟩
  by_cases hlow : Memory.pml4Idx v < 256
  · refine h.forest.walk_agree (h.roots r' hr') rfl (own_indices hlow) fun m q j hm hpre => ?_
    apply hkeeps m _ j hm
    rintro ⟨⟩
    cases hn.symm.trans hm
    refine hv rfl (hpre.eq_of_length ?_).symm
    simp [hlen, Memory.indices]
  · rw [h.high_walk hb hr' (by omega)]
    exact hisolated.high_walk hb hr' (by omega)

theorem own_of_head {i : Fin 512} (hi : i.val < 256) (p : List (Fin 512)) :
    paging.own (i :: p) := by
  intro j hj
  cases hj
  exact hi

/-- Tables at different paths are different. -/
theorem ne_of_pos {n n' r r' : Nat} {p p' : List (Fin 512)} (h : pos n = some (r, p))
    (h' : pos n' = some (r', p')) (hlen : p.length ≠ p'.length) : n ≠ n' := by
  rintro rfl
  cases h.symm.trans h'
  exact hlen rfl

theorem Opens.keeps_table {n k : Nat} {x : Nat × List (Fin 512)} {i j : Fin 512} {m' : Memory}
    {pos' : Positions} (h : Opens m₀ s pos n i m' pos') (hk : pos k = some x) (hne : k ≠ n) :
    m'.table k j = s.mem.table k j :=
  h.keeps k x j hk fun he => hne (congrArg Prod.fst he)

structure Path (m : Memory) (pos : Positions) (root : Nat) (i₁ i₂ i₃ : Fin 512)
    (pdpt pd pt : Nat) : Prop where
  atRoot : pos root = some (root, [])
  atPdpt : pos pdpt = some (root, [i₁])
  atPd : pos pd = some (root, [i₁, i₂])
  atPt : pos pt = some (root, [i₁, i₂, i₃])
  linkPdpt : m.table root i₁ = paging.link pdpt
  linkPd : m.table pdpt i₂ = paging.link pd
  linkPt : m.table pd i₃ = paging.link pt

/-- `map_page_user_into` fails without changing a translation, or opens the
whole path and writes the leaf entry. -/
theorem mapPageUserInto_cases (h : Isolated m₀ s pos) (hb : m₀.Bootable) {root vaddr : Nat}
    {i₁ i₂ i₃ i₄ : Fin 512} (hindices : Memory.indices vaddr = [i₁, i₂, i₃, i₄])
    (paddr : Nat) (w : Bool) (hroot : root ∈ s.roots) (hlow : i₁.val < 256) :
    ∃ m' pos', Isolated m₀ (s.setMem m') pos' ∧
      (∀ r ∈ s.roots, ∀ v, m'.walk r v = s.mem.walk r v) ∧
      (s.mem.mapPageUserInto root vaddr paddr w = (none, m') ∨
      ∃ pdpt pd pt, Path m' pos' root i₁ i₂ i₃ pdpt pd pt ∧
        s.mem.mapPageUserInto root vaddr paddr w =
          (some (), m'.setEntry pt i₄ (Memory.leafEntry paddr w))) := by
  have hidx : Memory.pml4Idx vaddr = i₁ ∧ Memory.pdptIdx vaddr = i₂ ∧ Memory.pdIdx vaddr = i₃ ∧
      Memory.ptIdx vaddr = i₄ := by
    cases hindices
    exact ⟨rfl, rfl, rfl, rfl⟩
  unfold Memory.mapPageUserInto
  rw [hidx.1, hidx.2.1, hidx.2.2.1, hidx.2.2.2]
  obtain ⟨m₁, pos₁, h₁, hfail | ⟨pdpt, hpdpt, hpos₁, hlink₁⟩⟩ :=
    getOrCreateTableUser_opens h hb (h.roots root hroot) (by decide) (own_of_head hlow [])
  · rw [hfail]
    exact ⟨m₁, pos₁, h₁.isolated, h₁.walks, .inl rfl⟩
  have hroot₁ := h₁.grows root _ (h.roots root hroot)
  rw [hpdpt]
  dsimp only
  obtain ⟨m₂, pos₂, h₂, hfail | ⟨pd, hpd, hpos₂, hlink₂⟩⟩ :=
    getOrCreateTableUser_opens h₁.isolated hb hpos₁ (by simp) (own_of_head hlow [i₂])
  all_goals
    have hwalks₂ : ∀ r ∈ s.roots, ∀ v, m₂.walk r v = s.mem.walk r v :=
      fun r hr v => (h₂.walks r hr v).trans (h₁.walks r hr v)
  · rw [show m₁.getOrCreateTableUser pdpt i₂ = _ from hfail]
    exact ⟨m₂, pos₂, h₂.isolated, hwalks₂, .inl rfl⟩
  have hroot₂ := h₂.grows root _ hroot₁
  have hpdpt₂ := h₂.grows pdpt _ hpos₁
  rw [show m₁.getOrCreateTableUser pdpt i₂ = _ from hpd]
  dsimp only
  obtain ⟨m₃, pos₃, h₃, hfail | ⟨pt, hpt, hpos₃, hlink₃⟩⟩ :=
    getOrCreateTableUser_opens h₂.isolated hb hpos₂ (by simp) (own_of_head hlow [i₂, i₃])
  all_goals
    have hwalks₃ : ∀ r ∈ s.roots, ∀ v, m₃.walk r v = s.mem.walk r v :=
      fun r hr v => (h₃.walks r hr v).trans (hwalks₂ r hr v)
  · rw [show m₂.getOrCreateTableUser pd i₃ = _ from hfail]
    exact ⟨m₃, pos₃, h₃.isolated, hwalks₃, .inl rfl⟩
  rw [show m₂.getOrCreateTableUser pd i₃ = _ from hpt]
  refine ⟨m₃, pos₃, h₃.isolated, hwalks₃, .inr ⟨pdpt, pd, pt,
    ⟨h₃.grows root _ hroot₂, h₃.grows pdpt _ hpdpt₂, h₃.grows pd _ hpos₂, hpos₃, ?_, ?_, hlink₃⟩,
    rfl⟩⟩
  · calc m₃.table root i₁ = m₂.table root i₁ :=
        h₃.keeps_table hroot₂ (ne_of_pos hroot₂ hpos₂ (by simp))
      _ = m₁.table root i₁ := h₂.keeps_table hroot₁ (ne_of_pos hroot₁ hpos₁ (by simp))
      _ = paging.link pdpt := hlink₁
  · exact (h₃.keeps_table hpdpt₂ (ne_of_pos hpdpt₂ hpos₂ (by simp))).trans hlink₂

/-- Over an open path, the leaf entry completes the translation. -/
theorem Isolated.walk_set_leaf (h : Isolated m₀ s pos) (hb : m₀.Bootable)
    {root pdpt pd pt vaddr : Nat} {i₁ i₂ i₃ i₄ : Fin 512} {e : BitVec 64}
    (hp : Path s.mem pos root i₁ i₂ i₃ pdpt pd pt)
    (hindices : Memory.indices vaddr = [i₁, i₂, i₃, i₄]) (he : isPresent e = true) :
    (s.mem.setEntry pt i₄ e).walk root vaddr =
      some [paging.link pdpt, paging.link pd, paging.link pt, e] := by
  obtain ⟨_, hkeeps, _⟩ := h.set_leaf hb (i := i₄) hp.atPt rfl e
  have hkept : ∀ {k x j}, pos k = some x → x.2.length < 3 →
      (s.mem.setEntry pt i₄ e).table k j = s.mem.table k j := by
    intro k x j hk hlen
    refine hkeeps k x j hk fun hcell => ne_of_pos hk hp.atPt ?_ (congrArg Prod.fst hcell)
    exact Nat.ne_of_lt hlen
  have hlast : (s.mem.setEntry pt i₄ e).table pt i₄ = e := by
    have haligned := (h.tables pt _ hp.atPt).aligned
    rw [Memory.table_setEntry haligned haligned, if_pos rfl]
  rw [Memory.walk, hindices,
    Radix.walk_link (h.forest.linkable _ _ hp.atPdpt) ((hkept hp.atRoot (by simp)).trans hp.linkPdpt),
    Radix.walk_link (h.forest.linkable _ _ hp.atPd) ((hkept hp.atPdpt (by simp)).trans hp.linkPd),
    Radix.walk_link (h.forest.linkable _ _ hp.atPt) ((hkept hp.atPd (by simp)).trans hp.linkPt),
    Radix.walk_last (by rw [hlast]; exact he), hlast]
  rfl

end

end Runix
