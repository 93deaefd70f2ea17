import Runix.ArchSim

namespace Runix

/-- How often an instruction reads what the one before it writes, with the
instruction before the first one. -/
def hazards : Option SimInstr → List SimInstr → Nat
  | _, [] => 0
  | before, instr :: rest =>
    (before.any instr.rawHazard).toNat + hazards (some instr) rest

/-- How many adjacent pairs of a program depend on each other: the later one reads
the register that the earlier one writes, unless that is register zero. -/
def dependencies (prog : List SimInstr) : Nat :=
  (prog.zip prog.tail).countP fun pair =>
    pair.1.rd ≠ 0 && (pair.1.rd = pair.2.rs1 || pair.1.rd = pair.2.rs2)

theorem hazards_none (prog : List SimInstr) : hazards none prog = dependencies prog := by
  have hcons : ∀ (a : SimInstr) rest, hazards (some a) rest = dependencies (a :: rest) := by
    intro a rest
    induction rest generalizing a with
    | nil => rfl
    | cons b rest ih =>
      rw [hazards, ih b, Nat.add_comm]
      simp only [dependencies, List.tail_cons, List.zip_cons_cons, List.countP_cons, Option.any_some]
      congr 1
      change (b.rawHazard a).toNat = if b.rawHazard a = true then 1 else 0
      cases b.rawHazard a <;> rfl
  cases prog with
  | nil => rfl
  | cons a rest =>
    rw [hazards, hcons]
    exact Nat.zero_add _

theorem dependencies_le (prog : List SimInstr) : dependencies prog ≤ prog.length := by
  refine Nat.le_trans List.countP_le_length ?_
  rw [List.length_zip]
  exact Nat.min_le_left _ _

def PipeStats.Sound (stats : PipeStats) : Prop :=
  stats.instrs ≤ stats.cycles ∧ stats.stalls ≤ stats.cycles

def PipeStats.tick (stats : PipeStats) (retired stalled : Bool) : PipeStats :=
  ⟨stats.instrs + retired.toNat, stats.cycles + 1, stats.stalls + stalled.toNat⟩

theorem PipeStats.Sound.tick {stats : PipeStats} (h : stats.Sound) (retired stalled : Bool) :
    (stats.tick retired stalled).Sound := by
  have hr := retired.toNat_le
  have hs := stalled.toNat_le
  have h₁ := h.1
  have h₂ := h.2
  constructor <;> simp only [PipeStats.tick] <;> omega

namespace Pipe
variable {prog upstream : List SimInstr} {p : Pipe} {stats : PipeStats} {a : SimInstr}

def Feeds (p : Pipe) (prog upstream : List SimInstr) : Prop :=
  p.ifStage = upstream.head? ∧ prog.drop p.pc = upstream.tail

theorem run_cycle (hbusy : p.busy prog = true) (hs : stats.Sound)
    (hroom : stats.cycles + 1 < 2 ^ 64) :
    p.run prog stats =
      (p.cycle prog).1.run prog (stats.tick p.memStage.isSome (p.cycle prog).2) := by
  have hcount : ∀ (x : Nat) (b : Bool), x ≤ stats.cycles →
      (if b then incrU64 x else some x) = some (x + b.toNat) := by
    intro x b hx
    cases b with
    | false => rfl
    | true => exact incrU64_of_lt (by omega)
  conv_lhs => unfold run
  rw [dif_pos hbusy, incrU64_of_lt hroom, Option.bind_some, hcount _ _ hs.1, Option.bind_some,
    hcount _ _ hs.2, Option.bind_some]
  rfl

theorem run_done (h : p.busy prog = false) : p.run prog stats = some stats := by
  unfold run
  rw [dif_neg (by rw [h]; exact Bool.false_ne_true)]

theorem fetch_feeds (h : p.Feeds prog upstream) :
    (p.fetch prog).idStage = upstream.head? ∧ (p.fetch prog).Feeds prog upstream.tail ∧
      (p.fetch prog).exStage = p.exStage ∧ (p.fetch prog).memStage = p.memStage := by
  obtain ⟨hif, hdrop⟩ := h
  have hhead : upstream.tail.head? = prog[p.pc]? := by rw [← hdrop, List.head?_drop]
  unfold fetch Feeds
  cases hget : prog[p.pc]? with
  | some instr =>
    refine ⟨hif, ⟨hhead.trans hget |>.symm, ?_⟩, rfl, rfl⟩
    rw [← hdrop, List.tail_drop]
  | none =>
    refine ⟨hif, ⟨hhead.trans hget |>.symm, ?_⟩, rfl, rfl⟩
    rw [← hdrop, List.tail_drop, List.drop_eq_nil_of_le (List.getElem?_eq_none_iff.mp hget),
      List.drop_eq_nil_of_le (Nat.le_succ_of_le (List.getElem?_eq_none_iff.mp hget))]

/-- Decode waits for the instruction before it. -/
theorem run_stall (hid : p.idStage = some a) (hraw : p.exStage.any a.rawHazard = true)
    (hs : stats.Sound) (hroom : stats.cycles + 1 < 2 ^ 64) :
    p.run prog stats = { p with memStage := p.exStage, exStage := none }.run prog
      (stats.tick p.memStage.isSome true) := by
  have hbusy : p.busy prog = true := by simp [busy, hid]
  have hcycle : p.cycle prog = ({ p with memStage := p.exStage, exStage := none }, true) := by
    simp [cycle, hid, hraw]
  rw [run_cycle hbusy hs hroom, hcycle]

/-- Decode hands its instruction on. -/
theorem run_issue (hid : p.idStage = some a) (hraw : p.exStage.any a.rawHazard = false)
    (hfeed : p.Feeds prog upstream) (hs : stats.Sound) (hroom : stats.cycles + 1 < 2 ^ 64) :
    ∃ p' : Pipe, p'.idStage = upstream.head? ∧ p'.exStage = some a ∧ p'.memStage = p.exStage ∧
      p'.Feeds prog upstream.tail ∧
      p.run prog stats = p'.run prog (stats.tick p.memStage.isSome false) := by
  have hbusy : p.busy prog = true := by simp [busy, hid]
  let q : Pipe := { p with memStage := p.exStage, exStage := some a, idStage := none }
  have hcycle : p.cycle prog = (q.fetch prog, false) := by simp [q, cycle, hid, hraw]
  obtain ⟨hid', hfeed', hex, hmem⟩ := fetch_feeds (p := q) hfeed
  refine ⟨q.fetch prog, hid', hex, hmem, hfeed', ?_⟩
  rw [run_cycle hbusy hs hroom, hcycle]

/-- Nothing is in decode. -/
theorem run_idle (hid : p.idStage = none) (hbusy : p.busy prog = true)
    (hfeed : p.Feeds prog upstream) (hs : stats.Sound) (hroom : stats.cycles + 1 < 2 ^ 64) :
    ∃ p' : Pipe, p'.idStage = upstream.head? ∧ p'.exStage = none ∧ p'.memStage = p.exStage ∧
      p'.Feeds prog upstream.tail ∧
      p.run prog stats = p'.run prog (stats.tick p.memStage.isSome false) := by
  let q : Pipe := { p with memStage := p.exStage, exStage := none }
  have hcycle : p.cycle prog = (q.fetch prog, false) := by simp [q, cycle, hid]
  obtain ⟨hid', hfeed', hex, hmem⟩ := fetch_feeds (p := q) hfeed
  refine ⟨q.fetch prog, hid', hex, hmem, hfeed', ?_⟩
  rw [run_cycle hbusy hs hroom, hcycle]

/-- The last instruction takes two more cycles after it has left decode. -/
theorem run_last (hid : p.idStage = none) (hex : p.exStage = some a) (hfeed : p.Feeds prog [])
    (hs : stats.Sound) (hroom : stats.cycles + 2 < 2 ^ 64) :
    p.run prog stats = some ⟨stats.instrs + p.memStage.isSome.toNat + 1, stats.cycles + 2,
      stats.stalls⟩ := by
  obtain ⟨p₁, hid₁, hex₁, hmem₁, hfeed₁, hrun₁⟩ :=
    run_idle hid (by simp [busy, hex]) hfeed hs (by omega)
  obtain ⟨p₂, hid₂, hex₂, hmem₂, hfeed₂, hrun₂⟩ :=
    run_idle hid₁ (by simp [busy, hmem₁, hex]) hfeed₁ (hs.tick p.memStage.isSome false)
      (by simp only [PipeStats.tick]; omega)
  have hdone : p₂.busy prog = false := by
    have hend : prog.length ≤ p₂.pc := List.drop_eq_nil_iff.mp hfeed₂.2
    simp [busy, hid₂, hex₂, hmem₂, hex₁, hfeed₂.1, hend]
  rw [hrun₁, hrun₂, run_done hdone, hmem₁, hex]
  rfl

/-- What is left when an instruction has just left decode: each of the others takes
a cycle there, and one more behind an instruction it depends on. -/
theorem run_behind (hid : p.idStage = upstream.head?) (hex : p.exStage = some a)
    (hfeed : p.Feeds prog upstream.tail) (hs : stats.Sound)
    (hroom : stats.cycles + 2 + upstream.length + hazards (some a) upstream < 2 ^ 64) :
    p.run prog stats = some
      ⟨stats.instrs + p.memStage.isSome.toNat + 1 + upstream.length,
        stats.cycles + 2 + upstream.length + hazards (some a) upstream,
        stats.stalls + hazards (some a) upstream⟩ := by
  induction upstream generalizing p stats a with
  | nil => exact run_last hid hex hfeed hs hroom
  | cons b rest ih =>
    rw [List.length_cons, hazards] at hroom
    rw [List.length_cons, hazards]
    cases hraw : (some a).any b.rawHazard with
    | false =>
      simp only [hraw, Bool.toNat_false] at hroom ⊢
      obtain ⟨p', hid', hex', hmem', hfeed', hrun⟩ :=
        run_issue hid (by rw [hex, hraw]) hfeed hs (by omega)
      rw [hrun, ih hid' hex' hfeed' (hs.tick _ _) (by simp only [PipeStats.tick]; omega), hmem', hex]
      simp only [PipeStats.tick, Option.isSome_some, Bool.toNat_true, Bool.toNat_false,
        Option.some.injEq, PipeStats.mk.injEq]
      omega
    | true =>
      simp only [hraw, Bool.toNat_true] at hroom ⊢
      let q : Pipe := { p with memStage := p.exStage, exStage := none }
      obtain ⟨p', hid', hex', hmem', hfeed', hrun⟩ :=
        run_issue (p := q) hid rfl hfeed (hs.tick p.memStage.isSome true)
          (by simp only [PipeStats.tick]; omega)
      rw [run_stall hid (by rw [hex, hraw]) hs (by omega), hrun,
        ih hid' hex' hfeed' ((hs.tick _ _).tick _ _) (by simp only [PipeStats.tick]; omega), hmem']
      simp only [q, PipeStats.tick, hex, Option.isSome_some, Option.isSome_none, Bool.toNat_true,
        Bool.toNat_false, Option.some.injEq, PipeStats.mk.injEq]
      omega

end Pipe

/-- The closed form of the simulation, for every program. -/
theorem simulatePipeline_eq (prog : Slice SimInstr 4) :
    simulatePipeline prog = some
      (if prog.toList = [] then ⟨0, 0, 0⟩
      else ⟨prog.toList.length, prog.toList.length + 4 + dependencies prog.toList,
        dependencies prog.toList⟩) := by
  have hfits := prog.fits
  unfold simulatePipeline
  generalize prog.toList = l at hfits
  cases l with
  | nil => rfl
  | cons a rest =>
    have hle := dependencies_le (a :: rest)
    have hsum : hazards (some a) rest = dependencies (a :: rest) := by
      rw [← hazards_none, hazards]
      exact (Nat.zero_add _).symm
    rw [List.length_cons] at hle hfits
    have hs : (⟨0, 0, 0⟩ : PipeStats).Sound := ⟨Nat.le_refl 0, Nat.le_refl 0⟩
    have hfetch : Pipe.new.run (a :: rest) ⟨0, 0, 0⟩ =
        (⟨some a, none, none, none, 1⟩ : Pipe).run (a :: rest) ⟨0, 1, 0⟩ :=
      Pipe.run_cycle rfl hs (by decide)
    have hfeed : (⟨some a, none, none, none, 1⟩ : Pipe).Feeds (a :: rest) (a :: rest) := ⟨rfl, rfl⟩
    obtain ⟨p₁, hid₁, hex₁, hmem₁, hfeed₁, hdecode⟩ :=
      Pipe.run_idle rfl (by simp [Pipe.busy]) hfeed (hs.tick false false) (by decide)
    obtain ⟨p₂, hid₂, hex₂, hmem₂, hfeed₂, hissue⟩ :=
      Pipe.run_issue hid₁ (by rw [hex₁]; rfl) hfeed₁ ((hs.tick false false).tick false false)
        (by decide)
    have hrest := Pipe.run_behind hid₂ hex₂ hfeed₂
      (((hs.tick false false).tick false false).tick false false)
      (by simp only [PipeStats.tick, Bool.toNat_false, List.tail_cons]; omega)
    rw [hmem₂, hex₁] at hrest
    rw [hmem₁] at hissue
    rw [if_neg (by simp), if_neg (by simp), hfetch]
    refine hdecode.trans (hissue.trans (hrest.trans ?_))
    simp only [PipeStats.tick, List.tail_cons, hsum, Option.isSome_none, Bool.toNat_false,
      List.length_cons, Option.some.injEq, PipeStats.mk.injEq]
    omega

end Runix
