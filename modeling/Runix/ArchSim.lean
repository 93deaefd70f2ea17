import Runix.Lib.Bytes
import Runix.Lib.Lru

namespace Runix

/-- A `&[T]` whose elements take `size` bytes; no slice is longer than `isize::MAX`
bytes. -/
structure Slice (α : Type) (size : Nat) where
  toList : List α
  fits : toList.length * size < 2 ^ 63

/-- `x += 1` on a `u64`; `none` is an overflow. -/
def incrU64 (x : Nat) : Option Nat := if x + 1 < 2 ^ 64 then some (x + 1) else none

theorem incrU64_of_lt {x : Nat} (h : x + 1 < 2 ^ 64) : incrU64 x = some (x + 1) := if_pos h

structure CacheConfig where
  assoc : Nat
  numLines : Nat
  lineBytes : Nat

structure CacheStats where
  accesses : Nat
  hits : Nat
  misses : Nat
  evictions : Nat
deriving DecidableEq

structure SimCacheLine where
  valid : Bool
  tag : Nat
  lru : Nat

abbrev SimCache := Fin 1024 → SimCacheLine

/-- The locals of `simulate_cache` that a round of its loop changes. -/
structure CacheSim where
  cache : SimCache
  lruCounter : Nat
  stats : CacheStats

def CacheStats.zero : CacheStats := ⟨0, 0, 0, 0⟩

def CacheSim.new : CacheSim := ⟨fun _ => ⟨false, 0, 0⟩, 0, CacheStats.zero⟩

namespace SimCache

/-- The search of a set for a tag; the outer `none` is an access out of bounds. -/
def findTag (cache : SimCache) (numLines tag : Nat) : List Nat → Option (Option Nat)
  | [] => some none
  | idx :: rest =>
    if idx < numLines then do
      let line ← Lib.index cache idx
      if line.valid && line.tag = tag then some (some idx) else findTag cache numLines tag rest
    else findTag cache numLines tag rest

def findVictim (cache : SimCache) (numLines : Nat) :
    List Nat → Nat → Nat → Option (Option Nat × Nat)
  | [], lruIdx, _ => some (none, lruIdx)
  | idx :: rest, lruIdx, minLru =>
    if idx < numLines then do
      let line ← Lib.index cache idx
      if !line.valid then some (some idx, lruIdx)
      else if line.lru < minLru then findVictim cache numLines rest idx line.lru
      else findVictim cache numLines rest lruIdx minLru
    else findVictim cache numLines rest lruIdx minLru

end SimCache

namespace CacheSim

def hit (s : CacheSim) (lruCounter idx : Nat) : Option CacheSim := do
  let line ← Lib.index s.cache idx
  let cache ← Lib.assign s.cache idx { line with lru := lruCounter }
  let hits ← incrU64 s.stats.hits
  some ⟨cache, lruCounter, { s.stats with hits := hits }⟩

def miss (s : CacheSim) (numLines lruCounter setStart tag : Nat) (set : List Nat) :
    Option CacheSim := do
  let misses ← incrU64 s.stats.misses
  let stats := { s.stats with misses := misses }
  match ← s.cache.findVictim numLines set setStart (2 ^ 64 - 1) with
  | (some idx, _) =>
    if idx < numLines then do
      let cache ← Lib.assign s.cache idx ⟨true, tag, lruCounter⟩
      some ⟨cache, lruCounter, stats⟩
    else some ⟨s.cache, lruCounter, stats⟩
  | (none, lruIdx) =>
    if lruIdx < numLines then do
      let line ← Lib.index s.cache lruIdx
      let cache ← Lib.assign s.cache lruIdx { line with tag := tag, lru := lruCounter }
      let evictions ← incrU64 stats.evictions
      some ⟨cache, lruCounter, { stats with evictions := evictions }⟩
    else some ⟨s.cache, lruCounter, stats⟩

def settle (s : CacheSim) (numLines lruCounter setStart tag : Nat) (set : List Nat) :
    Option Nat → Option CacheSim
  | some idx => s.hit lruCounter idx
  | none => s.miss numLines lruCounter setStart tag set

/-- One round of the loop; `none` is a panic. The end of the set is at most the
number of lines, so its bounds do not overflow. -/
def access (cfg : CacheConfig) (numSets numLines : Nat) (s : CacheSim) (addr : Nat) :
    Option CacheSim := do
  let accesses ← incrU64 s.stats.accesses
  let s := { s with stats := { s.stats with accesses := accesses } }
  let lruCounter ← incrU64 s.lruCounter
  -- a division by zero
  if cfg.lineBytes = 0 then none
  else do
    let lineAddr := addr / cfg.lineBytes
    let setIdx := lineAddr % numSets
    let tag := lineAddr / numSets
    let setStart := setIdx * cfg.assoc
    let set := List.range' setStart cfg.assoc
    let found ← s.cache.findTag numLines tag set
    s.settle numLines lruCounter setStart tag set found

end CacheSim

def simulateCache (cfg : CacheConfig) (addrs : Slice Nat 8) : Option CacheStats :=
  if cfg.assoc = 0 ∨ cfg.numLines = 0 ∨ cfg.assoc > cfg.numLines then some CacheStats.zero
  else
    let numSets := cfg.numLines / cfg.assoc
    if numSets = 0 then some CacheStats.zero
    else
      let numLines := min cfg.numLines 1024
      (addrs.toList.foldlM (CacheSim.access cfg numSets numLines) CacheSim.new).map CacheSim.stats

inductive InstrKind where
  | alu
  | load
  | store
  | branch
deriving DecidableEq

structure SimInstr where
  kind : InstrKind
  rd : UInt8
  rs1 : UInt8
  rs2 : UInt8
deriving DecidableEq

structure PipeStats where
  instrs : Nat
  cycles : Nat
  stalls : Nat
deriving DecidableEq

def SimInstr.rawHazard (instr other : SimInstr) : Bool :=
  other.rd ≠ 0 && (other.rd = instr.rs1 || other.rd = instr.rs2)

/-- The locals of `simulate_pipeline` that hold instructions. -/
structure Pipe where
  ifStage : Option SimInstr
  idStage : Option SimInstr
  exStage : Option SimInstr
  memStage : Option SimInstr
  pc : Nat

namespace Pipe

def new : Pipe := ⟨none, none, none, none, 0⟩

def busy (prog : List SimInstr) (p : Pipe) : Bool :=
  p.pc < prog.length || p.ifStage.isSome || p.idStage.isSome || p.exStage.isSome ||
    p.memStage.isSome

def fetch (prog : List SimInstr) (p : Pipe) : Pipe :=
  match prog[p.pc]? with
  | some instr => { p with idStage := p.ifStage, ifStage := some instr, pc := p.pc + 1 }
  | none => { p with idStage := p.ifStage, ifStage := none }

def cycle (prog : List SimInstr) (p : Pipe) : Pipe × Bool :=
  let p := { p with memStage := p.exStage, exStage := none }
  match p.idStage with
  | some idInstr =>
    if p.exStage.any idInstr.rawHazard || p.memStage.any idInstr.rawHazard then (p, true)
    else ({ p with exStage := some idInstr, idStage := none }.fetch prog, false)
  | none => (p.fetch prog, false)

def work (prog : List SimInstr) (p : Pipe) : Nat :=
  5 * (prog.length - p.pc) + 4 * p.ifStage.toList.length + 3 * p.idStage.toList.length +
    2 * p.exStage.toList.length + p.memStage.toList.length

theorem work_fetch (prog : List SimInstr) (p : Pipe) (h : p.idStage = none) :
    (p.fetch prog).work prog + (if p.pc < prog.length then 1 else 0) +
      p.ifStage.toList.length = p.work prog := by
  unfold fetch
  split
  · rename_i instr hget
    have hlt : p.pc < prog.length := (List.getElem?_eq_some_iff.mp hget).1
    simp only [work, h, hlt, if_true, Option.toList_some, Option.toList_none, List.length_cons,
      List.length_nil]
    omega
  · rename_i hget
    have hle : ¬ p.pc < prog.length := Nat.not_lt.mpr (List.getElem?_eq_none_iff.mp hget)
    simp only [work, h, hle, if_false, Option.toList_none, List.length_nil]
    omega

/-- Every cycle brings some instruction on. -/
theorem work_cycle (prog : List SimInstr) (p : Pipe) (h : p.busy prog = true) :
    (p.cycle prog).1.work prog < p.work prog := by
  obtain ⟨ifStage, idStage, exStage, memStage, pc⟩ := p
  simp only [busy, Bool.or_eq_true, decide_eq_true_eq, Option.isSome_iff_exists] at h
  cases idStage with
  | none =>
    have hfetch := work_fetch prog ⟨ifStage, none, none, exStage, pc⟩ rfl
    simp only [cycle]
    simp only [work, Option.toList_none, List.length_nil] at hfetch ⊢
    rcases h with (((h | ⟨i, rfl⟩) | ⟨i, h⟩) | ⟨i, rfl⟩) | ⟨i, rfl⟩
    · rw [if_pos h] at hfetch
      omega
    · simp only [Option.toList_some, List.length_cons, List.length_nil] at hfetch ⊢
      omega
    · cases h
    · simp only [Option.toList_some, List.length_cons, List.length_nil] at hfetch ⊢
      omega
    · simp only [Option.toList_some, List.length_cons, List.length_nil] at hfetch ⊢
      omega
  | some idInstr =>
    simp only [cycle]
    split
    · -- a stall: the instruction that is waited for moves on
      rename_i hstall
      cases exStage with
      | none => simp at hstall
      | some exInstr =>
        simp only [work, Option.toList_none, Option.toList_some, List.length_cons, List.length_nil]
        omega
    · have hfetch := work_fetch prog ⟨ifStage, none, some idInstr, exStage, pc⟩ rfl
      simp only [work, Option.toList_none, Option.toList_some, List.length_cons,
        List.length_nil] at hfetch ⊢
      omega

/-- The loop; `none` is an overflow of a counter. -/
def run (prog : List SimInstr) (p : Pipe) (stats : PipeStats) : Option PipeStats :=
  if _h : p.busy prog = true then
    (incrU64 stats.cycles).bind fun cycles =>
    (if p.memStage.isSome then incrU64 stats.instrs else some stats.instrs).bind fun instrs =>
    (if (p.cycle prog).2 then incrU64 stats.stalls else some stats.stalls).bind fun stalls =>
    run prog (p.cycle prog).1 ⟨instrs, cycles, stalls⟩
  else some stats
termination_by p.work prog
decreasing_by exact work_cycle prog p _h

end Pipe

def simulatePipeline (prog : Slice SimInstr 4) : Option PipeStats :=
  if prog.toList.isEmpty then some ⟨0, 0, 0⟩ else Pipe.new.run prog.toList ⟨0, 0, 0⟩

end Runix
