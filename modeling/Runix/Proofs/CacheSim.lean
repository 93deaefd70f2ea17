import Mathlib.Data.List.Perm.Basic
import Mathlib.Data.List.Perm.Subperm
import Runix.ArchSim

namespace Runix

namespace SimCache
variable {cache : SimCache} {numLines tag lo ways clock now idx : Nat} {idxs order keys : List Nat}

def lineAt (cache : SimCache) (i : Nat) : SimCacheLine :=
  if h : i < 1024 then cache ⟨i, h⟩ else ⟨false, 0, 0⟩

theorem index_lineAt (cache : SimCache) (h : idx < 1024) : Lib.index cache idx = some (cache.lineAt idx) := by
  rw [Lib.index_of_lt h, lineAt, dif_pos h]

theorem assign_lineAt (cache : SimCache) (h : idx < 1024) (line : SimCacheLine) :
    ∃ cache' : SimCache, Lib.assign cache idx line = some cache' ∧
      ∀ i, cache'.lineAt i = if i = idx then line else cache.lineAt i := by
  refine ⟨_, Lib.assign_of_lt h line, fun i => ?_⟩
  unfold lineAt
  by_cases hi : i < 1024
  · rw [dif_pos hi, dif_pos hi, Function.update_apply]
    simp only [Fin.mk.injEq]
  · rw [dif_neg hi, dif_neg hi, if_neg (by omega)]

def Matching (cache : SimCache) (tag i : Nat) : Prop :=
  (cache.lineAt i).valid = true ∧ (cache.lineAt i).tag = tag

/-- The first search finds a line with the tag if the set has one. -/
theorem findTag_cases (cache : SimCache) (tag : Nat) (hall : ∀ i ∈ idxs, i < numLines) (hle : numLines ≤ 1024) :
    (∃ idx ∈ idxs, cache.findTag numLines tag idxs = some (some idx) ∧ cache.Matching tag idx) ∨
    (cache.findTag numLines tag idxs = some none ∧ ∀ i ∈ idxs, ¬ cache.Matching tag i) := by
  induction idxs with
  | nil => exact .inr ⟨rfl, fun i hi => absurd hi List.not_mem_nil⟩
  | cons i is ih =>
    have hi : i < numLines := hall i List.mem_cons_self
    have hrest := ih (fun j hj => hall j (List.mem_cons_of_mem i hj))
    by_cases hm : cache.Matching tag i
    · refine .inl ⟨i, List.mem_cons_self, ?_, hm⟩
      simp [findTag, hi, index_lineAt cache (Nat.lt_of_lt_of_le hi hle), hm.1, hm.2]
    · have hnext : cache.findTag numLines tag (i :: is) = cache.findTag numLines tag is := by
        have hcond : ¬ ((cache.lineAt i).valid = true ∧ (cache.lineAt i).tag = tag) := hm
        simp [findTag, hi, index_lineAt cache (Nat.lt_of_lt_of_le hi hle), hcond]
      rw [hnext]
      rcases hrest with ⟨idx, hmem, hfind, hmatch⟩ | ⟨hfind, hnone⟩
      · exact .inl ⟨idx, List.mem_cons_of_mem i hmem, hfind, hmatch⟩
      · exact .inr ⟨hfind, List.forall_mem_cons.mpr ⟨hm, hnone⟩⟩

/-- The second search ends at an empty line, or all lines are in use and it has the
oldest of them. -/
theorem findVictim_cases (cache : SimCache) (hall : ∀ i ∈ idxs, i < numLines) (hle : numLines ≤ 1024)
    (lruIdx minLru : Nat) :
    (∃ idx ∈ idxs, ∃ k, cache.findVictim numLines idxs lruIdx minLru = some (some idx, k) ∧
      (cache.lineAt idx).valid = false) ∨
    (∃ v, cache.findVictim numLines idxs lruIdx minLru = some (none, v) ∧
      (∀ i ∈ idxs, (cache.lineAt i).valid = true) ∧
      (v = lruIdx ∧ (∀ i ∈ idxs, minLru ≤ (cache.lineAt i).lru) ∨
        v ∈ idxs ∧ (cache.lineAt v).lru < minLru ∧
          ∀ i ∈ idxs, (cache.lineAt v).lru ≤ (cache.lineAt i).lru)) := by
  induction idxs generalizing lruIdx minLru with
  | nil => exact .inr ⟨lruIdx, rfl, by simp, .inl ⟨rfl, by simp⟩⟩
  | cons i is ih =>
    have hi : i < numLines := hall i List.mem_cons_self
    have hline := index_lineAt cache (Nat.lt_of_lt_of_le hi hle)
    have hrest := ih (fun j hj => hall j (List.mem_cons_of_mem i hj))
    cases hv : (cache.lineAt i).valid with
    | false =>
      refine .inl ⟨i, List.mem_cons_self, lruIdx, ?_, hv⟩
      simp [findVictim, hi, hline, hv]
    | true =>
      by_cases hlt : (cache.lineAt i).lru < minLru
      · have hnext : cache.findVictim numLines (i :: is) lruIdx minLru =
            cache.findVictim numLines is i (cache.lineAt i).lru := by
          simp [findVictim, hi, hline, hv, hlt]
        rw [hnext]
        rcases hrest i (cache.lineAt i).lru with ⟨idx, hmem, k, hfind, he⟩ | ⟨v, hfind, hvalid, hold⟩
        · exact .inl ⟨idx, List.mem_cons_of_mem i hmem, k, hfind, he⟩
        · refine .inr ⟨v, hfind, List.forall_mem_cons.mpr ⟨hv, hvalid⟩, .inr ?_⟩
          rcases hold with ⟨rfl, hmin⟩ | ⟨hmem, hlow, hmin⟩
          · exact ⟨List.mem_cons_self, hlt, List.forall_mem_cons.mpr ⟨Nat.le_refl _, hmin⟩⟩
          · exact ⟨List.mem_cons_of_mem i hmem, by omega,
              List.forall_mem_cons.mpr ⟨Nat.le_of_lt hlow, hmin⟩⟩
      · have hnext : cache.findVictim numLines (i :: is) lruIdx minLru =
            cache.findVictim numLines is lruIdx minLru := by
          simp [findVictim, hi, hline, hv, hlt]
        rw [hnext]
        rcases hrest lruIdx minLru with ⟨idx, hmem, k, hfind, he⟩ | ⟨v, hfind, hvalid, hold⟩
        · exact .inl ⟨idx, List.mem_cons_of_mem i hmem, k, hfind, he⟩
        · refine .inr ⟨v, hfind, List.forall_mem_cons.mpr ⟨hv, hvalid⟩, ?_⟩
          rcases hold with ⟨rfl, hmin⟩ | ⟨hmem, hlow, hmin⟩
          · exact .inl ⟨rfl, List.forall_mem_cons.mpr ⟨Nat.le_of_not_lt hlt, hmin⟩⟩
          · exact .inr ⟨List.mem_cons_of_mem i hmem, hlow,
              List.forall_mem_cons.mpr ⟨by omega, hmin⟩⟩

def InUse (cache : SimCache) (lo ways i : Nat) : Prop :=
  i ∈ List.range' lo ways ∧ (cache.lineAt i).valid = true

structure Holds (cache : SimCache) (lo ways clock : Nat) (order keys : List Nat) : Prop where
  recent : Lib.Recent (cache.InUse lo ways) (fun i => (cache.lineAt i).lru) order
  past : ∀ i, cache.InUse lo ways i → (cache.lineAt i).lru ≤ clock
  tags : order.map (fun i => (cache.lineAt i).tag) = keys
  nodup : keys.Nodup

namespace Holds

theorem length_eq (h : cache.Holds lo ways clock order keys) : keys.length = order.length := by
  rw [← h.tags, List.length_map]

theorem length_le (h : cache.Holds lo ways clock order keys) : keys.length ≤ ways := by
  have hsub : order ⊆ List.range' lo ways := fun i hi => ((h.recent.mem i).mp hi).1
  have hle := (List.Nodup.subperm h.recent.nodup hsub).length_le
  rwa [List.length_range', ← h.length_eq] at hle

/-- An empty line leaves room for a tag. -/
theorem length_lt (h : cache.Holds lo ways clock order keys) (hmem : idx ∈ List.range' lo ways)
    (hempty : (cache.lineAt idx).valid = false) : keys.length < ways := by
  have hnot : idx ∉ order := fun hi => by
    have := ((h.recent.mem idx).mp hi).2
    rw [hempty] at this
    cases this
  have hsub : idx :: order ⊆ List.range' lo ways :=
    List.cons_subset.mpr ⟨hmem, fun i hi => ((h.recent.mem i).mp hi).1⟩
  have hle := (List.Nodup.subperm (List.nodup_cons.mpr ⟨hnot, h.recent.nodup⟩) hsub).length_le
  rwa [List.length_range', List.length_cons, ← h.length_eq] at hle

theorem length_full (h : cache.Holds lo ways clock order keys)
    (hall : ∀ i ∈ List.range' lo ways, (cache.lineAt i).valid = true) : keys.length = ways := by
  have hsub : List.range' lo ways ⊆ order := fun i hi => (h.recent.mem i).mpr ⟨hi, hall i hi⟩
  have hle := (List.Nodup.subperm List.nodup_range' hsub).length_le
  rw [List.length_range', ← h.length_eq] at hle
  exact Nat.le_antisymm h.length_le hle

/-- The set has the tag where some line has it. -/
theorem mem_keys (h : cache.Holds lo ways clock order keys) :
    tag ∈ keys ↔ ∃ i ∈ List.range' lo ways, cache.Matching tag i := by
  rw [← h.tags, List.mem_map]
  constructor
  · rintro ⟨i, hi, htag⟩
    have huse := (h.recent.mem i).mp hi
    exact ⟨i, huse.1, huse.2, htag⟩
  · rintro ⟨i, hi, hvalid, htag⟩
    exact ⟨i, (h.recent.mem i).mpr ⟨hi, hvalid⟩, htag⟩

/-- A tag written to a line now comes first, and the tags of the other lines follow
as before. -/
theorem write (h : cache.Holds lo ways clock order keys) (hmem : idx ∈ List.range' lo ways)
    (hnow : clock < now) {cache' : SimCache} (hline : ∀ i,
      cache'.lineAt i = if i = idx then ⟨true, tag, now⟩ else cache.lineAt i)
    (hnew : tag ∉ (order.erase idx).map (fun i => (cache.lineAt i).tag)) :
    cache'.Holds lo ways now (idx :: order.erase idx)
      (tag :: (order.erase idx).map (fun i => (cache.lineAt i).tag)) := by
  have hself : cache'.lineAt idx = ⟨true, tag, now⟩ := by rw [hline, if_pos rfl]
  have hother : ∀ i, i ≠ idx → cache'.lineAt i = cache.lineAt i := fun i hi => by
    rw [hline, if_neg hi]
  have huse : ∀ i, cache'.InUse lo ways i ↔ i = idx ∨ cache.InUse lo ways i := by
    intro i
    by_cases hi : i = idx
    · subst hi
      simp [InUse, hself, hmem]
    · simp [InUse, hother i hi, hi]
  refine ⟨?_, ?_, ?_, ?_⟩
  · refine (h.recent.use idx (fun j hj => Nat.lt_of_le_of_lt (h.past j hj) hnow)).congr huse ?_
    intro i _
    by_cases hi : i = idx
    · subst hi
      rw [Function.update_self, hself]
    · rw [Function.update_of_ne hi, hother i hi]
  · intro i hi
    by_cases he : i = idx
    · subst he
      exact Nat.le_of_eq (by rw [hself])
    · rw [hother i he]
      exact Nat.le_of_lt (Nat.lt_of_le_of_lt (h.past i (((huse i).mp hi).resolve_left he)) hnow)
  · rw [List.map_cons, hself]
    congr 1
    refine List.map_congr_left (fun i hi => ?_)
    rw [hother i (h.recent.nodup.mem_erase_iff.mp hi).1]
  · refine List.nodup_cons.mpr ⟨hnew, ?_⟩
    have hkeys := h.nodup
    rw [← h.tags] at hkeys
    exact hkeys.sublist (List.erase_sublist.map _)

/-- A line outside the set does not concern it. -/
theorem frame (h : cache.Holds lo ways clock order keys) (hmem : idx ∉ List.range' lo ways)
    (hnow : clock ≤ now) {cache' : SimCache} {line : SimCacheLine}
    (hline : ∀ i, cache'.lineAt i = if i = idx then line else cache.lineAt i) :
    cache'.Holds lo ways now order keys := by
  have hother : ∀ i ∈ List.range' lo ways, cache'.lineAt i = cache.lineAt i := fun i hi => by
    have hne : i ≠ idx := fun he => hmem (he ▸ hi)
    rw [hline, if_neg hne]
  have huse : ∀ i, cache'.InUse lo ways i ↔ cache.InUse lo ways i := fun i =>
    and_congr_right (fun hi => by rw [hother i hi])
  refine ⟨h.recent.congr huse (fun i hi => by rw [hother i hi.1]), fun i hi => ?_, ?_, h.nodup⟩
  · rw [hother i hi.1]
    exact Nat.le_trans (h.past i ((huse i).mp hi)) hnow
  · rw [← h.tags]
    refine List.map_congr_left (fun i hi => ?_)
    rw [hother i ((h.recent.mem i).mp hi).1]

end Holds
end SimCache

namespace CacheConfig

structure Bounded (cfg : CacheConfig) : Prop where
  one_le : 1 ≤ cfg.assoc
  assoc_le : cfg.assoc ≤ cfg.numLines
  lines_le : cfg.numLines ≤ 1024

def numSets (cfg : CacheConfig) : Nat := cfg.numLines / cfg.assoc

def place (cfg : CacheConfig) (addr : Nat) : Nat × Nat :=
  (addr / cfg.lineBytes % cfg.numSets, addr / cfg.lineBytes / cfg.numSets)

/-- The reference: a set-associative LRU cache in which each set is the list of its
tags, most recently used first. -/
def lru (cfg : CacheConfig) (addrs : List Nat) : Lib.Tally :=
  Lib.Lru.count cfg.assoc (addrs.map cfg.place)

variable {cfg : CacheConfig} {i j idx : Nat}

theorem Bounded.numSets_pos (h : cfg.Bounded) : 0 < cfg.numSets :=
  Nat.div_pos h.assoc_le h.one_le

/-- The lines of a set are lines of the cache, also when the sets do not fill it. -/
theorem line_lt (hi : i < cfg.numSets)
    (hmem : idx ∈ List.range' (i * cfg.assoc) cfg.assoc) : idx < cfg.numLines := by
  have hend : (i + 1) * cfg.assoc ≤ cfg.numLines :=
    Nat.le_trans (Nat.mul_le_mul_right _ hi) (Nat.div_mul_le_self _ _)
  rw [Nat.succ_mul] at hend
  have := (List.mem_range'_1.mp hmem).2
  omega

/-- Different sets have no line in common. -/
theorem line_disjoint (hne : j ≠ i) (hmem : idx ∈ List.range' (i * cfg.assoc) cfg.assoc) :
    idx ∉ List.range' (j * cfg.assoc) cfg.assoc := by
  intro hmem'
  have hi := List.mem_range'_1.mp hmem
  have hj := List.mem_range'_1.mp hmem'
  rcases Nat.lt_or_gt_of_ne hne with hlt | hlt
  · have := Nat.mul_le_mul_right cfg.assoc hlt
    rw [Nat.succ_mul] at this
    omega
  · have := Nat.mul_le_mul_right cfg.assoc hlt
    rw [Nat.succ_mul] at this
    omega

end CacheConfig

namespace CacheSim
variable {cfg : CacheConfig} {s s' : CacheSim} {c : Lib.Lru Nat Nat} {addr : Nat}

structure Refines (cfg : CacheConfig) (s : CacheSim) (c : Lib.Lru Nat Nat) : Prop where
  sets : ∀ i < cfg.numSets, ∃ order,
    s.cache.Holds (i * cfg.assoc) cfg.assoc s.lruCounter order (c.sets i)
  accesses : s.stats.accesses = s.lruCounter
  total : s.stats.hits + s.stats.misses = s.stats.accesses
  evictions_le : s.stats.evictions ≤ s.stats.misses
  hits : s.stats.hits = c.tally.hits
  misses : s.stats.misses = c.tally.misses
  evictions : s.stats.evictions = c.tally.evictions

theorem new_refines (cfg : CacheConfig) : new.Refines cfg Lib.Lru.empty where
  sets i _ := by
    have hline : ∀ k, (new.cache.lineAt k).valid = false := by
      intro k
      unfold SimCache.lineAt
      split <;> rfl
    have hnone : ∀ k, ¬ new.cache.InUse (i * cfg.assoc) cfg.assoc k := fun k hk => by
      have := hk.2
      rw [hline] at this
      cases this
    exact ⟨[], ⟨fun k => iff_of_false List.not_mem_nil (hnone k), .nil⟩,
      fun k hk => absurd hk (hnone k), rfl, List.nodup_nil⟩
  accesses := rfl
  total := rfl
  evictions_le := Nat.le_refl 0
  hits := rfl
  misses := rfl
  evictions := rfl

/-- One line is written, in one set. -/
theorem sets_write {order : List Nat} {i idx tag now : Nat} {cache' : SimCache} {keys : List Nat}
    (h : s.Refines cfg c) (hi : i < cfg.numSets)
    (hmem : idx ∈ List.range' (i * cfg.assoc) cfg.assoc) (hnow : s.lruCounter < now)
    (hline : ∀ k, cache'.lineAt k = if k = idx then ⟨true, tag, now⟩ else s.cache.lineAt k)
    (hset : cache'.Holds (i * cfg.assoc) cfg.assoc now order keys) :
    ∀ j < cfg.numSets, ∃ order, cache'.Holds (j * cfg.assoc) cfg.assoc now order
      (Function.update c.sets i keys j) := by
  intro j hj
  by_cases he : j = i
  · subst he
    rw [Function.update_self]
    exact ⟨_, hset⟩
  · rw [Function.update_of_ne he]
    obtain ⟨order', hold⟩ := h.sets j hj
    exact ⟨order', hold.frame (CacheConfig.line_disjoint he hmem) (Nat.le_of_lt hnow) hline⟩

def started (s : CacheSim) : CacheSim :=
  { s with stats := { s.stats with accesses := s.stats.accesses + 1 } }

section Step
variable {i tag idx : Nat} (h : s.Refines cfg c) (hb : cfg.Bounded) (hi : i < cfg.numSets)
include h hb hi

omit hb in
/-- A set that holds its keys after the use, and counters that count it. -/
theorem refines_next {order keys : List Nat} {cache' : SimCache} {stats : CacheStats}
    (hmem : idx ∈ List.range' (i * cfg.assoc) cfg.assoc)
    (hline : ∀ k, cache'.lineAt k =
      if k = idx then ⟨true, tag, s.lruCounter + 1⟩ else s.cache.lineAt k)
    (hset : cache'.Holds (i * cfg.assoc) cfg.assoc (s.lruCounter + 1) order keys)
    (hkeys : Lib.touch cfg.assoc (c.sets i) tag = keys)
    (haccesses : stats.accesses = s.stats.accesses + 1)
    (htally : (⟨stats.hits, stats.misses, stats.evictions⟩ : Lib.Tally) =
      c.tally.use cfg.assoc (c.sets i) tag) :
    Refines cfg ⟨cache', s.lruCounter + 1, stats⟩ (c.use cfg.assoc (i, tag)) := by
  have htotal := c.tally.use_total cfg.assoc (c.sets i) tag
  have hevictions := c.tally.use_evictions cfg.assoc (c.sets i) tag
    (by rw [← h.evictions, ← h.misses]; exact h.evictions_le)
  rw [← htally] at htotal hevictions
  subst hkeys
  refine ⟨sets_write h hi hmem (Nat.lt_succ_self _) hline hset, ?_, ?_, hevictions,
    congrArg Lib.Tally.hits htally, congrArg Lib.Tally.misses htally,
    congrArg Lib.Tally.evictions htally⟩
  · rw [haccesses, h.accesses]
  · rw [haccesses, ← h.total, h.hits, h.misses]
    exact htotal

theorem hit_refines (hclock : s.lruCounter + 1 < 2 ^ 64)
    (hmem : idx ∈ List.range' (i * cfg.assoc) cfg.assoc)
    (hmatch : s.cache.Matching tag idx) :
    ∃ s', s.started.hit (s.lruCounter + 1) idx = some s' ∧ s'.lruCounter = s.lruCounter + 1 ∧
      s'.Refines cfg (c.use cfg.assoc (i, tag)) := by
  obtain ⟨order, hold⟩ := h.sets i hi
  have hlt : idx < 1024 := Nat.lt_of_lt_of_le (CacheConfig.line_lt hi hmem) hb.lines_le
  obtain ⟨hvalid, htag⟩ := hmatch
  obtain ⟨cache', hassign, hline⟩ := SimCache.assign_lineAt s.cache hlt
    { s.cache.lineAt idx with lru := s.lruCounter + 1 }
  have hline' : ∀ k, cache'.lineAt k =
      if k = idx then ⟨true, tag, s.lruCounter + 1⟩ else s.cache.lineAt k := by
    intro k
    simp only [hline k, hvalid, htag]
  have hkey : tag ∈ c.sets i := hold.mem_keys.mpr ⟨idx, hmem, hvalid, htag⟩
  have horder : idx ∈ order := (hold.recent.mem idx).mpr ⟨hmem, hvalid⟩
  have herase : (order.erase idx).map (fun k => (s.cache.lineAt k).tag) = (c.sets i).erase tag := by
    have hkeys := hold.nodup
    rw [← hold.tags] at hkeys
    rw [Lib.map_erase_of_nodup hkeys horder, hold.tags, htag]
  have hset := hold.write hmem (Nat.lt_succ_self _) hline'
    (by rw [herase]; exact hold.nodup.not_mem_erase)
  rw [herase] at hset
  have hhits : s.stats.hits + 1 < 2 ^ 64 := by
    have := h.total
    have := h.accesses
    omega
  refine ⟨⟨cache', s.lruCounter + 1, { s.started.stats with hits := s.stats.hits + 1 }⟩, ?_, rfl, ?_⟩
  · simp only [hit, started, SimCache.index_lineAt s.cache hlt, hassign, incrU64_of_lt hhits,
      Option.bind_eq_bind, Option.bind_some]
  · refine refines_next h hi hmem hline' hset (Lib.touch_of_mem hkey hold.length_le) rfl ?_
    rw [Lib.Tally.use, if_pos hkey, ← h.hits, ← h.misses, ← h.evictions]
    rfl

theorem fill_refines (hmem : idx ∈ List.range' (i * cfg.assoc) cfg.assoc)
    (hempty : (s.cache.lineAt idx).valid = false) (hnew : tag ∉ c.sets i) :
    ∃ cache', Lib.assign s.cache idx ⟨true, tag, s.lruCounter + 1⟩ = some cache' ∧
      Refines cfg ⟨cache', s.lruCounter + 1,
        { s.started.stats with misses := s.stats.misses + 1 }⟩ (c.use cfg.assoc (i, tag)) := by
  obtain ⟨order, hold⟩ := h.sets i hi
  have hlt : idx < 1024 := Nat.lt_of_lt_of_le (CacheConfig.line_lt hi hmem) hb.lines_le
  obtain ⟨cache', hassign, hline⟩ := SimCache.assign_lineAt s.cache hlt
    ⟨true, tag, s.lruCounter + 1⟩
  have horder : idx ∉ order := fun hin => by
    have := ((hold.recent.mem idx).mp hin).2
    rw [hempty] at this
    cases this
  have hset := hold.write hmem (Nat.lt_succ_self _) hline
    (by rw [List.erase_of_not_mem horder, hold.tags]; exact hnew)
  rw [List.erase_of_not_mem horder, hold.tags] at hset
  have hroom := hold.length_lt hmem hempty
  refine ⟨cache', hassign, refines_next h hi hmem hline hset (Lib.touch_of_lt hnew hroom) rfl ?_⟩
  rw [Lib.Tally.use, if_neg hnew, if_neg (Nat.ne_of_lt hroom), ← h.hits, ← h.misses, ← h.evictions]
  rfl

theorem replace_refines (hmem : idx ∈ List.range' (i * cfg.assoc) cfg.assoc)
    (hfull : ∀ k ∈ List.range' (i * cfg.assoc) cfg.assoc, (s.cache.lineAt k).valid = true)
    (hleast : ∀ k ∈ List.range' (i * cfg.assoc) cfg.assoc,
      (s.cache.lineAt idx).lru ≤ (s.cache.lineAt k).lru)
    (hnew : tag ∉ c.sets i) :
    ∃ cache', Lib.assign s.cache idx
        { s.cache.lineAt idx with tag := tag, lru := s.lruCounter + 1 } = some cache' ∧
      Refines cfg ⟨cache', s.lruCounter + 1, { s.started.stats with
        misses := s.stats.misses + 1, evictions := s.stats.evictions + 1 }⟩
        (c.use cfg.assoc (i, tag)) := by
  obtain ⟨order, hold⟩ := h.sets i hi
  have hlt : idx < 1024 := Nat.lt_of_lt_of_le (CacheConfig.line_lt hi hmem) hb.lines_le
  obtain ⟨cache', hassign, hline⟩ := SimCache.assign_lineAt s.cache hlt
    { s.cache.lineAt idx with tag := tag, lru := s.lruCounter + 1 }
  have hline' : ∀ k, cache'.lineAt k =
      if k = idx then ⟨true, tag, s.lruCounter + 1⟩ else s.cache.lineAt k := by
    intro k
    simp only [hline k, hfull idx hmem]
  have herase : (order.erase idx).map (fun k => (s.cache.lineAt k).tag) = (c.sets i).dropLast := by
    rw [hold.recent.erase_least ⟨hmem, hfull idx hmem⟩ (fun k hk => hleast k hk.1), List.map_dropLast,
      hold.tags]
  have hset := hold.write hmem (Nat.lt_succ_self _) hline'
    (by rw [herase]; exact fun hin => hnew (List.dropLast_subset _ hin))
  rw [herase] at hset
  have hlen := hold.length_full hfull
  refine ⟨cache', hassign, refines_next h hi hmem hline' hset
    (Lib.touch_of_full hnew hlen hb.one_le) rfl ?_⟩
  rw [Lib.Tally.use, if_neg hnew, if_pos hlen, ← h.hits, ← h.misses, ← h.evictions]
  rfl

theorem miss_refines (hclock : s.lruCounter + 1 < 2 ^ 64)
    (hnone : ∀ k ∈ List.range' (i * cfg.assoc) cfg.assoc,
      ¬ s.cache.Matching tag k) :
    ∃ s', s.started.miss cfg.numLines (s.lruCounter + 1) (i * cfg.assoc) tag
        (List.range' (i * cfg.assoc) cfg.assoc) = some s' ∧ s'.lruCounter = s.lruCounter + 1 ∧
      s'.Refines cfg (c.use cfg.assoc (i, tag)) := by
  obtain ⟨order, hold⟩ := h.sets i hi
  have hnew : tag ∉ c.sets i := fun hin => by
    obtain ⟨k, hk, hmatch⟩ := hold.mem_keys.mp hin
    exact hnone k hk hmatch
  have hall : ∀ k ∈ List.range' (i * cfg.assoc) cfg.assoc, k < cfg.numLines :=
    fun k hk => CacheConfig.line_lt hi hk
  have hmisses : s.stats.misses + 1 < 2 ^ 64 := by
    have := h.total
    have := h.accesses
    omega
  rcases SimCache.findVictim_cases s.cache hall hb.lines_le (i * cfg.assoc) (2 ^ 64 - 1)
    with ⟨idx, hmem, k, hfind, hempty⟩ | ⟨v, hfind, hfull, hold'⟩
  · obtain ⟨cache', hassign, href⟩ := fill_refines h hb hi hmem hempty hnew
    refine ⟨_, ?_, rfl, href⟩
    simp only [miss, started, incrU64_of_lt hmisses, hfind, hassign, if_pos (hall idx hmem),
      Option.bind_eq_bind, Option.bind_some]
  · have hfirst : i * cfg.assoc ∈ List.range' (i * cfg.assoc) cfg.assoc :=
      List.mem_range'_1.mpr ⟨Nat.le_refl _, Nat.lt_add_of_pos_right hb.one_le⟩
    have hstamp := hold.past _ ⟨hfirst, hfull _ hfirst⟩
    have hleast : v ∈ List.range' (i * cfg.assoc) cfg.assoc ∧
        ∀ k ∈ List.range' (i * cfg.assoc) cfg.assoc,
          (s.cache.lineAt v).lru ≤ (s.cache.lineAt k).lru := by
      rcases hold' with ⟨_, hmin⟩ | ⟨hmem, _, hmin⟩
      · have := hmin _ hfirst
        omega
      · exact ⟨hmem, hmin⟩
    obtain ⟨cache', hassign, href⟩ := replace_refines h hb hi hleast.1 hfull hleast.2 hnew
    have hevict : s.stats.evictions + 1 < 2 ^ 64 := by
      have := h.evictions_le
      omega
    have hlt := hall v hleast.1
    refine ⟨_, ?_, rfl, href⟩
    simp only [miss, started, incrU64_of_lt hmisses, hfind, hassign, if_pos hlt,
      SimCache.index_lineAt s.cache (Nat.lt_of_lt_of_le hlt hb.lines_le), incrU64_of_lt hevict,
      Option.bind_eq_bind, Option.bind_some]

end Step

/-- One address keeps the array and the recency lists together. -/
theorem access_refines (hb : cfg.Bounded) (hbytes : 0 < cfg.lineBytes) (h : s.Refines cfg c)
    (hclock : s.lruCounter + 1 < 2 ^ 64) (addr : Nat) :
    ∃ s', s.access cfg cfg.numSets cfg.numLines addr = some s' ∧
      s'.lruCounter = s.lruCounter + 1 ∧ s'.Refines cfg (c.use cfg.assoc (cfg.place addr)) := by
  have hi : addr / cfg.lineBytes % cfg.numSets < cfg.numSets := Nat.mod_lt _ hb.numSets_pos
  have haccesses : s.stats.accesses + 1 < 2 ^ 64 := by rwa [h.accesses]
  have hstart : s.access cfg cfg.numSets cfg.numLines addr =
      (s.cache.findTag cfg.numLines (cfg.place addr).2
        (List.range' ((cfg.place addr).1 * cfg.assoc) cfg.assoc)).bind
      (s.started.settle cfg.numLines (s.lruCounter + 1) ((cfg.place addr).1 * cfg.assoc)
        (cfg.place addr).2 (List.range' ((cfg.place addr).1 * cfg.assoc) cfg.assoc)) := by
    simp only [access, incrU64_of_lt haccesses, incrU64_of_lt hclock, if_neg (Nat.ne_of_gt hbytes),
      Option.bind_eq_bind, Option.bind_some]
    rfl
  rw [hstart]
  rcases SimCache.findTag_cases s.cache (cfg.place addr).2
      (fun k hk => CacheConfig.line_lt hi hk) hb.lines_le
    with ⟨idx, hmem, hfind, hmatch⟩ | ⟨hfind, hnone⟩
  · rw [show (cfg.place addr).1 = addr / cfg.lineBytes % cfg.numSets from rfl, hfind]
    exact hit_refines h hb hi hclock hmem hmatch
  · rw [show (cfg.place addr).1 = addr / cfg.lineBytes % cfg.numSets from rfl, hfind]
    exact miss_refines h hb hi hclock hnone

/-- A whole list of addresses. -/
theorem run_refines (hb : cfg.Bounded) (hbytes : 0 < cfg.lineBytes) (addrs : List Nat)
    (h : s.Refines cfg c) (hclock : s.lruCounter + addrs.length < 2 ^ 64) :
    ∃ s', addrs.foldlM (access cfg cfg.numSets cfg.numLines) s = some s' ∧
      s'.lruCounter = s.lruCounter + addrs.length ∧
      s'.Refines cfg ((addrs.map cfg.place).foldl (Lib.Lru.use cfg.assoc) c) := by
  induction addrs generalizing s c with
  | nil => exact ⟨s, rfl, rfl, h⟩
  | cons addr rest ih =>
    rw [List.length_cons] at hclock
    obtain ⟨s₁, hstep, hcount, h₁⟩ := access_refines hb hbytes h (by omega) addr
    obtain ⟨s', hrun, hcount', h'⟩ := ih h₁ (by omega)
    refine ⟨s', ?_, ?_, h'⟩
    · rw [List.foldlM_cons, hstep]
      exact hrun
    · rw [List.length_cons]
      omega

end CacheSim

section
variable {cfg : CacheConfig}

theorem simulateCache_run (hb : cfg.Bounded) (addrs : Slice Nat 8) :
    simulateCache cfg addrs =
      (addrs.toList.foldlM (CacheSim.access cfg cfg.numSets cfg.numLines) CacheSim.new).map
        CacheSim.stats := by
  have hone := hb.one_le
  have hassoc := hb.assoc_le
  have hsets : cfg.numLines / cfg.assoc ≠ 0 := Nat.ne_of_gt hb.numSets_pos
  rw [simulateCache, if_neg (by omega), if_neg hsets, Nat.min_eq_left hb.lines_le]
  rfl

/-- The state that the simulator ends in. -/
theorem simulateCache_final (hb : cfg.Bounded) (hbytes : 0 < cfg.lineBytes) (addrs : Slice Nat 8) :
    ∃ s : CacheSim, simulateCache cfg addrs = some s.stats ∧ s.lruCounter = addrs.toList.length ∧
      s.Refines cfg ((addrs.toList.map cfg.place).foldl (Lib.Lru.use cfg.assoc) Lib.Lru.empty) := by
  have hfits := addrs.fits
  obtain ⟨s, hrun, hcount, h⟩ := CacheSim.run_refines hb hbytes addrs.toList
    (CacheSim.new_refines cfg) (by simp only [CacheSim.new]; omega)
  refine ⟨s, ?_, hcount.trans (Nat.zero_add _), h⟩
  rw [simulateCache_run hb, hrun]
  rfl

/-- The first address is divided by the line size. -/
theorem simulateCache_zero_bytes (hb : cfg.Bounded) (hbytes : cfg.lineBytes = 0)
    (addrs : Slice Nat 8) :
    simulateCache cfg addrs = if addrs.toList = [] then some CacheStats.zero else none := by
  rw [simulateCache_run hb]
  cases addrs.toList with
  | nil => rfl
  | cons addr rest =>
    have hpanic : CacheSim.new.access cfg cfg.numSets cfg.numLines addr = none := by
      simp [CacheSim.access, CacheSim.new, CacheStats.zero, incrU64, hbytes]
    simp [List.foldlM_cons, hpanic]

/-- The simulator returns the counts of the reference cache, for every list of
addresses. -/
theorem simulateCache_lru (cfg : CacheConfig) (hb : cfg.Bounded) (hbytes : 0 < cfg.lineBytes)
    (addrs : Slice Nat 8) : ∃ stats, simulateCache cfg addrs = some stats ∧
      stats.accesses = addrs.toList.length ∧ stats.hits + stats.misses = stats.accesses ∧
      stats.hits = (cfg.lru addrs.toList).hits ∧ stats.misses = (cfg.lru addrs.toList).misses ∧
      stats.evictions = (cfg.lru addrs.toList).evictions := by
  obtain ⟨s, hrun, hcount, h⟩ := simulateCache_final hb hbytes addrs
  exact ⟨s.stats, hrun, h.accesses.trans hcount, h.total, h.hits, h.misses, h.evictions⟩

def rotation : Slice Nat 8 := ⟨[0, 192, 384, 0], by decide⟩

/-- Seven lines in three sets of two, so that the last line is in no set. -/
theorem simulateCache_lru_odd : (⟨2, 7, 64⟩ : CacheConfig).Bounded ∧
    ∃ stats, simulateCache ⟨2, 7, 64⟩ rotation = some stats ∧ stats.evictions = 2 := by
  have hb : (⟨2, 7, 64⟩ : CacheConfig).Bounded := ⟨by decide, by decide, by decide⟩
  obtain ⟨stats, hrun, _, _, _, _, hevict⟩ := simulateCache_lru ⟨2, 7, 64⟩ hb (by decide) rotation
  exact ⟨hb, stats, hrun, hevict.trans (by decide)⟩

/-- In the same sets, more ways give no fewer hits and no more misses. -/
theorem simulateCache_more_ways (small large : CacheConfig) (hs : small.Bounded)
    (hl : large.Bounded) (hsets : small.numSets = large.numSets)
    (hbytes : small.lineBytes = large.lineBytes) (hways : small.assoc ≤ large.assoc)
    (addrs : Slice Nat 8) :
    Option.Rel (fun t t' : CacheStats => t.hits ≤ t'.hits ∧ t'.misses ≤ t.misses)
      (simulateCache small addrs) (simulateCache large addrs) ∧
    (0 < small.lineBytes → (simulateCache small addrs).isSome = true) := by
  rcases Nat.eq_zero_or_pos small.lineBytes with hzero | hpos
  · refine ⟨?_, fun hpos => by omega⟩
    rw [simulateCache_zero_bytes hs hzero, simulateCache_zero_bytes hl (hbytes ▸ hzero)]
    split
    · exact .some ⟨Nat.le_refl _, Nat.le_refl _⟩
    · exact .none
  · obtain ⟨s, hrun, _, h⟩ := simulateCache_final hs hpos addrs
    obtain ⟨s', hrun', _, h'⟩ := simulateCache_final hl (hbytes ▸ hpos) addrs
    have hplace : small.place = large.place := by
      funext addr
      rw [CacheConfig.place, CacheConfig.place, hsets, hbytes]
    have hbeats := Lib.Lru.count_beats hways (addrs.toList.map small.place)
    rw [hrun, hrun']
    refine ⟨.some ⟨?_, ?_⟩, fun _ => rfl⟩
    · rw [h.hits, h'.hits, ← hplace]
      exact hbeats.hits
    · rw [h.misses, h'.misses, ← hplace]
      exact hbeats.misses

def conflict : Slice Nat 8 := ⟨[0, 256, 0, 256], by decide⟩

/-- Two ways keep both of the lines that one way keeps evicting. -/
theorem simulateCache_more_ways_pair :
    simulateCache ⟨1, 4, 64⟩ conflict = some ⟨4, 0, 4, 3⟩ ∧
    simulateCache ⟨2, 8, 64⟩ conflict = some ⟨4, 2, 2, 0⟩ ∧
    Option.Rel (fun t t' : CacheStats => t.hits ≤ t'.hits ∧ t'.misses ≤ t.misses)
      (simulateCache ⟨1, 4, 64⟩ conflict) (simulateCache ⟨2, 8, 64⟩ conflict) :=
  ⟨by decide, by decide,
    (simulateCache_more_ways ⟨1, 4, 64⟩ ⟨2, 8, 64⟩ ⟨by decide, by decide, by decide⟩
      ⟨by decide, by decide, by decide⟩ rfl rfl (by decide) conflict).1⟩

end

end Runix
