import Mathlib.Data.List.Nodup
import Mathlib.Algebra.Order.Group.Nat
import Runix.Frames

namespace Runix

namespace MemmapEntry

abbrev Usable (e : MemmapEntry) : Prop := e.type_ = memmapUsable

def Paged (e : MemmapEntry) : Prop := 4096 ∣ e.base ∧ 4096 ∣ e.length

def FirstLongest (entries : List MemmapEntry) (e : MemmapEntry) : Prop :=
  ∃ before after, entries = before ++ e :: after ∧ e.Usable ∧
    (∀ x ∈ before, x.Usable → x.length < e.length) ∧ ∀ x ∈ after, x.Usable → x.length ≤ e.length

variable {entries : List MemmapEntry} {e x : MemmapEntry}

theorem FirstLongest.mem (h : FirstLongest entries e) : e ∈ entries := by
  obtain ⟨before, after, rfl, _⟩ := h
  exact List.mem_append_right _ List.mem_cons_self

theorem FirstLongest.usable (h : FirstLongest entries e) : e.Usable := by
  obtain ⟨_, _, _, husable, _⟩ := h
  exact husable

/-- It stays the first longest entry when nothing longer follows. -/
theorem FirstLongest.append (h : FirstLongest entries e) (hx : x.Usable → x.length ≤ e.length) :
    FirstLongest (entries ++ [x]) e := by
  obtain ⟨before, after, rfl, husable, hbefore, hafter⟩ := h
  refine ⟨before, after ++ [x], by simp, husable, hbefore, fun y hy hu => ?_⟩
  rcases List.mem_append.mp hy with hy | hy
  · exact hafter y hy hu
  · obtain rfl := List.mem_singleton.mp hy
    exact hx hu

theorem firstLongest_last (hx : x.Usable) (hlonger : ∀ y ∈ entries, y.Usable → y.length < x.length) :
    FirstLongest (entries ++ [x]) x :=
  ⟨entries, [], rfl, hx, hlonger, fun _ hy => absurd hy List.not_mem_nil⟩

/-- Among empty entries it is the first of all. -/
theorem firstLongest_of_empty (hsome : ∃ x ∈ entries, x.Usable)
    (hempty : ∀ x ∈ entries, x.Usable → x.length = 0) : ∃ e, FirstLongest entries e := by
  have hfind : (entries.find? (fun x => decide x.Usable)).isSome := by
    simpa using hsome
  obtain ⟨e, he⟩ := Option.isSome_iff_exists.mp hfind
  obtain ⟨husable, before, after, rfl, hbefore⟩ := List.find?_eq_some_iff_append.mp he
  refine ⟨e, before, after, rfl, of_decide_eq_true husable, fun x hx hu => ?_, fun x hx hu => ?_⟩
  · exact absurd hu (by simpa using hbefore x hx)
  · rw [hempty x (List.mem_append_right _ (List.mem_cons_of_mem _ hx)) hu]
    exact Nat.zero_le _

end MemmapEntry

namespace FrameAllocator
variable {a : FrameAllocator} {done : List MemmapEntry} {e : MemmapEntry}

structure Found (a : FrameAllocator) (done : List MemmapEntry) : Prop where
  le : a.nextFreePaddr ≤ a.usableEnd
  longest : ∀ x ∈ done, x.Usable → x.length ≤ a.usableEnd - a.nextFreePaddr
  window : a = new ∨ ∃ e, MemmapEntry.FirstLongest done e ∧ a = ⟨e.base, e.base + e.length⟩

theorem pageFloor_of_dvd {x : Nat} (h : 4096 ∣ x) : pageFloor x = x := Nat.div_mul_cancel h

theorem pageFloor_above {x : Nat} (h : 4096 ∣ x) : pageFloor (x + 0xfff) = x := by
  obtain ⟨k, rfl⟩ := h
  unfold pageFloor
  omega

/-- An entry in whole pages is compared with the length of the window so far, and taken as
it is. -/
theorem consider_usable (husable : e.Usable) (hpaged : e.Paged)
    (ha : a.nextFreePaddr ≤ a.usableEnd) : a.consider e =
      some (if e.length > a.usableEnd - a.nextFreePaddr then ⟨e.base, e.base + e.length⟩ else a) := by
  have hfits := e.fits
  have hsum : addU64 e.base e.length = some (e.base + e.length) := if_pos (by omega)
  have hsize : subU64 (e.base + e.length) e.base = some e.length := by
    rw [subU64, if_pos (Nat.le_add_right _ _), Nat.add_sub_cancel_left]
  have hbest : subU64 a.usableEnd a.nextFreePaddr = some (a.usableEnd - a.nextFreePaddr) :=
    if_pos ha
  have habove : addU64 e.base 0xfff = some (e.base + 0xfff) := if_pos (by omega)
  rw [consider, if_pos husable, hsum, Option.bind_eq_bind, Option.bind_some, hsize,
    Option.bind_some, hbest, Option.bind_some, habove, Option.map_some, pageFloor_above hpaged.1,
    pageFloor_of_dvd (Nat.dvd_add hpaged.1 hpaged.2)]
  split <;> rfl

theorem Found.new : FrameAllocator.new.Found [] :=
  ⟨Nat.le_refl _, fun _ hx => absurd hx List.not_mem_nil, .inl rfl⟩

/-- A window that is not shorter than the next entry stays. -/
theorem Found.keep (h : a.Found done) (he : e.Usable → e.length ≤ a.usableEnd - a.nextFreePaddr) :
    a.Found (done ++ [e]) := by
  refine ⟨h.le, fun x hx hu => ?_, h.window.imp id ?_⟩
  · rcases List.mem_append.mp hx with hx | hx
    · exact h.longest x hx hu
    · obtain rfl := List.mem_singleton.mp hx
      exact he hu
  · rintro ⟨best, hbest, rfl⟩
    refine ⟨best, hbest.append (fun hu => ?_), rfl⟩
    have hle := he hu
    dsimp only at hle
    omega

/-- A longer entry is the first longest one. -/
theorem Found.replace (h : a.Found done) (husable : e.Usable)
    (he : a.usableEnd - a.nextFreePaddr < e.length) :
    FrameAllocator.Found ⟨e.base, e.base + e.length⟩ (done ++ [e]) := by
  have hlonger : ∀ x ∈ done, x.Usable → x.length < e.length :=
    fun x hx hu => Nat.lt_of_le_of_lt (h.longest x hx hu) he
  refine ⟨Nat.le_add_right _ _, fun x hx hu => ?_,
    .inr ⟨e, MemmapEntry.firstLongest_last husable hlonger, rfl⟩⟩
  change x.length ≤ e.base + e.length - e.base
  rw [Nat.add_sub_cancel_left]
  rcases List.mem_append.mp hx with hx | hx
  · exact Nat.le_of_lt (hlonger x hx hu)
  · obtain rfl := List.mem_singleton.mp hx
    exact Nat.le_refl _

theorem Found.consider (h : a.Found done) (hpaged : e.Usable → e.Paged) :
    ∃ a', a.consider e = some a' ∧ a'.Found (done ++ [e]) := by
  by_cases husable : e.Usable
  · refine ⟨_, consider_usable husable (hpaged husable) h.le, ?_⟩
    split
    · rename_i hlonger
      exact h.replace husable hlonger
    · rename_i hshorter
      exact h.keep (fun _ => Nat.le_of_not_lt hshorter)
  · exact ⟨a, if_neg husable, h.keep (fun hu => absurd hu husable)⟩

/-- The loop of `init` keeps to the first longest entry. -/
theorem Found.loop (entries : List MemmapEntry) (h : a.Found done)
    (hpaged : ∀ e ∈ entries, e.Usable → e.Paged) :
    ∃ a', entries.foldlM FrameAllocator.consider a = some a' ∧ a'.Found (done ++ entries) := by
  induction entries generalizing a done with
  | nil => exact ⟨a, rfl, by rwa [List.append_nil]⟩
  | cons e entries ih =>
    obtain ⟨b, hb, hfound⟩ := h.consider (hpaged e List.mem_cons_self)
    obtain ⟨a', ha', hlast⟩ := ih hfound (fun x hx => hpaged x (List.mem_cons_of_mem _ hx))
    rw [List.append_assoc] at hlast
    refine ⟨a', ?_, hlast⟩
    rw [List.foldlM_cons, hb]
    exact ha'

theorem tryAllocateFrame_empty {base : Nat} (hfits : base + 4096 < 2 ^ 64) :
    tryAllocateFrame ⟨base, base⟩ = some (none, ⟨base, base⟩) := by
  rw [tryAllocateFrame, if_pos hfits, allocateFrame, if_neg (by dsimp only; omega)]

theorem tryAllocateFrame_first {base count : Nat} (hfits : base + 4096 < 2 ^ 64) :
    tryAllocateFrame ⟨base, base + 4096 * (count + 1)⟩ =
      some (some base, ⟨base + 4096, base + 4096 + 4096 * count⟩) := by
  have htop : base + 4096 * (count + 1) = base + 4096 + 4096 * count := by omega
  rw [tryAllocateFrame, if_pos hfits, htop, allocateFrame, if_pos (Nat.le_add_right _ _)]

/-- The frames of a window in their order, and nothing after the last. -/
theorem allocateFrames_eq (calls base count : Nat)
    (hfits : base + 4096 * count + 4096 < 2 ^ 64) :
    allocateFrames ⟨base, base + 4096 * count⟩ calls =
      some ((List.range calls).map (fun i => if i < count then some (base + 4096 * i) else none)) := by
  induction calls generalizing base count with
  | zero => rfl
  | succ calls ih =>
    rw [List.range_succ_eq_map, List.map_cons, List.map_map]
    cases count with
    | zero =>
      have hrest := ih base 0 hfits
      rw [Nat.mul_zero, Nat.add_zero] at hrest ⊢
      rw [allocateFrames, tryAllocateFrame_empty (by omega), Option.bind_eq_bind, Option.bind_some,
        hrest]
      rfl
    | succ count =>
      have hrest := ih (base + 4096) count (by omega)
      rw [allocateFrames, tryAllocateFrame_first (by omega), Option.bind_eq_bind, Option.bind_some,
        hrest, Option.bind_eq_bind, Option.bind_some, if_pos (Nat.succ_pos _)]
      congr 2
      apply List.map_congr_left
      intro i _
      simp only [Function.comp_apply, Nat.succ_eq_add_one, Nat.add_lt_add_iff_right]
      split
      · congr 1
        omega
      · rfl

structure HandsOut (results : List (Option Nat)) (calls : Nat) (e : MemmapEntry) : Prop where
  length : results.length = calls
  count : (results.filterMap id).length = min calls (e.length / 4096)
  distinct : (results.filterMap id).Nodup
  inside : ∀ frame ∈ results.filterMap id,
    4096 ∣ frame ∧ e.base ≤ frame ∧ frame + 4096 ≤ e.base + e.length
  stays_none : ∀ i j, i ≤ j → j < calls → results[i]? = some none → results[j]? = some none

theorem filterMap_frames (calls base count : Nat) :
    ((List.range calls).map (fun i => if i < count then some (base + 4096 * i) else none)).filterMap id =
      (List.range (min calls count)).map (fun i => base + 4096 * i) := by
  induction calls with
  | zero => rw [Nat.zero_min]; rfl
  | succ calls ih =>
    rw [List.range_succ, List.map_append, List.filterMap_append, ih]
    by_cases hlt : calls < count
    · rw [Nat.min_eq_left (Nat.le_of_lt hlt), Nat.min_eq_left hlt, List.range_succ, List.map_append]
      simp [hlt]
    · rw [Nat.min_eq_right (by omega), Nat.min_eq_right (by omega)]
      simp [hlt]

/-- The frames of an entry in whole pages. -/
theorem handsOut_frames (calls : Nat) {base count : Nat} (hcount : e.length = 4096 * count)
    (hbase : 0 < count → base = e.base) (haligned : 4096 ∣ e.base) :
    HandsOut ((List.range calls).map (fun i => if i < count then some (base + 4096 * i) else none))
      calls e := by
  have hpages : e.length / 4096 = count := by omega
  refine ⟨by rw [List.length_map, List.length_range], ?_, ?_, ?_, ?_⟩
  · rw [filterMap_frames, List.length_map, List.length_range, hpages]
  · rw [filterMap_frames]
    refine List.nodup_range.map (fun i j hij => ?_)
    omega
  · intro frame hframe
    rw [filterMap_frames] at hframe
    obtain ⟨i, hi, rfl⟩ := List.mem_map.mp hframe
    have hlt : i < count := Nat.lt_of_lt_of_le (List.mem_range.mp hi) (Nat.min_le_right _ _)
    rw [hbase (by omega)]
    exact ⟨Nat.dvd_add haligned (Nat.dvd_mul_right _ _), Nat.le_add_right _ _, by omega⟩
  · intro i j hij hj hnone
    rw [List.getElem?_map, List.getElem?_range (by omega), Option.map_some] at hnone
    rw [List.getElem?_map, List.getElem?_range hj, Option.map_some]
    by_cases hlt : i < count
    · rw [if_pos hlt] at hnone
      cases hnone
    · rw [if_neg (by omega)]

/-- An allocator without a window hands out nothing, as an empty entry does. -/
theorem handsOut_new (calls : Nat) (hempty : e.length = 0) (haligned : 4096 ∣ e.base) :
    ∃ results, allocateFrames FrameAllocator.new calls = some results ∧ HandsOut results calls e :=
  ⟨_, allocateFrames_eq calls 0 0 (by decide),
    handsOut_frames calls hempty (fun h => absurd h (Nat.lt_irrefl 0)) haligned⟩

theorem handsOut_window (calls : Nat) (hpaged : e.Paged) :
    ∃ results, allocateFrames ⟨e.base, e.base + e.length⟩ calls = some results ∧
      HandsOut results calls e := by
  obtain ⟨haligned, count, hcount⟩ := hpaged
  have hfits := e.fits
  rw [hcount]
  exact ⟨_, allocateFrames_eq calls e.base count (by omega),
    handsOut_frames calls hcount (fun _ => rfl) haligned⟩

end FrameAllocator

/-- Frames are handed out once. For usable entries in whole pages `init` neither underflows
nor overflows and takes the first longest of them; the calls after it return distinct
aligned frames inside that entry, as many as fit, and then nothing any more. -/
theorem frames_handed_out_once (entries : List MemmapEntry)
    (hpaged : ∀ e ∈ entries, e.Usable → e.Paged) :
    ∃ a, FrameAllocator.new.init (some entries) = some a ∧
      (((∀ e ∈ entries, ¬ e.Usable) ∧
          ∀ calls, a.allocateFrames calls = some (List.replicate calls none)) ∨
        ∃ e, MemmapEntry.FirstLongest entries e ∧
          (0 < e.length → a = ⟨e.base, e.base + e.length⟩) ∧
          ∀ calls, ∃ results, a.allocateFrames calls = some results ∧
            FrameAllocator.HandsOut results calls e) := by
  obtain ⟨a, hinit, hfound⟩ := FrameAllocator.Found.new.loop entries hpaged
  rw [List.nil_append] at hfound
  refine ⟨a, hinit, ?_⟩
  rcases hfound.window with rfl | ⟨e, hfirst, rfl⟩
  · have hempty : ∀ x ∈ entries, x.Usable → x.length = 0 :=
      fun x hx hu => Nat.le_zero.mp (hfound.longest x hx hu)
    by_cases hsome : ∃ x ∈ entries, x.Usable
    · right
      obtain ⟨e, hfirst⟩ := MemmapEntry.firstLongest_of_empty hsome hempty
      have hzero := hempty e hfirst.mem hfirst.usable
      exact ⟨e, hfirst, fun hpos => absurd hpos (by omega),
        fun calls => FrameAllocator.handsOut_new calls hzero (hpaged e hfirst.mem hfirst.usable).1⟩
    · left
      refine ⟨fun e he hu => hsome ⟨e, he, hu⟩, fun calls => ?_⟩
      rw [FrameAllocator.new, FrameAllocator.allocateFrames_eq calls 0 0 (by decide)]
      simp
  · exact .inr ⟨e, hfirst, fun _ => rfl,
      fun calls => FrameAllocator.handsOut_window calls (hpaged e hfirst.mem hfirst.usable)⟩

/-- A map with a reserved entry and two usable ones of the same length. -/
theorem frames_handed_out_once_two :
    ∃ a, FrameAllocator.new.init (some
        [⟨0, 65536, 1, Nat.le_of_ble_eq_true rfl⟩, ⟨65536, 8192, 0, Nat.le_of_ble_eq_true rfl⟩,
          ⟨131072, 8192, 0, Nat.le_of_ble_eq_true rfl⟩]) = some a ∧
      a.allocateFrames 3 = some [some 65536, some 69632, none] := by
  obtain ⟨a, hinit, _⟩ := frames_handed_out_once
    [⟨0, 65536, 1, Nat.le_of_ble_eq_true rfl⟩, ⟨65536, 8192, 0, Nat.le_of_ble_eq_true rfl⟩,
      ⟨131072, 8192, 0, Nat.le_of_ble_eq_true rfl⟩] (by
    intro e he hu
    simp only [List.mem_cons, List.not_mem_nil, or_false] at he
    rcases he with rfl | rfl | rfl
    · cases hu
    · exact ⟨by decide, by decide⟩
    · exact ⟨by decide, by decide⟩)
  refine ⟨a, hinit, ?_⟩
  cases hinit
  rfl

end Runix
