import Mathlib.Data.List.Forall2
import Mathlib.Tactic.Ring
import Runix.Lib.Run
import Runix.Trace

namespace Runix

/-- The walk visits the slots that were written since the start. -/
theorem Tracer.mem_walk (t : Tracer) : ∃ events, t.walk = some events ∧
    ∀ e, e ∈ events ↔ ∃ k : Fin traceBufferSize, k.val < t.nextIdx.toNat ∧ t.buffer k = e := by
  refine ⟨_, t.walk_eq, fun e => ?_⟩
  simp only [List.mem_map, List.mem_range]
  constructor
  · rintro ⟨i, hi, rfl⟩
    refine ⟨_, ?_, rfl⟩
    change (t.oldest + i) % traceBufferSize < t.nextIdx.toNat
    unfold oldest
    unfold traceBufferSize at hi ⊢
    split <;> omega
  · rintro ⟨k, hk, rfl⟩
    have hlt : k.val < 128 := k.isLt
    unfold oldest
    by_cases hfull : t.nextIdx.toNat > traceBufferSize
    · refine ⟨(k.val + 128 - t.nextIdx.toNat % 128) % 128, ?_, ?_⟩
      · unfold traceBufferSize at hfull ⊢
        omega
      · rw [if_pos hfull]
        congr 1
        apply Fin.ext
        change (t.nextIdx.toNat % 128 + _) % 128 = k.val
        omega
    · refine ⟨k.val, ?_, ?_⟩
      · unfold traceBufferSize at hfull ⊢
        omega
      · rw [if_neg hfull, Nat.zero_add]
        exact congrArg t.buffer (Fin.ext (Nat.mod_eq_of_lt k.isLt))

section Matching
variable {traceName : List UInt8}

/-- Nothing matched is the same as no event in the trace. -/
theorem matchedEvents_eq_nil (events : List TraceEvent) :
    matchedEvents traceName events = [] ↔ ∀ e ∈ events, e.isIn traceName = false := by
  have hkeep : ∀ (events matched : List TraceEvent), matched ≠ [] →
      events.foldl (fun matched e =>
        if e.isIn traceName && matched.length < 128 then matched ++ [e] else matched) matched ≠ [] := by
    intro events
    induction events with
    | nil => exact fun _ h => h
    | cons e events ih =>
      intro matched h
      rw [List.foldl_cons]
      apply ih
      split
      · exact List.append_ne_nil_of_left_ne_nil h _
      · exact h
  induction events with
  | nil => simp [matchedEvents]
  | cons e events ih =>
    rw [matchedEvents, List.foldl_cons, List.forall_mem_cons]
    cases he : e.isIn traceName with
    | false => simpa [matchedEvents] using ih
    | true =>
      simp only [Bool.true_eq_false, false_and, iff_false]
      exact hkeep events _ (by simp)

end Matching

/-- `sum % 12 * 64` is the address of one of twelve lines. -/
theorem line_address (sum : UInt64) : ∃ j < 12, (sum % 12 * 64).toNat = 64 * j := by
  have hlt : sum.toNat % 12 < 12 := Nat.mod_lt _ (by decide)
  refine ⟨sum.toNat % 12, hlt, ?_⟩
  rw [UInt64.toNat_mul, UInt64.toNat_mod]
  change sum.toNat % 12 * 64 % 2 ^ 64 = _
  omega

def nameSum : List UInt8 → Nat
  | [] => 0
  | b :: rest => b.toNat * 31 ^ (rest.length + 1) + nameSum rest

theorem traceSeed_toNat (traceName : List UInt8) :
    (traceSeed traceName).toNat = nameSum traceName % 2 ^ 64 := by
  have hfold : ∀ (name : List UInt8) (seed : UInt64),
      (name.foldl (fun seed b => (seed + b.toUInt64) * 31) seed).toNat =
        (seed.toNat * 31 ^ name.length + nameSum name) % 2 ^ 64 := by
    intro name
    induction name with
    | nil =>
      intro seed
      simp [nameSum, Nat.mod_eq_of_lt seed.toNat_lt]
    | cons b rest ih =>
      intro seed
      rw [List.foldl_cons, ih]
      have hstep : ((seed + b.toUInt64) * 31).toNat ≡ (seed.toNat + b.toNat) * 31 [MOD 2 ^ 64] := by
        rw [UInt64.toNat_mul, UInt64.toNat_add, UInt8.toNat_toUInt64]
        exact (Nat.mod_modEq _ _).trans ((Nat.mod_modEq _ _).mul_right 31)
      have hpow := hstep.mul_right (31 ^ rest.length)
      rw [(hpow.add_right (nameSum rest))]
      congr 1
      rw [nameSum, List.length_cons, pow_succ]
      ring
  rw [traceSeed, hfold]
  simp

theorem simLine_le (step : Nat) : (simLine step).toNat ≤ 7 := by
  have htable : ∀ i : Fin 16, (simLine i).toNat ≤ 7 := by decide
  by_cases h : step < 16
  · exact htable ⟨step, h⟩
  · rw [simLine, List.getElem?_eq_none (by simpa using h)]
    decide

theorem checkedAdd_isSome {x y : UInt64} :
    (∃ z, checkedAdd x y = some z) ↔ x.toNat + y.toNat < 2 ^ 64 := by
  unfold checkedAdd
  split <;> simp_all

def LineAddresses (addrs : List UInt64) : Prop :=
  addrs.length = 128 ∧ ∀ a ∈ addrs, ∃ j < 12, a.toNat = 64 * j

section Addresses
variable {traceName : List UInt8} {events : List TraceEvent}

/-- Addresses computed one by one are the addresses of lines. -/
theorem lineAddresses_of_mapM {f : Nat → Option UInt64} {addrs : List UInt64}
    (hf : ∀ i sum, f i = some sum → ∃ j < 12, sum.toNat = 64 * j)
    (h : (List.range 128).mapM f = some addrs) : LineAddresses addrs := by
  obtain ⟨hlength, _, hfrom⟩ := Lib.mapM_some h
  refine ⟨by rw [hlength, List.length_range], fun a ha => ?_⟩
  obtain ⟨i, _, hi⟩ := hfrom a ha
  exact hf i a hi

/-- Matched events have addresses. -/
theorem simAddresses_matched (h : matchedEvents traceName events ≠ []) :
    ∃ addrs, simAddresses traceName events = some addrs ∧ LineAddresses addrs := by
  have hpos : 0 < (matchedEvents traceName events).length := List.length_pos_iff.mpr h
  obtain ⟨addrs, haddrs⟩ := Lib.mapM_total (List.range 128) (f := fun i =>
    ((matchedEvents traceName events)[i % (matchedEvents traceName events).length]?).map
      hashEventToAddr)
    (fun i _ => by
      rw [List.getElem?_eq_getElem (Nat.mod_lt i hpos)]
      exact ⟨_, rfl⟩)
  refine ⟨addrs, ?_, lineAddresses_of_mapM (fun i a ha => ?_) haddrs⟩
  · rw [simAddresses, if_neg (by omega)]
    exact haddrs
  · obtain ⟨e, _, rfl⟩ := Option.map_eq_some_iff.mp ha
    exact line_address _

/-- The fallback pattern is there as long as no line added to the seed overflows. -/
theorem simAddresses_fallback (h : matchedEvents traceName events = []) :
    (∃ addrs, simAddresses traceName events = some addrs ∧ LineAddresses addrs) ↔
      nameSum traceName % 2 ^ 64 + 7 < 2 ^ 64 := by
  rw [simAddresses, if_pos (by rw [h]; rfl), ← traceSeed_toNat]
  constructor
  · rintro ⟨addrs, haddrs, _⟩
    obtain ⟨a, ha⟩ := (Lib.mapM_some haddrs).2.1 13 (by simp)
    obtain ⟨sum, hsum, _⟩ := Option.map_eq_some_iff.mp ha
    have hseven : (7 : UInt64).toNat + (traceSeed traceName).toNat < 2 ^ 64 :=
      checkedAdd_isSome.mp ⟨sum, hsum⟩
    change 7 + _ < _ at hseven
    omega
  · intro hseed
    obtain ⟨addrs, haddrs⟩ := Lib.mapM_total (List.range 128) (f := fun i =>
      (checkedAdd (simLine (i % 16)) (traceSeed traceName)).map (fun sum => sum % 12 * 64))
      (fun i _ => by
        have hline := simLine_le (i % 16)
        obtain ⟨sum, hsum⟩ := checkedAdd_isSome (x := simLine (i % 16))
          (y := traceSeed traceName) |>.mpr (by omega)
        rw [hsum]
        exact ⟨_, rfl⟩)
    refine ⟨addrs, haddrs, lineAddresses_of_mapM (fun i a ha => ?_) haddrs⟩
    obtain ⟨sum, _, rfl⟩ := Option.map_eq_some_iff.mp ha
    exact line_address sum

end Addresses

/-- `get_sim_addresses` returns addresses of twelve lines exactly when the buffer holds an
event of the trace or the hash of the name leaves room for the last line of the pattern:
only the addition of that line does not wrap. -/
theorem sim_addresses_iff (t : Tracer) (traceName : List UInt8) :
    (∃ addrs, t.getSimAddresses traceName = some addrs ∧ LineAddresses addrs) ↔
    (∃ k : Fin traceBufferSize, k.val < t.nextIdx.toNat ∧ (t.buffer k).isIn traceName = true) ∨
      nameSum traceName % 2 ^ 64 + 7 < 2 ^ 64 := by
  obtain ⟨events, hwalk, hmem⟩ := t.mem_walk
  rw [Tracer.getSimAddresses, hwalk, Option.bind_some]
  by_cases hnone : matchedEvents traceName events = []
  · rw [simAddresses_fallback hnone]
    refine (or_iff_right ?_).symm
    rintro ⟨k, hk, hin⟩
    have hout := (matchedEvents_eq_nil events).mp hnone _ ((hmem _).mpr ⟨k, hk, rfl⟩)
    rw [hin] at hout
    cases hout
  · refine iff_of_true (simAddresses_matched hnone) (.inl ?_)
    by_contra hall
    apply hnone
    rw [matchedEvents_eq_nil]
    intro e he
    obtain ⟨k, hk, rfl⟩ := (hmem e).mp he
    cases hin : (t.buffer k).isIn traceName with
    | false => rfl
    | true => exact absurd ⟨k, hk, hin⟩ hall

/-- The name `cpzyijjtdruyo`, whose hash is six below the bound of the type, in a tracer
that has not traced anything. -/
theorem sim_addresses_overflow :
    Tracer.new.getSimAddresses
      [99, 112, 122, 121, 105, 106, 106, 116, 100, 114, 117, 121, 111] = none := by
  decide +kernel

end Runix
