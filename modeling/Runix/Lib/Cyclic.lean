import Mathlib.Data.List.Basic
import Mathlib.Data.Nat.ModEq

namespace Runix.Lib

/-- The position reached by counting on a ring of `n` places. -/
def wrap {n : Nat} (hn : 0 < n) (k : Nat) : Fin n := ⟨k % n, Nat.mod_lt k hn⟩

/-- The first place satisfying `p`, searched through one full turn. -/
def cyclicFind {n : Nat} (hn : 0 < n) (p : Fin n → Bool) (start : Nat) : Option (Fin n) :=
  ((List.range n).map (fun offset => wrap hn (start + offset))).find? p

/-- Steps forward from `c` to `i` on a ring of `n` places: `(i - c) mod n`. -/
def distance (n c i : Nat) : Nat := (i + (n - c)) % n

section
variable {n : Nat} {hn : 0 < n} {p : Fin n → Bool}

theorem distance_lt (hn : 0 < n) (c i : Nat) : distance n c i < n := Nat.mod_lt _ hn

theorem wrap_distance (hn : 0 < n) (c i : Fin n) : wrap hn (c + distance n c i) = i := by
  apply Fin.ext
  change (c + (i + (n - c)) % n) % n = i
  rw [Nat.add_mod_mod, show c.val + (i.val + (n - c.val)) = i.val + n by omega,
    Nat.add_mod_right, Nat.mod_eq_of_lt i.isLt]

theorem distance_wrap (hn : 0 < n) (c : Fin n) {d : Nat} (hd : d < n) :
    distance n c (wrap hn (c + d)) = d := by
  change ((c + d) % n + (n - c)) % n = d
  rw [Nat.mod_add_mod, show c.val + d + (n - c.val) = d + n by omega, Nat.add_mod_right,
    Nat.mod_eq_of_lt hd]

theorem distance_pos {c i : Fin n} (h : i ≠ c) : 0 < distance n c i := by
  by_contra h0
  have hz : distance n c i = 0 := by omega
  have hw := wrap_distance (Fin.pos c) c i
  rw [hz] at hw
  apply h
  rw [← hw]
  exact Fin.ext (by simp [wrap, Nat.mod_eq_of_lt c.isLt])

/-- Distances add up along the ring as long as the turn is not completed. -/
theorem distance_add {c j i : Fin n} (h : distance n c j ≤ distance n c i) :
    distance n j i = distance n c i - distance n c j := by
  have hn := Fin.pos c
  have hi := distance_lt hn c i
  have hw : wrap hn (j + (distance n c i - distance n c j)) = i := by
    refine Eq.trans ?_ (wrap_distance hn c i)
    apply Fin.ext
    have hj : j.val = (c + distance n c j) % n := congrArg Fin.val (wrap_distance hn c j).symm
    change (j.val + (distance n c i - distance n c j)) % n = (c + distance n c i) % n
    generalize distance n c j = dj at h hj ⊢
    rw [hj, Nat.mod_add_mod]
    congr 1
    omega
  have hd := distance_wrap hn j (d := distance n c i - distance n c j) (by omega)
  rw [hw] at hd
  exact hd

/-- Going on from `j` within the turn. -/
theorem distance_trans {c j k : Fin n} (h : distance n c j + distance n j k < n) :
    distance n c k = distance n c j + distance n j k := by
  have hn := Fin.pos c
  have hw : wrap hn (c + (distance n c j + distance n j k)) = k := by
    refine Eq.trans ?_ (wrap_distance hn j k)
    apply Fin.ext
    have hj : j.val = (c + distance n c j) % n := congrArg Fin.val (wrap_distance hn c j).symm
    change (c + (distance n c j + distance n j k)) % n = (j.val + distance n j k) % n
    generalize distance n j k = dk
    generalize distance n c j = dj at hj ⊢
    rw [hj, Nat.mod_add_mod, Nat.add_assoc]
  have hd := distance_wrap hn c h
  rwa [hw] at hd

/-- Places visited one after the other on the way from `c` to `i`, none of them
beyond `i`. -/
inductive Approach (i : Fin n) : Fin n → List (Fin n) → Prop where
  | nil (c : Fin n) : Approach i c []
  | cons {c j : Fin n} {js : List (Fin n)} (hj : j ≠ c)
      (hle : distance n c j ≤ distance n c i) (rest : Approach i j js) : Approach i c (j :: js)

section Approach
variable {c i : Fin n} {js : List (Fin n)}

theorem Approach.between (h : Approach i c js) :
    ∀ j ∈ js, 0 < distance n c j ∧ distance n c j ≤ distance n c i := by
  induction h with
  | nil => simp
  | @cons c j js hj hle _ ih =>
    have hpos := distance_pos hj
    intro k hk
    rcases List.mem_cons.mp hk with rfl | hk
    · exact ⟨hpos, hle⟩
    · obtain ⟨_, hki⟩ := ih k hk
      have hadd := distance_add hle
      have hlt := distance_lt (Fin.pos c) c i
      have htrans := distance_trans (c := c) (j := j) (k := k) (by omega)
      omega

/-- Nothing is visited twice. -/
theorem Approach.nodup (h : Approach i c js) : js.Nodup := by
  induction h with
  | nil => exact List.nodup_nil
  | @cons c j js hj hle rest ih =>
    refine List.nodup_cons.mpr ⟨fun hmem => ?_, ih⟩
    have hself := (rest.between j hmem).1
    have hzero : distance n j j = 0 := by
      unfold distance
      rw [show j.val + (n - j.val) = n by omega, Nat.mod_self]
    omega

theorem Approach.length_le (h : Approach i c js) : js.length ≤ distance n c i := by
  induction h with
  | nil => exact Nat.zero_le _
  | cons hj hle _ ih =>
    have hpos := distance_pos hj
    have hadd := distance_add hle
    rw [List.length_cons]
    omega

/-- As long as `i` is ahead there is a visit left. -/
theorem Approach.length_lt (h : Approach i c js) (hc : i ≠ c) (hi : i ∉ js) :
    js.length < distance n c i := by
  induction h with
  | nil => exact distance_pos hc
  | cons hj hle _ ih =>
    have hpos := distance_pos hj
    have hadd := distance_add hle
    have hlt := ih (fun he => hi (he ▸ List.mem_cons_self)) (fun hm => hi (List.mem_cons_of_mem _ hm))
    rw [List.length_cons]
    omega

end Approach

/-- What a successful search found: the place satisfies `p` and none of the
places before it does. -/
theorem cyclicFind_some {start : Nat} {j : Fin n} (h : cyclicFind hn p start = some j) :
    p j = true ∧ ∃ k < n, j = wrap hn (start + k) ∧
      ∀ m < k, p (wrap hn (start + m)) = false := by
  unfold cyclicFind at h
  rw [List.find?_map] at h
  obtain ⟨k, hk, rfl⟩ := Option.map_eq_some_iff.mp h
  obtain ⟨hp, hbefore⟩ := List.find?_range_eq_some.mp hk
  refine ⟨hp, k, List.mem_range.mp (List.mem_of_find?_eq_some hk), rfl, ?_⟩
  intro m hm
  simpa using hbefore.2 m hm

theorem cyclicFind_none {start : Nat} (h : cyclicFind hn p start = none) (i : Fin n) :
    p i = false := by
  have hi := List.find?_eq_none.mp h i (by
    apply List.mem_map.mpr
    let c : Fin n := wrap hn start
    refine ⟨distance n c i, List.mem_range.mpr (distance_lt hn _ _), ?_⟩
    refine Eq.trans ?_ (wrap_distance hn c i)
    apply Fin.ext
    change (start + _) % n = (start % n + _) % n
    rw [Nat.mod_add_mod])
  simpa using hi

/-- A search starting behind `c` meets the candidates in order of their
distance from `c`, and `c` itself last. -/
theorem cyclicFind_nearest (hn : 0 < n) {c i : Fin n} (hi : p i = true) (hne : i ≠ c) :
    ∃ j, cyclicFind hn p ((c + 1) % n) = some j ∧ p j = true ∧ j ≠ c ∧
      distance n c j ≤ distance n c i := by
  cases h : cyclicFind hn p ((c + 1) % n) with
  | none =>
    have := cyclicFind_none h i
    rw [hi] at this
    cases this
  | some j =>
    obtain ⟨hp, k, hk, rfl, hbefore⟩ := cyclicFind_some h
    have hat : ∀ m, wrap hn ((c + 1) % n + m) = wrap hn (c + (m + 1)) := by
      intro m
      apply Fin.ext
      change ((c + 1) % n + m) % n = (c + (m + 1)) % n
      rw [Nat.mod_add_mod]
      congr 1
      omega
    have hd := distance_lt hn c i
    have hpos := distance_pos hne
    have hle : k + 1 ≤ distance n c i := by
      by_contra hlt
      have := hbefore (distance n c i - 1) (by omega)
      rw [hat, show distance n c i - 1 + 1 = distance n c i by omega, wrap_distance, hi] at this
      cases this
    have hdk : distance n c (wrap hn ((c + 1) % n + k)) = k + 1 := by
      rw [hat]
      exact distance_wrap hn c (by omega)
    refine ⟨_, rfl, hp, ?_, by omega⟩
    intro he
    have hz : distance n c c = 0 := by
      unfold distance
      rw [show c.val + (n - c.val) = n by omega, Nat.mod_self]
    rw [he, hz] at hdk
    omega

end

end Runix.Lib
