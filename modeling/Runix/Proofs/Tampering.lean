import Mathlib.Data.Nat.ModEq
import Runix.Proofs.Digest

namespace Runix

def DiffersOnce {α : Type} (l l' : List α) : Prop :=
  ∃ k : Nat, l[k]? ≠ l'[k]? ∧ ∀ j : Nat, j ≠ k → l[j]? = l'[j]?

def FitU64 (ws : List Nat) : Prop := ∀ w ∈ ws, w < 2 ^ 64

/-- Both lists, cut at the place where they differ. -/
theorem DiffersOnce.split {α : Type} {l l' : List α} (h : DiffersOnce l l')
    (hlen : l.length = l'.length) :
    ∃ pre x x' post, l = pre ++ x :: post ∧ l' = pre ++ x' :: post ∧ x ≠ x' := by
  obtain ⟨k, hk, hrest⟩ := h
  have hlt : k < l.length := by
    by_contra hge
    exact hk (by rw [List.getElem?_eq_none (by omega), List.getElem?_eq_none (by omega)])
  have hlt' : k < l'.length := hlen ▸ hlt
  have hpre : l'.take k = l.take k := by
    apply List.ext_getElem?
    intro j
    rw [List.getElem?_take, List.getElem?_take]
    split
    · exact (hrest j (by omega)).symm
    · rfl
  have hpost : l'.drop (k + 1) = l.drop (k + 1) := by
    apply List.ext_getElem?
    intro j
    rw [List.getElem?_drop, List.getElem?_drop]
    exact (hrest _ (by omega)).symm
  refine ⟨l.take k, l[k], l'[k], l.drop (k + 1), ?_, ?_, fun he => ?_⟩
  · rw [List.getElem_cons_drop, List.take_append_drop]
  · rw [← hpre, ← hpost, List.getElem_cons_drop, List.take_append_drop]
  · exact hk (by rw [List.getElem?_eq_getElem hlt, List.getElem?_eq_getElem hlt', he])

theorem differsOnce_append {α : Type} (pre post : List α) {x x' : α} (h : x ≠ x') :
    DiffersOnce (pre ++ x :: post) (pre ++ x' :: post) := by
  refine ⟨pre.length, by simpa using h, fun j hj => ?_⟩
  rcases Nat.lt_or_gt_of_ne hj with hlt | hgt
  · rw [List.getElem?_append_left hlt, List.getElem?_append_left hlt]
  · obtain ⟨n, rfl⟩ : ∃ n, j = pre.length + (n + 1) := ⟨j - pre.length - 1, by omega⟩
    simp [List.getElem?_append_right]

theorem mix_lt (h v : Nat) : mix h v < 2 ^ 64 := Nat.mod_lt _ (by decide)

/-- The multiplier is odd, so a product with it is a permutation of the words. -/
theorem mul_prime_inj {x y : Nat} (hx : x < 2 ^ 64) (hy : y < 2 ^ 64)
    (h : (x * 0x100000001b3) % 2 ^ 64 = (y * 0x100000001b3) % 2 ^ 64) : x = y := by
  have hmod : x * 0x100000001b3 ≡ y * 0x100000001b3 [MOD 2 ^ 64] := h
  exact (hmod.cancel_right_of_coprime (by decide)).eq_of_lt_of_lt hx hy

theorem mix_left_inj {h h' v : Nat} (hh : h < 2 ^ 64) (hh' : h' < 2 ^ 64) (hv : v < 2 ^ 64)
    (heq : mix h v = mix h' v) : h = h' := by
  have hxor := mul_prime_inj (Nat.xor_lt_two_pow hh hv) (Nat.xor_lt_two_pow hh' hv) heq
  exact Nat.xor_left_injective hxor

theorem mix_right_inj {h v v' : Nat} (hh : h < 2 ^ 64) (hv : v < 2 ^ 64) (hv' : v' < 2 ^ 64)
    (heq : mix h v = mix h v') : v = v' := by
  have hxor := mul_prime_inj (Nat.xor_lt_two_pow hh hv) (Nat.xor_lt_two_pow hh hv') heq
  exact Nat.xor_right_injective hxor

theorem foldl_mix_lt {h : Nat} (hh : h < 2 ^ 64) (ws : List Nat) : ws.foldl mix h < 2 ^ 64 := by
  induction ws generalizing h with
  | nil => exact hh
  | cons w rest ih => exact ih (mix_lt h w)

/-- A difference survives every later round. -/
theorem foldl_mix_inj {h h' : Nat} (hh : h < 2 ^ 64) (hh' : h' < 2 ^ 64) {ws : List Nat}
    (hws : FitU64 ws) (heq : ws.foldl mix h = ws.foldl mix h') : h = h' := by
  induction ws generalizing h h' with
  | nil => exact heq
  | cons w rest ih =>
    have hnext := ih (mix_lt h w) (mix_lt h' w) (fun v hv => hws v (List.mem_cons_of_mem w hv)) heq
    exact mix_left_inj hh hh' (hws w List.mem_cons_self) hnext

/-- One changed word changes the tag. -/
theorem foldl_mix_ne {h : Nat} (hh : h < 2 ^ 64) {ws ws' : List Nat} (hws : FitU64 ws)
    (hws' : FitU64 ws') (hlen : ws.length = ws'.length) (hdiff : DiffersOnce ws ws') :
    ws.foldl mix h ≠ ws'.foldl mix h := by
  obtain ⟨pre, w, w', post, rfl, rfl, hne⟩ := hdiff.split hlen
  have hw : w < 2 ^ 64 := hws w (by simp)
  have hw' : w' < 2 ^ 64 := hws' w' (by simp)
  have hpost : FitU64 post := fun v hv => hws v (by simp [hv])
  rw [List.foldl_append, List.foldl_append, List.foldl_cons, List.foldl_cons]
  intro heq
  exact hne (mix_right_inj (foldl_mix_lt hh pre) hw hw'
    (foldl_mix_inj (mix_lt _ _) (mix_lt _ _) hpost heq))

namespace SystemSnapshot

/-- Some word that is mixed would not fit where an origin overflows. -/
theorem overflows_of_fit {snap : SystemSnapshot} (h : FitU64 snap.words) : snap.overflows = false := by
  simp only [overflows, List.any_eq_false, Option.any_eq_true, List.any_eq_true, decide_eq_true_eq]
  rintro i _ ⟨cp, hcp, k, _, c, hc, o, ho, hle⟩
  have hmem : optionCode c.origin ∈ snap.words := by
    refine List.mem_cons_of_mem _ (List.mem_flatten.mpr ⟨taskWords (snap.tasks i),
      List.mem_map.mpr ⟨i, List.mem_finRange i, rfl⟩, ?_⟩)
    rw [hcp, taskWords]
    refine List.mem_append_left _ (List.mem_append_right _ (List.mem_flatten.mpr
      ⟨capWords (cp.capTable.slots k), List.mem_map.mpr ⟨k, List.mem_finRange k, rfl⟩, ?_⟩))
    rw [hc, capWords]
    simp
  have hlt := h _ hmem
  rw [ho, optionCode] at hlt
  omega

/-- The words of two snapshots with the same slots in use pair up. -/
theorem length_words {s s' : SystemSnapshot} (h : s.Matches TaskCheckpoint.SameSlots s') :
    s.words.length = s'.words.length := by
  have hslot : ∀ i, (taskWords (s.tasks i)).length = (taskWords (s'.tasks i)).length := by
    intro i
    have hi := h i
    generalize s.tasks i = o, s'.tasks i = o' at hi
    cases hi with
    | none => rfl
    | some hcp => exact length_taskWords hcp
  simp only [words, List.length_cons, List.length_flatten, List.map_map]
  congr 2
  exact List.map_congr_left (fun i _ => hslot i)

end SystemSnapshot

/-- One changed word is detected: it changes the fold over lists of any length, and
a snapshot that is altered in one mixed value and keeps its tag is not restored. -/
theorem one_word_detected :
    (∀ ws ws' : List Nat, FitU64 ws → FitU64 ws' → ws.length = ws'.length → DiffersOnce ws ws' →
      ws.foldl mix 0xcbf29ce484222325 ≠ ws'.foldl mix 0xcbf29ce484222325) ∧
    ∀ (snap snap' : SystemSnapshot) (s : Scheduler), snap.checksumOf = some snap.checksum →
      snap'.checksum = snap.checksum → FitU64 snap.words → FitU64 snap'.words →
      snap.Matches TaskCheckpoint.SameSlots snap' → DiffersOnce snap.words snap'.words →
      restore snap' s = some (s, .error ()) := by
  refine ⟨fun ws ws' hws hws' hlen hdiff => foldl_mix_ne (by decide) hws hws' hlen hdiff, ?_⟩
  intro snap snap' s hsum htag hws hws' hslots hdiff
  have hne := foldl_mix_ne (h := 0xcbf29ce484222325) (by decide) hws hws'
    (SystemSnapshot.length_words hslots) hdiff
  have hsum₁ : snap.checksumOf = some (snap.words.foldl mix 0xcbf29ce484222325) := by
    simp [SystemSnapshot.checksumOf, SystemSnapshot.overflows_of_fit hws]
  have hsum₂ : snap'.checksumOf = some (snap'.words.foldl mix 0xcbf29ce484222325) := by
    simp [SystemSnapshot.checksumOf, SystemSnapshot.overflows_of_fit hws']
  have hstored : snap'.checksum = snap.words.foldl mix 0xcbf29ce484222325 :=
    htag.trans (Option.some.inj (hsum.symm.trans hsum₁))
  unfold restore
  cases snap'.valid with
  | false => rfl
  | true => simp [hsum₂, hstored, Ne.symm hne]

/-- A snapshot of one task that names a running task, under the tag of its contents
with another one. -/
def marked (current original : Option TaskId) : SystemSnapshot :=
  { alone (holding 1) with
    current := current
    checksum := { alone (holding 1) with current := original }.words.foldl mix 0xcbf29ce484222325
    valid := true }

theorem fit_holding : FitU64 (taskWords (some (holding 1))) := by
  have hall : ∀ w ∈ taskWords (some (holding 1)), w < 2 ^ 64 := by decide
  exact hall

theorem fit_marked {current : Option TaskId} (h : optionCode current < 2 ^ 64)
    (original : Option TaskId) : FitU64 (marked current original).words := by
  intro w hw
  rcases List.mem_cons.mp hw with rfl | hw
  · exact h
  · obtain ⟨ws, hws, hw⟩ := List.mem_flatten.mp hw
    obtain ⟨i, _, rfl⟩ := List.mem_map.mp hws
    simp only [marked, alone] at hw
    split at hw
    · exact fit_holding w hw
    · rw [List.mem_singleton.mp hw]
      decide

/-- The running task is altered from 0 to 5. -/
theorem one_word_detected_current :
    DiffersOnce (marked (some 0) (some 0)).words (marked (some 5) (some 0)).words ∧
    restore (marked (some 5) (some 0)) ⟨fun _ => none, none⟩ =
      some (⟨fun _ => none, none⟩, .error ()) := by
  have hfit₀ := fit_marked (show optionCode (some 0) < 2 ^ 64 by decide) (some 0)
  have hfit₅ := fit_marked (show optionCode (some 5) < 2 ^ 64 by decide) (some 0)
  have hdiff : DiffersOnce (marked (some 0) (some 0)).words (marked (some 5) (some 0)).words :=
    differsOnce_append [] _ (by decide)
  have hsum : (marked (some 0) (some 0)).checksumOf = some (marked (some 0) (some 0)).checksum := by
    have htag : (marked (some 0) (some 0)).checksum =
        (marked (some 0) (some 0)).words.foldl mix 0xcbf29ce484222325 := by
      unfold marked SystemSnapshot.words
      simp only
    rw [SystemSnapshot.checksumOf, SystemSnapshot.overflows_of_fit hfit₀, htag]
    simp only [Bool.false_eq_true, if_false]
  have hslots : (marked (some 0) (some 0)).Matches TaskCheckpoint.SameSlots
      (marked (some 5) (some 0)) :=
    matches_alone (show (holding 1).SameSlots (holding 1) from fun _ => rfl)
  exact ⟨hdiff, one_word_detected.2 _ _ _ hsum rfl hfit₀ hfit₅ hslots hdiff⟩

end Runix
