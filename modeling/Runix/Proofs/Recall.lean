import Runix.Proofs.History

namespace Runix

def window (kept : List (List UInt8)) : List (List UInt8) := kept.drop (kept.length - 16)

def Traces (line : List UInt8) : Prop := (tokenize line).tok0 = traceWord ∧ subLine line ≠ []

instance (line : List UInt8) : Decidable (Traces line) := inferInstanceAs (Decidable (_ ∧ _))

theorem length_subLine {line : List UInt8} (h : (tokenize line).tok0 = traceWord) : (subLine line).length < line.length := by
  have hne : line ≠ [] := by
    rintro rfl
    cases h
  have hpos := List.length_pos_iff.mpr hne
  have hdrop := (List.dropWhile_sublist (l := line.drop 5) (fun b => decide (b = 32))).length_le
  rw [List.length_drop] at hdrop
  unfold subLine
  omega

def untraced (line : List UInt8) : List UInt8 :=
  if _h : Traces line then untraced (subLine line) else line
termination_by line.length
decreasing_by exact length_subLine _h.1

def recallIndex (line : List UInt8) : Option Nat :=
  if (tokenize (untraced line)).tok0 = historyWord then parseUsize (tokenize (untraced line)).tok1
  else none

def recalled (kept : List (List UInt8)) (line : List UInt8) : Option (List UInt8) :=
  (recallIndex line).bind (fun n => (window kept)[n]?)

inductive Returns : History → List UInt8 → Prop where
  | leaf {hist : History} {line : List UInt8} (h : redispatch hist line = some none) :
    Returns hist line
  | call {hist hist' : History} {line line' : List UInt8}
    (h : redispatch hist line = some (some (hist', line'))) (hreturns : Returns hist' line') :
    Returns hist line

variable {hist : History} {kept : List (List UInt8)} {line : List UInt8}

theorem length_window (kept : List (List UInt8)) : (window kept).length = min kept.length 16 := by
  rw [window, List.length_drop]
  omega

/-- The entry at an index, and how far back it is. -/
theorem recalls_index (hr : hist.Records kept) {n : Nat} (h : n < hist.count) :
    ∃ cmd, (window kept)[n]? = some cmd ∧ hist.get (hist.count - n) = some (some cmd) ∧
      cmd.length ≤ 128 := by
  have hcount := hr.count
  obtain ⟨cmd, hget, hlen⟩ := hr.recalls (d := hist.count - n) (by omega) (by omega)
  refine ⟨cmd, ?_, hget, hlen⟩
  rw [hr.get, if_pos (by omega)] at hget
  rw [window, List.getElem?_drop, ← Option.some.inj hget]
  congr 1
  omega

/-- The place, among the entries before the dispatch, of the line that index `n` recalls after
`k` recalls. The index counts in the last 16 of the `m` entries and the `k` lines recalled since,
and each of those lines was an entry before. -/
def placeOf (places : Nat → Nat) (m k n : Nat) : Nat :=
  if n + (m + k - 16) < m then n + (m + k - 16) else places (n + (m + k - 16) + 1 - m)

def Follows (entries : List (List UInt8)) (places : Nat → Nat) (k : Nat) : Prop :=
  ∃ n, entries[places k]?.bind recallIndex = some n ∧ n < min (entries.length + k) 16 ∧
    places (k + 1) = placeOf places entries.length k n ∧
    entries[places (k + 1)]? ≠ entries[places k]?

def added (entries : List (List UInt8)) (places : Nat → Nat) (k : Nat) : List (List UInt8) :=
  (List.range k).map (fun j => entries.getD (places (j + 1)) [])

section
variable {entries : List (List UInt8)} {places places' : Nat → Nat} {d k m n : Nat}

theorem placeOf_congr (h : ∀ j ≤ k, places' j = places j) (hn : n < min (m + k) 16) :
    placeOf places' m k n = placeOf places m k n := by
  unfold placeOf
  split
  · rfl
  · exact h _ (by omega)

theorem Follows.congr (h : Follows entries places k) (hsame : ∀ j ≤ k + 1, places' j = places j) :
    Follows entries places' k := by
  obtain ⟨n, hindex, hn, hplace, hne⟩ := h
  refine ⟨n, ?_, hn, ?_, ?_⟩
  · rwa [hsame k (Nat.le_succ k)]
  · rw [hsame _ (Nat.le_refl _), hplace, placeOf_congr (fun j hj => hsame j (by omega)) hn]
  · rwa [hsame _ (Nat.le_refl _), hsame k (Nat.le_succ k)]

theorem window_append (kept l : List (List UInt8)) :
    window (kept ++ l) = (window kept ++ l).drop ((window kept).length + l.length - 16) := by
  have hcount : kept.length + l.length - 16 =
      kept.length - 16 + ((window kept).length + l.length - 16) := by
    rw [length_window]
    omega
  rw [window, List.length_append, hcount, ← List.drop_drop, window,
    List.drop_append_of_le_length (Nat.sub_le ..)]

/-- The history after `k` recalls, at an index. -/
theorem window_added (hlt : ∀ j ≤ k, places j < (window kept).length)
    (hn : n < min ((window kept).length + k) 16) :
    (window (kept ++ added (window kept) places k))[n]? =
      (window kept)[placeOf places (window kept).length k n]? := by
  have hlen : (added (window kept) places k).length = k := by simp [added]
  rw [window_append, List.getElem?_drop, hlen, placeOf, Nat.add_comm _ n]
  split
  · rename_i hold
    rw [List.getElem?_append_left hold]
  · rename_i hnew
    rw [List.getElem?_append_right (Nat.le_of_not_lt hnew)]
    have hj : n + ((window kept).length + k - 16) - (window kept).length < k := by omega
    have hsucc : n + ((window kept).length + k - 16) + 1 - (window kept).length =
        n + ((window kept).length + k - 16) - (window kept).length + 1 := by omega
    have hplace := hlt _ (Nat.succ_le_of_lt hj)
    rw [hsucc, added, List.getElem?_map, List.getElem?_range hj, Option.map_some, List.getD_eq_getElem?_getD,
      List.getElem?_eq_getElem hplace, Option.getD_some]

theorem recalled_eq (hline : entries[k]? = some line) (kept : List (List UInt8)) :
    recalled kept line = (entries[k]?.bind recallIndex).bind (fun n => (window kept)[n]?) := by
  rw [hline, Option.bind_some, recalled]

/-- One recall, in the history and among the places. -/
theorem Follows.recalled (h : Follows (window kept) places k)
    (hlt : ∀ j ≤ k + 1, places j < (window kept).length)
    (hline : (window kept)[places k]? = some line) :
    recalled (kept ++ added (window kept) places k) line =
      some ((window kept).getD (places (k + 1)) []) := by
  obtain ⟨n, hindex, hn, hplace, _⟩ := h
  rw [recalled_eq hline, hindex, Option.bind_some,
    window_added (fun j hj => hlt j (by omega)) hn, ← hplace, List.getD_eq_getElem?_getD,
    List.getElem?_eq_getElem (hlt _ (Nat.le_refl _)), Option.getD_some]

end

end Runix
