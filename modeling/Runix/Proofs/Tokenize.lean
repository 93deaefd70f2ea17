import Runix.Tokenize

namespace Runix

section Loops
variable {line : List UInt8} {tokens : TokenArray} {idx count : Nat}

theorem skipWhile_eq (test : UInt8 → Bool) :
    skipWhile test line idx = some (Lib.passOver test line idx) := by
  fun_induction skipWhile test line idx with
  | case1 idx hidx ih =>
    rw [List.getElem?_eq_getElem hidx, Option.bind_eq_bind, Option.bind_some]
    by_cases htest : test (line)[idx] = true
    · have hholds : Lib.Holds test line idx := ⟨_, List.getElem?_eq_getElem hidx, htest⟩
      rw [if_pos htest, ih, ← Lib.passOver_of_holds hholds]
    · rw [if_neg htest, Lib.passOver_of_not]
      rintro ⟨b, hb, hin⟩
      rw [List.getElem?_eq_getElem hidx] at hb
      cases hb
      exact htest hin
  | case2 idx hidx => rw [Lib.passOver_of_not (fun h => hidx h.lt)]

def TokenArray.fill (tokens : TokenArray) (count : Nat) (ws : List Lib.Span) : TokenArray :=
  fun i => if count ≤ i.val then (ws[i.val - count]?).or (tokens i) else tokens i

theorem TokenArray.fill_nil (tokens : TokenArray) (count : Nat) : tokens.fill count [] = tokens := by
  funext i
  simp [fill]

theorem TokenArray.fill_cons (tokens : TokenArray) (hcount : count < 4) (w : Lib.Span)
    (ws : List Lib.Span) : tokens.fill count (w :: ws) =
      TokenArray.fill (Function.update tokens ⟨count, hcount⟩ (some w)) (count + 1) ws := by
  funext i
  unfold fill
  rcases Nat.lt_trichotomy i.val count with hlt | heq | hgt
  · have hne : i ≠ ⟨count, hcount⟩ := fun h => by
      rw [h] at hlt
      exact Nat.lt_irrefl _ hlt
    rw [if_neg (by omega), if_neg (by omega), Function.update_of_ne hne]
  · obtain rfl : i = ⟨count, hcount⟩ := Fin.ext heq
    rw [if_pos (Nat.le_refl _), if_neg (Nat.not_succ_le_self _), Function.update_self, Nat.sub_self]
    rfl
  · have hne : i ≠ ⟨count, hcount⟩ := fun h => by
      rw [h] at hgt
      exact Nat.lt_irrefl _ hgt
    rw [if_pos (by omega), if_pos (by omega), Function.update_of_ne hne,
      show i.val - count = (i.val - (count + 1)) + 1 by omega, List.getElem?_cons_succ]

theorem tokenWords_of_lt (hidx : idx < line.length) (hcount : count < 3) :
    tokenWords line tokens idx count =
      tokenWords line (Function.update tokens ⟨count, Nat.lt_succ_of_lt hcount⟩
        (some ⟨idx, Lib.wordEnd isSpace line idx⟩)) (Lib.nextWord isSpace line idx) (count + 1) := by
  have hslice : subSlice line idx (Lib.wordEnd isSpace line idx) =
      some ⟨idx, Lib.wordEnd isSpace line idx⟩ :=
    if_pos ⟨Lib.le_wordEnd, Lib.passOver_le (Nat.le_of_lt hidx)⟩
  rw [tokenWords, dif_pos ⟨hidx, hcount⟩, skipWhile_eq, ← Lib.wordEnd, Option.bind_eq_bind,
    Option.bind_some]
  simp only [hslice, Lib.assign_of_lt (Nat.lt_succ_of_lt hcount), skipWhile_eq,
    Option.bind_eq_bind, Option.bind_some]
  rfl

/-- The loop takes the first words, up to the third entry, and stops at the next one. -/
theorem tokenWords_eq (tokens : TokenArray) (left : Nat) (hcount : count + left = 3)
    (h : Lib.AtStart isSpace line idx) :
    ∃ idx', Lib.AtStart isSpace line idx' ∧
      Lib.wordsFrom isSpace line idx' = (Lib.wordsFrom isSpace line idx).drop left ∧
      tokenWords line tokens idx count =
        some (tokens.fill count ((Lib.wordsFrom isSpace line idx).take left), idx',
          count + min (Lib.wordsFrom isSpace line idx).length left) := by
  induction left generalizing tokens idx count with
  | zero =>
    refine ⟨idx, h, rfl, ?_⟩
    rw [tokenWords, dif_neg (by omega), List.take_zero, TokenArray.fill_nil, Nat.min_zero]
    rfl
  | succ left ih =>
    by_cases hidx : idx < line.length
    · have hnext : count + 1 + left = 3 := by omega
      have hroom : count < 4 := by omega
      obtain ⟨idx', hstart, hdrop, hrest⟩ := ih (Function.update tokens ⟨count, hroom⟩
        (some ⟨idx, Lib.wordEnd isSpace line idx⟩)) hnext (h.next hidx)
      refine ⟨idx', hstart, ?_, ?_⟩
      · rw [hdrop, Lib.wordsFrom_of_lt hidx, List.drop_succ_cons]
      · rw [tokenWords_of_lt hidx (by omega), hrest, Lib.wordsFrom_of_lt hidx, List.take_succ_cons,
          TokenArray.fill_cons tokens hroom, List.length_cons, Nat.add_min_add_right]
        congr 3
        omega
    · refine ⟨idx, h, ?_, ?_⟩
      · rw [Lib.wordsFrom_of_ge (Nat.le_of_not_lt hidx), List.drop_nil]
      · rw [tokenWords, dif_neg (fun hboth => hidx hboth.1),
          Lib.wordsFrom_of_ge (Nat.le_of_not_lt hidx), List.take_nil, TokenArray.fill_nil,
          List.length_nil, Nat.zero_min]
        rfl

/-- The last loop goes back over spaces to the end of the last word. -/
theorem trimEnd_eq {stop : Nat} (last : Nat) (hidx : idx < stop) (hlast : stop ≤ last)
    (hword : Lib.Holds (fun b => !isSpace b) line (stop - 1))
    (hspaces : ∀ j, stop ≤ j → j < last → Lib.Holds isSpace line j) :
    trimEnd line idx last = some stop := by
  induction last with
  | zero => omega
  | succ last ih =>
    rw [trimEnd, if_pos (by omega)]
    by_cases hend : stop = last + 1
    · subst hend
      obtain ⟨b, hb, hnot⟩ := hword
      rw [Nat.add_sub_cancel] at hb
      rw [hb, Option.bind_eq_bind, Option.bind_some, if_neg (by simpa using hnot)]
    · obtain ⟨b, hb, hspace⟩ := hspaces last (by omega) (Nat.lt_succ_self _)
      rw [hb, Option.bind_eq_bind, Option.bind_some, if_pos hspace]
      exact ih (by omega) (fun j hj hlt => hspaces j hj (by omega))

/-- What the loop over three words leaves in the array. -/
theorem TokenArray.fill_three (tokens : TokenArray) (ws : List Lib.Span) (i : Fin 4) :
    tokens.fill 0 (ws.take 3) i = if i.val < 3 then (ws[i.val]?).or (tokens i) else tokens i := by
  rw [fill, if_pos (Nat.zero_le _), Nat.sub_zero, List.getElem?_take]
  split <;> rfl

end Loops

def lastToken (ws : List Lib.Span) : Option Lib.Span :=
  (ws[3]?).bind (fun first => ws.getLast?.map (fun last => ⟨first.lo, last.hi⟩))

def TokenArray.set (tokens : TokenArray) (ws : List Lib.Span) : TokenArray :=
  fun i => (if i.val < 3 then ws[i.val]? else lastToken ws).or (tokens i)

section Tokens
variable {line : List UInt8} {tokens : TokenArray} {ws : List Lib.Span} {idx : Nat}

theorem TokenArray.set_of_short (h : ws.length ≤ 3) :
    tokens.fill 0 (ws.take 3) = tokens.set ws := by
  have hlast : lastToken ws = none := by
    rw [lastToken, List.getElem?_eq_none h]
    rfl
  funext i
  rw [fill_three, set, hlast]
  split <;> rfl

theorem TokenArray.set_of_long {rest : Lib.Span} (h : lastToken ws = some rest) (hthree : 3 < 4) :
    Function.update (tokens.fill 0 (ws.take 3)) ⟨3, hthree⟩ (some rest) = tokens.set ws := by
  funext i
  rw [Function.update_apply, fill_three, set, h]
  by_cases hi : i = ⟨3, hthree⟩
  · subst hi
    rfl
  · have hlt : i.val < 3 := by
      have hne : i.val ≠ 3 := fun heq => hi (Fin.ext heq)
      omega
    rw [if_neg hi, if_pos hlt, if_pos hlt]

/-- The rest of a line from the start of its fourth word on ends with a word, and only
spaces follow. -/
theorem rest_of_words (h : Lib.AtStart isSpace line idx) (hidx : idx < line.length)
    (hws : Lib.wordsFrom isSpace line idx = ws.drop 3) :
    ∃ stop, lastToken ws = some ⟨idx, stop⟩ ∧ idx < stop ∧ stop ≤ line.length ∧
      Lib.Holds (fun b => !isSpace b) line (stop - 1) ∧
      ∀ j, stop ≤ j → j < line.length → Lib.Holds isSpace line j := by
  have hcons := hws.symm.trans (Lib.wordsFrom_of_lt hidx)
  obtain ⟨last, hlast⟩ : ∃ last, (ws.drop 3).getLast? = some last := by
    rw [hcons, List.getLast?_cons]
    exact ⟨_, rfl⟩
  have hfourth : ws[3]? = some ⟨idx, Lib.wordEnd isSpace line idx⟩ := by
    rw [← List.head?_drop, hcons]
    rfl
  have hend : ws.getLast? = some last := by
    rw [← hlast, List.getLast?_drop, if_neg]
    have := (List.getElem?_eq_some_iff.mp hfourth).1
    omega
  rw [← hws] at hlast
  obtain ⟨hword, hle⟩ := (Lib.mem_wordsFrom h).mp (List.mem_of_getLast? hlast)
  have hlo := hword.lo_lt
  refine ⟨last.hi, ?_, by omega, hword.hi_le, hword.inner (last.hi - 1) (by omega) (by omega),
    fun j hj hlt => Lib.holds_after_last h hlast hj hlt⟩
  rw [lastToken, hfourth, hend]
  rfl

end Tokens

/-- `tokenize` in terms of the words of the line. -/
theorem tokenizeInto_eq (line : List UInt8) (tokens : TokenArray) :
    tokenizeInto line tokens = some (tokens.set (Lib.words isSpace line),
      min (Lib.words isSpace line).length 4) := by
  obtain ⟨idx, hstart, hdrop, hwords⟩ := tokenWords_eq tokens 3 rfl
    (show Lib.AtStart isSpace line (Lib.passOver isSpace line 0) from .first)
  rw [← Lib.words] at hdrop hwords
  rw [tokenizeInto, skipWhile_eq]
  simp only [Option.bind_eq_bind, Option.bind_some, hwords]
  by_cases hidx : idx < line.length
  · obtain ⟨stop, htoken, hlt, hle, hword, hspaces⟩ := rest_of_words hstart hidx hdrop
    have htrim := trimEnd_eq line.length hlt hle hword hspaces
    have hslice : subSlice line idx stop = some ⟨idx, stop⟩ := if_pos ⟨Nat.le_of_lt hlt, hle⟩
    have hlong : 3 < (Lib.words isSpace line).length := by
      have hcons := hdrop.symm.trans (Lib.wordsFrom_of_lt hidx)
      by_contra hshort
      rw [List.drop_of_length_le (Nat.le_of_not_lt hshort)] at hcons
      cases hcons
    rw [if_pos hidx, htrim, Option.bind_some, if_pos hlt, hslice, Option.bind_some,
      Lib.assign_of_lt (show 3 < 4 by decide), Option.bind_some, TokenArray.set_of_long htoken]
    congr 2
    omega
  · have hshort : (Lib.words isSpace line).length ≤ 3 := by
      rw [Lib.wordsFrom_of_ge (Nat.le_of_not_lt hidx)] at hdrop
      exact List.drop_eq_nil_iff.mp hdrop.symm
    rw [if_neg hidx, TokenArray.set_of_short hshort]
    congr 2
    omega

/-- `tokenize` splits a line at its spaces: of the words, each maximal and in their order, the
first three go to their entries, the fourth takes the rest of the line without the spaces
at its end, and an entry without a word is left as it was. -/
theorem tokenize_splits (line : List UInt8) (tokens : TokenArray) :
    ∃ ws : List Lib.Span,
      (∀ s, s ∈ ws ↔ Lib.IsWord isSpace line s) ∧ ws.Pairwise (fun s t => s.hi < t.lo) ∧
      ws.map (fun s => s.cut line) = (line.splitOnP isSpace).filter (fun w => !w.isEmpty) ∧
      ∃ tokens' : TokenArray, tokenizeInto line tokens = some (tokens', min ws.length 4) ∧
        (∀ i : Fin 4, i.val < 3 → i.val < ws.length → tokens' i = ws[i.val]?) ∧
        (∀ i : Fin 4, ws.length ≤ i.val → tokens' i = tokens i) ∧
        (4 ≤ ws.length → ∃ first last, ws[3]? = some first ∧ ws.getLast? = some last ∧
          tokens' 3 = some ⟨first.lo, last.hi⟩) := by
  refine ⟨Lib.words isSpace line, fun _ => Lib.mem_words, Lib.pairwise_words, Lib.cut_words,
    tokens.set _, tokenizeInto_eq line tokens, ?_, ?_, ?_⟩
  · intro i hthree hi
    rw [TokenArray.set, if_pos hthree, List.getElem?_eq_getElem hi]
    rfl
  · intro i hi
    have hnone : (if i.val < 3 then (Lib.words isSpace line)[i.val]?
        else lastToken (Lib.words isSpace line)) = none := by
      split
      · exact List.getElem?_eq_none hi
      · rw [lastToken, List.getElem?_eq_none (by omega)]
        rfl
    rw [TokenArray.set, hnone]
    rfl
  · intro hfour
    obtain ⟨first, hfirst⟩ : ∃ first, (Lib.words isSpace line)[3]? = some first :=
      ⟨_, List.getElem?_eq_getElem hfour⟩
    obtain ⟨last, hlast⟩ : ∃ last, (Lib.words isSpace line).getLast? = some last :=
      ⟨_, List.getLast?_eq_some_getLast (List.ne_nil_of_length_pos (by omega))⟩
    refine ⟨first, last, hfirst, hlast, ?_⟩
    have htoken : lastToken (Lib.words isSpace line) = some ⟨first.lo, last.hi⟩ := by
      rw [lastToken, hfirst, hlast]
      rfl
    rw [TokenArray.set, if_neg (by decide), htoken]
    rfl

section Dispatch
variable {line : List UInt8} {idx : Nat}

theorem isSpace_eq : (fun b : UInt8 => decide (b = 32)) = isSpace := rfl

theorem not_isSpace_eq : (fun b : UInt8 => decide (b ≠ 32)) = fun b => !isSpace b :=
  funext (fun _ => decide_not)

theorem firstWord_drop : firstWord (line.drop idx) =
    (((Lib.wordsFrom isSpace line idx)[0]?).map (fun s => s.cut line)).getD [] := by
  rw [firstWord, not_isSpace_eq, ← Lib.cut_passOver]
  by_cases hidx : idx < line.length
  · rw [Lib.wordsFrom_of_lt hidx]
    rfl
  · rw [Lib.wordsFrom_of_ge (Nat.le_of_not_lt hidx), Lib.cut_passOver,
      List.drop_of_length_le (Nat.le_of_not_lt hidx)]
    rfl

theorem afterWord_drop : afterWord (line.drop idx) = line.drop (Lib.nextWord isSpace line idx) := by
  rw [afterWord, not_isSpace_eq, isSpace_eq, Lib.drop_nextWord]

/-- What is left after three words, without the spaces at its end. -/
theorem rest_drop {ws : List Lib.Span} (h : Lib.AtStart isSpace line idx)
    (hws : Lib.wordsFrom isSpace line idx = ws.drop 3) :
    (line.drop idx).rdropWhile isSpace = ((lastToken ws).map (fun s => s.cut line)).getD [] := by
  by_cases hidx : idx < line.length
  · obtain ⟨stop, htoken, hlt, hle, hword, hspaces⟩ := rest_of_words h hidx hws
    rw [htoken, Lib.rdropWhile_drop hlt ((Lib.not_holds_iff hword.lt).mpr hword) hle hspaces]
    rfl
  · rw [Lib.wordsFrom_of_ge (Nat.le_of_not_lt hidx)] at hws
    rw [List.drop_of_length_le (Nat.le_of_not_lt hidx), lastToken,
      List.getElem?_eq_none (List.drop_eq_nil_iff.mp hws.symm)]
    rfl

/-- The word-by-word reading of a line, by the positions of its words. -/
theorem tokenize_eq (line : List UInt8) :
    let read : Option Lib.Span → List UInt8 := fun s => (s.map (fun s => s.cut line)).getD []
    let ws := Lib.words isSpace line
    tokenize line = ⟨read ws[0]?, read ws[1]?, read ws[2]?, read (lastToken ws)⟩ := by
  have h₀ : Lib.AtStart isSpace line (Lib.passOver isSpace line 0) := .first
  have hskip : line.dropWhile (fun b => decide (b = 32)) =
      line.drop (Lib.passOver isSpace line 0) := by
    rw [isSpace_eq, Lib.drop_passOver, List.drop_zero]
  have hnext : ∀ idx k, Lib.wordsFrom isSpace line idx = (Lib.words isSpace line).drop k →
      Lib.wordsFrom isSpace line (Lib.nextWord isSpace line idx) =
        (Lib.words isSpace line).drop (k + 1) := by
    intro idx k hk
    rw [← Lib.tail_wordsFrom, hk, List.tail_drop]
  have hword : ∀ idx k, Lib.wordsFrom isSpace line idx = (Lib.words isSpace line).drop k →
      firstWord (line.drop idx) =
        (((Lib.words isSpace line)[k]?).map (fun s => s.cut line)).getD [] := by
    intro idx k hk
    rw [firstWord_drop, hk, List.getElem?_drop, Nat.add_zero]
  have hw₁ := hnext _ 0 rfl
  have hw₂ := hnext _ 1 hw₁
  have hw₃ := hnext _ 2 hw₂
  simp only [tokenize, hskip, afterWord_drop]
  rw [hword _ 0 rfl, hword _ 1 hw₁, hword _ 2 hw₂, isSpace_eq,
    rest_drop h₀.after.after.after hw₃]

/-- A line has a word exactly when its first token is not empty. -/
theorem tok0_eq_nil (line : List UInt8) :
    (tokenize line).tok0 = [] ↔ Lib.words isSpace line = [] := by
  rw [tokenize_eq]
  cases hws : Lib.words isSpace line with
  | nil => exact iff_of_true rfl rfl
  | cons w ws =>
    refine iff_of_false (fun hnil => ?_) (List.cons_ne_nil _ _)
    have hword := Lib.mem_words.mp (hws ▸ List.mem_cons_self : w ∈ Lib.words isSpace line)
    have hcut : (w.cut line).length = w.hi - w.lo := by
      rw [Lib.Span.cut, List.length_drop, List.length_take, Nat.min_eq_left hword.hi_le]
    have hzero : (w.cut line).length = 0 := congrArg List.length hnil
    have := hword.lo_lt
    omega

/-- The tokens that the commands work on are those of the loops. -/
theorem dispatchTokens_eq (line : List UInt8) :
    dispatchTokens line =
      some (if (tokenize line).tok0 = [] then none else some (tokenize line)) := by
  rw [dispatchTokens, tokenizeInto_eq]
  simp only [Option.bind_eq_bind, Option.bind_some]
  by_cases hnone : Lib.words isSpace line = []
  · rw [if_pos ((tok0_eq_nil line).mpr hnone), hnone]
    rfl
  · have hpos : 0 < (Lib.words isSpace line).length := List.length_pos_iff.mpr hnone
    rw [if_neg (by omega), if_neg (fun h => hnone ((tok0_eq_nil line).mp h)), tokenize_eq]
    simp only [TokenArray.set, Option.or_none]
    rfl

end Dispatch

end Runix
