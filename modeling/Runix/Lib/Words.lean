import Mathlib.Data.List.Basic
import Mathlib.Data.List.DropRight
import Mathlib.Data.List.TakeWhile

namespace Runix.Lib

structure Span where
  lo : Nat
  hi : Nat
deriving DecidableEq

section
variable {α : Type}

def Span.cut (s : Span) (l : List α) : List α := (l.take s.hi).drop s.lo

def Holds (p : α → Bool) (l : List α) (i : Nat) : Prop := ∃ x, l[i]? = some x ∧ p x = true

/-- The first position from `i` on whose element fails the test. -/
def passOver (p : α → Bool) (l : List α) (i : Nat) : Nat := i + ((l.drop i).takeWhile p).length

variable {p : α → Bool} {l : List α} {i j : Nat}

theorem Holds.lt (h : Holds p l i) : i < l.length := by
  obtain ⟨x, hx, _⟩ := h
  exact (List.getElem?_eq_some_iff.mp hx).1

theorem not_holds_iff (h : i < l.length) : ¬ Holds p l i ↔ Holds (fun x => !p x) l i := by
  simp [Holds, List.getElem?_eq_getElem h]

theorem le_passOver : i ≤ passOver p l i := Nat.le_add_right _ _

theorem passOver_le (h : i ≤ l.length) : passOver p l i ≤ l.length := by
  have hlen := (List.takeWhile_sublist (l := l.drop i) p).length_le
  rw [List.length_drop] at hlen
  unfold passOver
  omega

theorem drop_passOver : l.drop (passOver p l i) = (l.drop i).dropWhile p := by
  calc l.drop (passOver p l i)
      = (l.drop i).drop ((l.drop i).takeWhile p).length := by rw [passOver, List.drop_drop]
    _ = ((l.drop i).takeWhile p ++ (l.drop i).dropWhile p).drop ((l.drop i).takeWhile p).length := by
        rw [List.takeWhile_append_dropWhile]
    _ = (l.drop i).dropWhile p := List.drop_left

/-- What is passed over meets the test. -/
theorem holds_of_lt_passOver (hij : i ≤ j) (hj : j < passOver p l i) : Holds p l j := by
  have hlt : j - i < ((l.drop i).takeWhile p).length := by
    unfold passOver at hj
    omega
  refine ⟨((l.drop i).takeWhile p)[j - i], ?_, List.mem_takeWhile_imp (List.getElem_mem hlt)⟩
  have hat : l[j]? = ((l.drop i).takeWhile p ++ (l.drop i).dropWhile p)[j - i]? := by
    rw [List.takeWhile_append_dropWhile, List.getElem?_drop]
    congr 1
    omega
  rw [hat, List.getElem?_append_left hlt, List.getElem?_eq_getElem hlt]

/-- What stops the passing fails the test. -/
theorem not_holds_passOver : ¬ Holds p l (passOver p l i) := by
  rintro ⟨x, hx, hp⟩
  have hhead : ((l.drop i).dropWhile p).head? = some x := by
    rw [← drop_passOver, List.head?_drop, hx]
  have hnot := List.head?_dropWhile_not p (l.drop i)
  rw [hhead] at hnot
  cases hp.symm.trans hnot

theorem passOver_of_not (h : ¬ Holds p l i) : passOver p l i = i := by
  rcases Nat.lt_or_ge i (passOver p l i) with hlt | hge
  · exact absurd (holds_of_lt_passOver (Nat.le_refl i) hlt) h
  · exact Nat.le_antisymm hge le_passOver

theorem passOver_of_holds (h : Holds p l i) : passOver p l i = passOver p l (i + 1) := by
  obtain ⟨x, hx, hp⟩ := h
  obtain ⟨hlt, hget⟩ := List.getElem?_eq_some_iff.mp hx
  rw [passOver, passOver, List.drop_eq_getElem_cons hlt, hget, List.takeWhile_cons, hp]
  simp only [if_true, List.length_cons]
  omega

structure IsWord (sep : α → Bool) (l : List α) (s : Span) : Prop where
  lo_lt : s.lo < s.hi
  inner : ∀ i, s.lo ≤ i → i < s.hi → Holds (fun x => !sep x) l i
  left : s.lo = 0 ∨ Holds sep l (s.lo - 1)
  right : s.hi = l.length ∨ Holds sep l s.hi

variable {sep : α → Bool} {s : Span}

theorem IsWord.hi_le (h : IsWord sep l s) : s.hi ≤ l.length := by
  have hlast := (h.inner (s.hi - 1) (by have := h.lo_lt; omega) (by have := h.lo_lt; omega)).lt
  omega

def wordEnd (sep : α → Bool) (l : List α) (i : Nat) : Nat := passOver (fun x => !sep x) l i

def nextWord (sep : α → Bool) (l : List α) (i : Nat) : Nat := passOver sep l (wordEnd sep l i)

theorem le_wordEnd : i ≤ wordEnd sep l i := le_passOver

theorem wordEnd_le_next : wordEnd sep l i ≤ nextWord sep l i := le_passOver

theorem lt_nextWord (h : i < l.length) : i < nextWord sep l i := by
  by_cases hsep : Holds sep l i
  · have hstop : wordEnd sep l i = i :=
      passOver_of_not (fun hword => (not_holds_iff h).mpr hword hsep)
    rw [nextWord, hstop, passOver_of_holds hsep]
    exact le_passOver
  · rw [not_holds_iff h] at hsep
    have hstop : i < wordEnd sep l i := by
      rw [wordEnd, passOver_of_holds hsep]
      exact le_passOver
    exact Nat.lt_of_lt_of_le hstop wordEnd_le_next

def wordsFrom (sep : α → Bool) (l : List α) (i : Nat) : List Span :=
  if _h : i < l.length then ⟨i, wordEnd sep l i⟩ :: wordsFrom sep l (nextWord sep l i) else []
termination_by l.length - i
decreasing_by
  have : i < nextWord sep l i := lt_nextWord _h
  omega

structure AtStart (sep : α → Bool) (l : List α) (i : Nat) : Prop where
  le : i ≤ l.length
  inner : i < l.length → Holds (fun x => !sep x) l i
  left : i < l.length → i = 0 ∨ Holds sep l (i - 1)

theorem AtStart.first : AtStart sep l (passOver sep l 0) := by
  refine ⟨passOver_le (Nat.zero_le _), fun h => (not_holds_iff h).mp not_holds_passOver, fun _ => ?_⟩
  rcases Nat.eq_zero_or_pos (passOver sep l 0) with hzero | hpos
  · exact .inl hzero
  · exact .inr (holds_of_lt_passOver (Nat.zero_le _) (Nat.sub_lt hpos Nat.one_pos))

theorem AtStart.isWord (h : AtStart sep l i) (hi : i < l.length) :
    IsWord sep l ⟨i, wordEnd sep l i⟩ := by
  refine ⟨?_, fun _ => holds_of_lt_passOver, h.left hi, ?_⟩
  · change i < passOver _ l i
    rw [passOver_of_holds (h.inner hi)]
    exact le_passOver
  · rcases Nat.lt_or_ge (wordEnd sep l i) l.length with hlt | hge
    · right
      by_contra hsep
      exact not_holds_passOver ((not_holds_iff hlt).mp hsep)
    · exact .inl (Nat.le_antisymm (passOver_le h.le) hge)

/-- Between two words there is a separator. -/
theorem AtStart.wordEnd_lt_next (h : AtStart sep l i) (hi : i < l.length)
    (hnext : nextWord sep l i < l.length) : wordEnd sep l i < nextWord sep l i := by
  have hle : wordEnd sep l i ≤ nextWord sep l i := wordEnd_le_next
  rcases (h.isWord hi).right with hend | hsep
  · dsimp only at hend
    omega
  · rw [nextWord, passOver_of_holds hsep]
    exact le_passOver

theorem AtStart.next (h : AtStart sep l i) (hi : i < l.length) :
    AtStart sep l (nextWord sep l i) := by
  refine ⟨passOver_le (passOver_le h.le), fun hlt => (not_holds_iff hlt).mp not_holds_passOver,
    fun hlt => .inr ?_⟩
  have hpast := h.wordEnd_lt_next hi hlt
  exact holds_of_lt_passOver (Nat.le_sub_one_of_lt hpast) (Nat.sub_lt (by omega) Nat.one_pos)

/-- A word that starts no earlier than a start is the word there or comes after it. -/
theorem IsWord.after (hs : IsWord sep l s) (h : AtStart sep l i) (hle : i ≤ s.lo) :
    s = ⟨i, wordEnd sep l i⟩ ∨ nextWord sep l i ≤ s.lo := by
  have hlt := hs.lo_lt
  have hi : i < l.length := by
    have := hs.hi_le
    omega
  have hword := h.isWord hi
  have hlo := hs.inner s.lo (Nat.le_refl _) hlt
  rcases Nat.lt_or_ge s.lo (wordEnd sep l i) with hin | hout
  · left
    have hstart : s.lo = i := by
      rcases hs.left with hzero | hsep
      · omega
      · by_contra hne
        have hinner := hword.inner (s.lo - 1) (Nat.le_sub_one_of_lt (show i < s.lo by omega))
          (Nat.lt_of_le_of_lt (Nat.sub_le _ _) hin)
        exact (not_holds_iff hsep.lt).mpr hinner hsep
    have hstop : s.hi = wordEnd sep l i := by
      rcases Nat.lt_trichotomy s.hi (wordEnd sep l i) with hbefore | heq | hbehind
      · rcases hs.right with hend | hsep
        · have hbound : wordEnd sep l i ≤ l.length := hword.hi_le
          omega
        · have hinner := hword.inner s.hi (Nat.le_trans hle (Nat.le_of_lt hlt)) hbefore
          exact absurd hsep ((not_holds_iff hsep.lt).mpr hinner)
      · exact heq
      · exact absurd (hs.inner _ (Nat.le_of_lt hin) hbehind) not_holds_passOver
    rw [← hstop, ← hstart]
  · right
    by_contra hbefore
    have hsep : Holds sep l s.lo := holds_of_lt_passOver hout (Nat.lt_of_not_le hbefore)
    exact (not_holds_iff hsep.lt).mpr hlo hsep

theorem wordsFrom_of_lt (h : i < l.length) : wordsFrom sep l i =
    ⟨i, wordEnd sep l i⟩ :: wordsFrom sep l (nextWord sep l i) := by
  rw [wordsFrom, dif_pos h]

theorem wordsFrom_of_ge (h : l.length ≤ i) : wordsFrom sep l i = [] := by
  rw [wordsFrom, dif_neg (Nat.not_lt.mpr h)]

/-- The words are all there, and nothing else. -/
theorem mem_wordsFrom (h : AtStart sep l i) :
    s ∈ wordsFrom sep l i ↔ IsWord sep l s ∧ i ≤ s.lo := by
  fun_induction wordsFrom sep l i with
  | case1 i hi ih =>
    rw [List.mem_cons, ih (h.next hi)]
    constructor
    · rintro (rfl | ⟨hs, hle⟩)
      · exact ⟨h.isWord hi, Nat.le_refl _⟩
      · exact ⟨hs, Nat.le_trans (Nat.le_of_lt (lt_nextWord hi)) hle⟩
    · rintro ⟨hs, hle⟩
      exact (hs.after h hle).imp id (fun hlo => ⟨hs, hlo⟩)
  | case2 i hi =>
    refine iff_of_false List.not_mem_nil (fun hs => ?_)
    have := hs.1.lo_lt
    have := hs.1.hi_le
    omega

/-- The words come in the order of the list, with a separator between them. -/
theorem pairwise_wordsFrom (h : AtStart sep l i) :
    (wordsFrom sep l i).Pairwise (fun s t => s.hi < t.lo) := by
  fun_induction wordsFrom sep l i with
  | case1 i hi ih =>
    refine List.pairwise_cons.mpr ⟨fun t ht => ?_, ih (h.next hi)⟩
    obtain ⟨hword, hle⟩ := (mem_wordsFrom (h.next hi)).mp ht
    have hnext : nextWord sep l i < l.length := by
      have := hword.lo_lt
      have := hword.hi_le
      omega
    exact Nat.lt_of_lt_of_le (h.wordEnd_lt_next hi hnext) hle
  | case2 i hi => exact .nil

/-- Only separators follow the last word. -/
theorem holds_after_last (h : AtStart sep l i) (hlast : (wordsFrom sep l i).getLast? = some s)
    (hj : s.hi ≤ j) (hlt : j < l.length) : Holds sep l j := by
  fun_induction wordsFrom sep l i with
  | case1 i hi ih =>
    rcases Nat.lt_or_ge (nextWord sep l i) l.length with hnext | hend
    · apply ih (h.next hi)
      rw [wordsFrom_of_lt hnext] at hlast ⊢
      rw [List.getLast?_cons_cons] at hlast
      exact hlast
    · rw [wordsFrom_of_ge hend] at hlast
      cases hlast
      exact holds_of_lt_passOver hj (Nat.lt_of_lt_of_le hlt hend)
  | case2 i hi => cases hlast

theorem cut_passOver : Span.cut ⟨i, passOver p l i⟩ l = (l.drop i).takeWhile p := by
  have hlen : passOver p l i - i = ((l.drop i).takeWhile p).length := Nat.add_sub_cancel_left ..
  calc Span.cut ⟨i, passOver p l i⟩ l
      = (l.drop i).take ((l.drop i).takeWhile p).length := by rw [Span.cut, List.drop_take, hlen]
    _ = ((l.drop i).takeWhile p ++ (l.drop i).dropWhile p).take
          ((l.drop i).takeWhile p).length := by rw [List.takeWhile_append_dropWhile]
    _ = (l.drop i).takeWhile p := List.take_left

theorem drop_nextWord :
    l.drop (nextWord sep l i) = ((l.drop i).dropWhile (fun x => !sep x)).dropWhile sep := by
  rw [nextWord, drop_passOver, wordEnd, drop_passOver]

def splitWords (sep : α → Bool) (l : List α) : List (List α) :=
  (l.splitOnP sep).filter (fun w => !w.isEmpty)

theorem splitWords_cons_sep {x : α} (h : sep x = true) : splitWords sep (x :: l) = splitWords sep l := by
  rw [splitWords, List.splitOnP_cons_eq_if_modifyHead, if_pos h]
  rfl

theorem splitWords_dropWhile : splitWords sep (l.dropWhile sep) = splitWords sep l := by
  induction l with
  | nil => rfl
  | cons x l ih =>
    by_cases h : sep x = true
    · rw [List.dropWhile_cons_of_pos h, ih, splitWords_cons_sep h]
    · rw [List.dropWhile_cons_of_neg h]

/-- The first word of a split, and the split of what comes after it. -/
theorem splitWords_of_word (hne : l.takeWhile (fun x => !sep x) ≠ []) :
    splitWords sep l = l.takeWhile (fun x => !sep x) ::
      splitWords sep (l.dropWhile (fun x => !sep x)) := by
  have hin : ∀ x ∈ l.takeWhile (fun x => !sep x), sep x = false := fun x hx => by
    simpa using List.mem_takeWhile_imp hx
  have hkeep : ∀ ws : List (List α),
      (l.takeWhile (fun x => !sep x) :: ws).filter (fun w => !w.isEmpty) =
        l.takeWhile (fun x => !sep x) :: ws.filter (fun w => !w.isEmpty) :=
    fun ws => List.filter_cons_of_pos (by simpa using hne)
  nth_rewrite 1 [← List.takeWhile_append_dropWhile (p := fun x => !sep x) (l := l)]
  cases hrest : l.dropWhile (fun x => !sep x) with
  | nil =>
    rw [List.append_nil, splitWords, List.splitOnP_eq_singleton hin, hkeep]
    rfl
  | cons x rest =>
    have hx : sep x = true := by
      have hnot := List.head?_dropWhile_not (fun x => !sep x) l
      rw [hrest] at hnot
      simpa using hnot
    rw [splitWords, List.splitOnP_append_cons_of_forall_mem hin x hx, hkeep,
      splitWords_cons_sep hx]
    rfl

/-- The words by their positions are those of a split at the separators. -/
theorem cut_wordsFrom (h : AtStart sep l i) :
    (wordsFrom sep l i).map (fun s => s.cut l) = splitWords sep (l.drop i) := by
  fun_induction wordsFrom sep l i with
  | case1 i hi ih =>
    have hcut : Span.cut ⟨i, wordEnd sep l i⟩ l = (l.drop i).takeWhile (fun x => !sep x) :=
      cut_passOver
    have hne : (l.drop i).takeWhile (fun x => !sep x) ≠ [] := by
      obtain ⟨x, hx, hword⟩ := h.inner hi
      rw [List.drop_eq_getElem_cons hi, (List.getElem?_eq_some_iff.mp hx).2,
        List.takeWhile_cons_of_pos (p := fun x => !sep x) hword]
      exact List.cons_ne_nil _ _
    rw [List.map_cons, ih (h.next hi), hcut, drop_nextWord, splitWords_dropWhile,
      splitWords_of_word hne]
  | case2 i hi =>
    rw [List.drop_of_length_le (Nat.le_of_not_lt hi)]
    rfl

theorem nextWord_of_ge (h : l.length ≤ i) : nextWord sep l i = i := by
  have hout : ∀ q : α → Bool, ¬ Holds q l i := fun q hq => Nat.not_lt.mpr h hq.lt
  rw [nextWord, wordEnd, passOver_of_not (hout _), passOver_of_not (hout _)]

theorem AtStart.after (h : AtStart sep l i) : AtStart sep l (nextWord sep l i) := by
  by_cases hi : i < l.length
  · exact h.next hi
  · rwa [nextWord_of_ge (Nat.le_of_not_lt hi)]

theorem tail_wordsFrom : (wordsFrom sep l i).tail = wordsFrom sep l (nextWord sep l i) := by
  by_cases hi : i < l.length
  · rw [wordsFrom_of_lt hi]
    rfl
  · rw [nextWord_of_ge (Nat.le_of_not_lt hi), wordsFrom_of_ge (Nat.le_of_not_lt hi)]
    rfl

theorem rdropWhile_append_all {before after : List α} (h : ∀ x ∈ after, p x = true) :
    (before ++ after).rdropWhile p = before.rdropWhile p := by
  induction after using List.reverseRecOn with
  | nil => rw [List.append_nil]
  | append_singleton after x ih =>
    have hx : p x = true := h x (by simp)
    rw [← List.append_assoc, List.rdropWhile_concat_pos p _ x hx]
    exact ih (fun y hy => h y (by simp [hy]))

/-- A list without the elements at its end that meet the test. -/
theorem rdropWhile_drop {stop : Nat} (hi : i < stop) (hlast : ¬ Holds p l (stop - 1))
    (hle : stop ≤ l.length) (hrest : ∀ j, stop ≤ j → j < l.length → Holds p l j) :
    (l.drop i).rdropWhile p = Span.cut ⟨i, stop⟩ l := by
  have hsplit : l.drop i = Span.cut ⟨i, stop⟩ l ++ l.drop stop := by
    have hin : i ≤ (l.take stop).length := by
      rw [List.length_take]
      omega
    rw [Span.cut, ← List.drop_append_of_le_length hin, List.take_append_drop]
  have hall : ∀ x ∈ l.drop stop, p x = true := by
    intro x hx
    obtain ⟨k, hk, rfl⟩ := List.mem_iff_getElem.mp hx
    rw [List.length_drop] at hk
    obtain ⟨y, hy, hp⟩ := hrest (stop + k) (by omega) (by omega)
    rw [List.getElem_drop, (List.getElem?_eq_some_iff.mp hy).2]
    exact hp
  have hself : (Span.cut ⟨i, stop⟩ l).rdropWhile p = Span.cut ⟨i, stop⟩ l := by
    rw [List.rdropWhile_eq_self_iff]
    intro hne hp
    refine hlast ⟨_, ?_, hp⟩
    rw [← List.getLast?_eq_some_getLast hne, Span.cut]
    dsimp only
    rw [List.getLast?_drop, if_neg (by rw [List.length_take]; omega), List.getLast?_take,
      if_neg (by omega), List.getElem?_eq_getElem (by omega)]
    rfl
  rw [hsplit, rdropWhile_append_all hall, hself]

def words (sep : α → Bool) (l : List α) : List Span := wordsFrom sep l (passOver sep l 0)

theorem mem_words : s ∈ words sep l ↔ IsWord sep l s := by
  rw [words, mem_wordsFrom .first]
  refine and_iff_left_of_imp (fun hs => ?_)
  by_contra hlt
  have hsep : Holds sep l s.lo := holds_of_lt_passOver (Nat.zero_le _) (Nat.lt_of_not_le hlt)
  exact (not_holds_iff hsep.lt).mpr (hs.inner s.lo (Nat.le_refl _) hs.lo_lt) hsep

theorem pairwise_words : (words sep l).Pairwise (fun s t => s.hi < t.lo) :=
  pairwise_wordsFrom .first

theorem cut_words : (words sep l).map (fun s => s.cut l) = splitWords sep l := by
  rw [words, cut_wordsFrom .first, drop_passOver, List.drop_zero, splitWords_dropWhile]

end

end Runix.Lib
