import Mathlib.Data.List.Destutter
import Runix.History
import Runix.Lib.Journal

namespace Runix

def keep (kept : List (List UInt8)) (cmd : List UInt8) : List (List UInt8) :=
  if cmd = [] ∨ kept.getLast? = some cmd then kept else kept ++ [cmd]

def keptOf (cmds : List (List UInt8)) : List (List UInt8) :=
  (cmds.filter (fun cmd => cmd ≠ [])).destutter (· ≠ ·)

theorem keep_foldl (cmds kept : List (List UInt8)) (last : List UInt8) :
    cmds.foldl keep (kept ++ [last]) =
      kept ++ (cmds.filter (fun cmd => cmd ≠ [])).destutter' (· ≠ ·) last := by
  induction cmds generalizing kept last with
  | nil => simp
  | cons cmd cmds ih =>
    rw [List.foldl_cons]
    by_cases hempty : cmd = []
    · have hkeep : keep (kept ++ [last]) cmd = kept ++ [last] := if_pos (.inl hempty)
      rw [hkeep, ih, List.filter_cons_of_neg (by simpa using hempty)]
    · rw [List.filter_cons_of_pos (by simpa using hempty)]
      by_cases hsame : last = cmd
      · have hkeep : keep (kept ++ [last]) cmd = kept ++ [last] :=
          if_pos (.inr (by rw [List.getLast?_concat, hsame]))
        rw [hkeep, ih, List.destutter'_cons_neg _ (by simpa using hsame)]
      · have hkeep : keep (kept ++ [last]) cmd = kept ++ [last] ++ [cmd] := by
          refine if_neg (fun h => ?_)
          rcases h with h | h
          · exact hempty h
          · rw [List.getLast?_concat] at h
            exact hsame (Option.some.inj h)
        rw [hkeep, ih, List.destutter'_cons_pos _ hsame, List.append_assoc]
        rfl

theorem keptOf_eq (cmds : List (List UInt8)) : keptOf cmds = cmds.foldl keep [] := by
  induction cmds with
  | nil => rfl
  | cons cmd cmds ih =>
    by_cases hempty : cmd = []
    · rw [List.foldl_cons, show keep [] cmd = [] from if_pos (.inl hempty), ← ih, keptOf, keptOf,
        List.filter_cons_of_neg (by simpa using hempty)]
    · have hkeep : keep [] cmd = [] ++ [cmd] := if_neg (by simpa using hempty)
      rw [List.foldl_cons, hkeep, keep_foldl, keptOf,
        List.filter_cons_of_pos (by simpa using hempty)]
      rfl

namespace History
variable {h : History} {kept : List (List UInt8)} {cmd : List UInt8}

def entry (h : History) (i : Fin 16) : List UInt8 := (h.buffer i).toList.take (h.lens i)

structure Records (h : History) (kept : List (List UInt8)) : Prop where
  journal : Lib.Journal h.entry kept.length kept
  lens : ∀ i, h.lens i ≤ 128
  head : h.head = kept.length % 16
  count : h.count = min kept.length 16

theorem new_records : new.Records [] :=
  ⟨Lib.Journal.new _, fun _ => Nat.zero_le _, rfl, rfl⟩

theorem slice_entry (h : History) (i : Fin 16) (hlen : h.lens i ≤ 128) :
    Lib.slice (h.buffer i) 0 (h.lens i) = some (h.entry i) := by
  rw [Lib.slice_of_le (Nat.zero_le _) hlen, List.drop_zero]
  rfl

/-- The place of the command so many steps back. -/
theorem Records.place (hr : h.Records kept) {d : Nat} (hd : 1 ≤ d) (hm : d ≤ kept.length)
    (h16 : d ≤ 16) :
    (h.head + 16 - d) % 16 = (Fin.ofNat 16 (kept.length - d)).val ∧
      kept[kept.length - d]? = some (h.entry (Fin.ofNat 16 (kept.length - d))) := by
  have hhead := hr.head
  refine ⟨?_, hr.journal.entry _ (by omega) (by omega)⟩
  change (h.head + 16 - d) % 16 = (kept.length - d) % 16
  omega

theorem Records.get (hr : h.Records kept) (d : Nat) :
    h.get d = some (if 1 ≤ d ∧ d ≤ min 16 kept.length then kept[kept.length - d]? else none) := by
  have hcount := hr.count
  unfold History.get
  by_cases hd : 1 ≤ d ∧ d ≤ min 16 kept.length
  · obtain ⟨hplace, hentry⟩ := hr.place hd.1 (by omega) (by omega)
    rw [if_neg (by omega), if_pos hd, hentry]
    simp only [hplace, Lib.index_val, Option.bind_eq_bind, Option.bind_some,
      slice_entry h _ (hr.lens _)]
  · rw [if_pos (by omega), if_neg hd]

theorem Records.repeats (hr : h.Records kept) (cmd : List UInt8) :
    h.repeats cmd = some (decide (kept.getLast? = some cmd)) := by
  have hcount := hr.count
  unfold History.repeats
  cases hkept : kept with
  | nil =>
    rw [hkept] at hcount
    rw [if_neg (by simp at hcount; omega)]
    rfl
  | cons first rest =>
    have hpos : 1 ≤ kept.length := by rw [hkept]; exact Nat.succ_pos _
    obtain ⟨hplace, hentry⟩ := hr.place (Nat.le_refl 1) hpos (by decide)
    have hlast : (h.head + 15) % 16 = (h.head + 16 - 1) % 16 := rfl
    have hget : kept.getLast? = some (h.entry (Fin.ofNat 16 (kept.length - 1))) := by
      rw [List.getLast?_eq_getElem?, hentry]
    rw [← hkept, if_pos (by omega), hget]
    simp only [hlast, hplace, Lib.index_val, Option.bind_eq_bind, Option.bind_some,
      slice_entry h _ (hr.lens _), Option.some.injEq]
    split
    · rfl
    · rename_i hne
      have hlen : (h.entry (Fin.ofNat 16 (kept.length - 1))).length ≠ cmd.length := by
        rw [entry, List.length_take, Vector.length_toList, Nat.min_eq_left (hr.lens _)]
        exact hne
      rw [decide_eq_false (fun he => hlen (by rw [he]))]

theorem Records.push (hr : h.Records kept) (hcmd : cmd.length ≤ 128) :
    ∃ h', h.push cmd = some h' ∧ h'.Records (keep kept cmd) := by
  by_cases hempty : cmd = []
  · subst hempty
    rw [show keep kept [] = kept from if_pos (.inl rfl)]
    exact ⟨h, rfl, hr⟩
  · unfold History.push
    rw [if_neg (by simpa using hempty), hr.repeats, Option.bind_eq_bind, Option.bind_some]
    by_cases hlast : kept.getLast? = some cmd
    · rw [show keep kept cmd = kept from if_pos (.inr hlast), if_pos (decide_eq_true hlast)]
      exact ⟨h, rfl, hr⟩
    · have hlt : h.head < 16 := by
        rw [hr.head]
        exact Nat.mod_lt _ (by decide)
      have hplace : (⟨h.head, hlt⟩ : Fin 16) = Fin.ofNat 16 kept.length := Fin.ext hr.head
      obtain ⟨entry', hcopy, hbegins⟩ := Lib.copySlice_front (h.buffer ⟨h.head, hlt⟩) cmd hcmd
      rw [show keep kept cmd = kept ++ [cmd] from if_neg (fun he => he.elim hempty hlast),
        if_neg (by simpa using hlast)]
      simp only [Nat.min_eq_left hcmd, List.take_length, Lib.index_of_lt hlt, Lib.assign_of_lt hlt,
        hcopy, Option.bind_eq_bind, Option.bind_some]
      refine ⟨_, rfl, ?_, ?_, ?_, ?_⟩
      · have hentry : entry ⟨Function.update h.buffer ⟨h.head, hlt⟩ entry',
            Function.update h.lens ⟨h.head, hlt⟩ cmd.length, (h.head + 1) % 16,
            if h.count < 16 then h.count + 1 else h.count⟩ =
            Function.update h.entry (Fin.ofNat 16 kept.length) cmd := by
          funext i
          rw [← hplace]
          by_cases hi : i = ⟨h.head, hlt⟩
          · subst hi
            simp only [entry, Function.update_self]
            exact hbegins
          · simp only [entry, Function.update_of_ne hi]
        rw [hentry, List.length_append, List.length_singleton]
        exact hr.journal.push cmd
      · intro i
        simp only [Function.update_apply]
        split
        · exact hcmd
        · exact hr.lens i
      · have := hr.head
        simp only [List.length_append, List.length_singleton]
        omega
      · have := hr.count
        simp only [List.length_append, List.length_singleton]
        split <;> omega

theorem Records.pushes (hr : h.Records kept) {cmds : List (List UInt8)}
    (hcmds : ∀ cmd ∈ cmds, cmd.length ≤ 128) :
    ∃ h', cmds.foldlM History.push h = some h' ∧ h'.Records (cmds.foldl keep kept) := by
  induction cmds generalizing h kept with
  | nil => exact ⟨h, rfl, hr⟩
  | cons cmd cmds ih =>
    obtain ⟨h₁, hpush, hr₁⟩ := hr.push (hcmds cmd List.mem_cons_self)
    obtain ⟨h', hrun, hr'⟩ := ih hr₁ (fun c hc => hcmds c (List.mem_cons_of_mem cmd hc))
    refine ⟨h', ?_, hr'⟩
    rw [List.foldlM_cons, hpush]
    exact hrun

/-- Every depth up to the size of the history has a command that fits a line. -/
theorem Records.recalls (hr : h.Records kept) {d : Nat} (hd : 1 ≤ d) (hle : d ≤ h.count) :
    ∃ cmd, h.get d = some (some cmd) ∧ cmd.length ≤ 128 := by
  have hcount := hr.count
  obtain ⟨_, hentry⟩ := hr.place hd (by omega) (by omega)
  refine ⟨h.entry (Fin.ofNat 16 (kept.length - d)), ?_, ?_⟩
  · rw [hr.get, if_pos ⟨hd, by omega⟩, hentry]
  · exact Nat.le_trans (List.length_take_le' _ _) (Nat.le_of_eq (Vector.length_toList))

end History

inductive Arrow where
  | up
  | down

namespace Arrow

def bytes : Arrow → List UInt8
  | up => [0x1b, 91, 65]
  | down => [0x1b, 91, 66]

def walk (size depth : Nat) : Arrow → Nat
  | up => min (depth + 1) size
  | down => depth - 1

end Arrow

def Reading.editor {size : Nat} : Reading size → LineEditor size
  | waiting e => e
  | returned e _ => e

namespace LineEditor
variable {hist : History} {kept : List (List UInt8)} {e e' : LineEditor 128} {L : List UInt8} {d : Nat}

def line {size : Nat} (e : LineEditor size) : List UInt8 := e.buf.toList.take e.n

/-- A walk through the history from a line: either that line is shown, or a command
of the history while the line is the draft. -/
structure Recalling (hist : History) (L : List UInt8) (d : Nat) (e : LineEditor 128) : Prop where
  depth : e.historyTempIdx = d
  le : d ≤ hist.count
  room : e.n ≤ 128
  zero : d = 0 → e.line = L
  recalled : 0 < d → hist.get d = some (some e.line)
  draft : 0 < d → e.draftLen ≤ 128 ∧ e.draftBuf.toList.take e.draftLen = L

theorem replace_line {size : Nat} (e : LineEditor size) {line : List UInt8} (h : line.length ≤ size) :
    ∃ buf, e.replace line = some { e with buf := buf, n := line.length } ∧
      buf.toList.take line.length = line := by
  obtain ⟨buf, hcopy, hbegins⟩ := Lib.copySlice_front e.buf line h
  exact ⟨buf, by rw [replace, hcopy]; rfl, hbegins⟩

/-- The line goes into the draft. -/
theorem saveDraft_line (hroom : e.n ≤ 128) : ∃ draftBuf,
    e.saveDraft = some { e with draftBuf := draftBuf, draftLen := e.n } ∧
      draftBuf.toList.take e.n = e.line := by
  have hlen : e.line.length = e.n := by
    rw [line, List.length_take, Vector.length_toList, Nat.min_eq_left hroom]
  obtain ⟨draftBuf, hcopy, hbegins⟩ := Lib.copySlice_front e.draftBuf e.line (hlen.trans_le hroom)
  rw [hlen] at hcopy
  refine ⟨draftBuf, ?_, ?_⟩
  · rw [saveDraft, Lib.slice_of_le (Nat.zero_le _) hroom, List.drop_zero, Option.bind_eq_bind,
      Option.bind_some]
    change (Lib.copySlice e.draftBuf 0 e.n e.line).bind _ = _
    rw [hcopy]
    rfl
  · have hbegins' : draftBuf.toList.take e.line.length = e.line := hbegins
    rwa [hlen] at hbegins'

/-- The command at the depth of recall is shown. -/
theorem recall_shows (hr : hist.Records kept) (hd : 1 ≤ e.historyTempIdx)
    (hle : e.historyTempIdx ≤ hist.count) : ∃ cmd buf,
      hist.get e.historyTempIdx = some (some cmd) ∧ cmd.length ≤ 128 ∧
      e.showRecalled hist = some { e with buf := buf, n := cmd.length } ∧
      buf.toList.take cmd.length = cmd := by
  obtain ⟨cmd, hget, hlen⟩ := hr.recalls hd hle
  obtain ⟨buf, hreplace, hbuf⟩ := e.replace_line hlen
  refine ⟨cmd, buf, hget, hlen, ?_, hbuf⟩
  rw [showRecalled, hget, Option.bind_eq_bind, Option.bind_some]
  exact hreplace

theorem Recalling.up (hr : hist.Records kept) (h : Recalling hist L d e) :
    ∃ e' : LineEditor 128, e.up hist = some e' ∧ Recalling hist L (Arrow.up.walk hist.count d) e' := by
  have hdepth := h.depth
  have hle := h.le
  unfold LineEditor.up
  by_cases hlt : d < hist.count
  · rw [if_pos (by omega), show Arrow.up.walk hist.count d = d + 1 from Nat.min_eq_left hlt]
    obtain ⟨e₁, hsave, hdepth₁, hdraft⟩ : ∃ e₁ : LineEditor 128,
        (if e.historyTempIdx = 0 then e.saveDraft else some e) = some e₁ ∧
        e₁.historyTempIdx = d ∧
        e₁.draftLen ≤ 128 ∧ e₁.draftBuf.toList.take e₁.draftLen = L := by
      by_cases hzero : d = 0
      · obtain ⟨draftBuf, hsave, hline⟩ := saveDraft_line h.room
        exact ⟨_, (if_pos (hdepth.trans hzero)).trans hsave, hdepth, h.room,
          hline.trans (h.zero hzero)⟩
      · exact ⟨e, if_neg (by omega), hdepth, h.draft (by omega)⟩
    rw [hsave, Option.bind_some, hdepth₁]
    obtain ⟨cmd, buf, hget, hlen, hrecall, hbuf⟩ :=
      recall_shows (e := { e₁ with historyTempIdx := d + 1 }) hr (Nat.succ_pos d) hlt
    refine ⟨_, hrecall, rfl, hlt, hlen, fun h0 => by omega, fun _ => ?_, fun _ => hdraft⟩
    rw [hget, line, hbuf]
  · rw [if_neg (by omega), show Arrow.up.walk hist.count d = d by simp [Arrow.walk]; omega]
    exact ⟨e, rfl, h⟩

theorem Recalling.down (hr : hist.Records kept) (h : Recalling hist L d e) :
    ∃ e' : LineEditor 128, e.down hist = some e' ∧ Recalling hist L (Arrow.down.walk hist.count d) e' := by
  have hdepth := h.depth
  have hle := h.le
  unfold LineEditor.down
  rw [show Arrow.down.walk hist.count d = d - 1 from rfl]
  by_cases hpos : 0 < d
  · rw [if_pos (by omega)]
    obtain ⟨hdraft, hline⟩ := h.draft hpos
    simp only [hdepth]
    by_cases hone : d - 1 = 0
    · have hlen : (e.draftBuf.toList.take e.draftLen).length = e.draftLen := by
        rw [List.length_take, Vector.length_toList, Nat.min_eq_left hdraft]
      obtain ⟨buf, hreplace, hbuf⟩ := replace_line { e with historyTempIdx := d - 1 }
        (hlen.trans_le hdraft)
      rw [if_pos hone, Lib.slice_of_le (Nat.zero_le _) hdraft, List.drop_zero, Option.bind_eq_bind,
        Option.bind_some]
      refine ⟨_, hreplace, rfl, by omega, hlen.trans_le hdraft, fun _ => ?_, fun h0 => by omega,
        fun h0 => by omega⟩
      rw [line, hbuf, hline]
    · obtain ⟨cmd, buf, hget, hlen, hrecall, hbuf⟩ :=
        recall_shows (e := { e with historyTempIdx := d - 1 }) hr (Nat.pos_of_ne_zero hone)
          (show d - 1 ≤ hist.count by omega)
      rw [if_neg hone]
      refine ⟨_, hrecall, rfl, by omega, hlen, fun h0 => by omega, fun _ => ?_,
        fun _ => ⟨hdraft, hline⟩⟩
      rw [hget, line, hbuf]
  · rw [if_neg (by omega), show d - 1 = d by omega]
    exact ⟨e, rfl, h⟩

structure Fitted (hist : History) (e : LineEditor 128) : Prop where
  room : e.n ≤ 128
  draft : e.draftLen ≤ 128
  depth : e.historyTempIdx ≤ hist.count

theorem Fitted.showRecalled (hr : hist.Records kept) (h : e.Fitted hist) (hd : 1 ≤ e.historyTempIdx) :
    ∃ e' : LineEditor 128, e.showRecalled hist = some e' ∧ e'.Fitted hist := by
  obtain ⟨cmd, buf, _, hlen, hrecall, _⟩ := recall_shows hr hd h.depth
  have h' : Fitted hist { e with buf := buf, n := cmd.length } := ⟨hlen, h.draft, h.depth⟩
  exact ⟨_, hrecall, h'⟩

theorem Fitted.up (hr : hist.Records kept) (h : e.Fitted hist) :
    ∃ e' : LineEditor 128, e.up hist = some e' ∧ e'.Fitted hist := by
  unfold LineEditor.up
  split
  · rename_i hlt
    split
    · rename_i hzero
      obtain ⟨draftBuf, hsave, _⟩ := saveDraft_line h.room
      have h' : Fitted hist { e with
          historyTempIdx := e.historyTempIdx + 1, draftBuf := draftBuf, draftLen := e.n } :=
        ⟨h.room, h.room, hlt.2⟩
      rw [hsave]
      exact h'.showRecalled hr (Nat.succ_pos _)
    · have h' : Fitted hist { e with historyTempIdx := e.historyTempIdx + 1 } :=
        ⟨h.room, h.draft, hlt.2⟩
      exact h'.showRecalled hr (Nat.succ_pos _)
  · exact ⟨e, rfl, h⟩

theorem Fitted.down (hr : hist.Records kept) (h : e.Fitted hist) :
    ∃ e' : LineEditor 128, e.down hist = some e' ∧ e'.Fitted hist := by
  have hdepth := h.depth
  unfold LineEditor.down
  split
  · have hle : e.historyTempIdx - 1 ≤ hist.count := by omega
    simp only
    split
    · have hlen : (e.draftBuf.toList.take e.draftLen).length = e.draftLen := by
        rw [List.length_take, Vector.length_toList, Nat.min_eq_left h.draft]
      obtain ⟨buf, hreplace, _⟩ := replace_line { e with historyTempIdx := e.historyTempIdx - 1 }
        (hlen.trans_le h.draft)
      rw [Lib.slice_of_le (Nat.zero_le _) h.draft, List.drop_zero, Option.bind_eq_bind,
        Option.bind_some]
      exact ⟨_, hreplace, hlen.trans_le h.draft, h.draft, hle⟩
    · rename_i hne
      have h' : Fitted hist { e with historyTempIdx := e.historyTempIdx - 1 } := ⟨h.room, h.draft, hle⟩
      exact h'.showRecalled hr (Nat.pos_of_ne_zero hne)
  · exact ⟨e, rfl, h⟩

theorem Fitted.backspace (h : e.Fitted hist) : e.backspace.Fitted hist := by
  have hroom := h.room
  unfold LineEditor.backspace
  split
  · exact ⟨show e.n - 1 ≤ 128 by omega, h.draft, h.depth⟩
  · exact h

theorem Fitted.insert (h : e.Fitted hist) (b : UInt8) :
    ∃ e' : LineEditor 128, e.insert b = some e' ∧ e'.Fitted hist := by
  unfold LineEditor.insert
  split
  · rename_i hlt
    rw [Lib.store, dif_pos hlt, Option.map_some]
    exact ⟨_, rfl, hlt, h.draft, Nat.zero_le _⟩
  · exact ⟨e, rfl, h⟩

/-- The editor does not panic, whatever is typed. -/
theorem Fitted.read (hr : hist.Records kept) (bytes : List UInt8) (h : e.Fitted hist) :
    ∃ r, read hist bytes e = some r ∧ r.editor.Fitted hist := by
  fun_induction LineEditor.read hist bytes e with
  | case1 | case2 | case4 | case5 => exact ⟨_, rfl, h⟩
  | case3 _ _ _ _ _ ih => exact ih h.backspace
  | case6 e rest _ _ ih =>
    obtain ⟨e', hstep, h'⟩ := h.up hr
    rw [hstep]
    exact ih e' h'
  | case7 e rest _ _ _ ih =>
    obtain ⟨e', hstep, h'⟩ := h.down hr
    rw [hstep]
    exact ih e' h'
  | case8 _ _ _ _ _ _ _ ih | case9 _ _ _ _ _ _ ih | case11 _ _ _ _ _ _ _ ih => exact ih h
  | case10 b rest e _ _ _ _ ih =>
    obtain ⟨e', hstep, h'⟩ := h.insert b
    rw [hstep]
    exact ih e' h'

def press (hist : History) (e : LineEditor 128) : Arrow → Option (LineEditor 128)
  | .up => e.up hist
  | .down => e.down hist

theorem read_press (hist : History) (key : Arrow) (rest : List UInt8) (e : LineEditor 128) :
    read hist (key.bytes ++ rest) e = (e.press hist key).bind (fun e => read hist rest e) := by
  cases key with
  | up => simp [read, Arrow.bytes, press]
  | down => simp [read, Arrow.bytes, press]

theorem Recalling.press (hr : hist.Records kept) (h : Recalling hist L d e) (key : Arrow) :
    ∃ e' : LineEditor 128, e.press hist key = some e' ∧
      Recalling hist L (key.walk hist.count d) e' := by
  cases key with
  | up => exact h.up hr
  | down => exact h.down hr

/-- Any sequence of arrow keys. -/
theorem Recalling.keys (hr : hist.Records kept) (keys : List Arrow) (h : Recalling hist L d e) :
    ∃ e', read hist (keys.flatMap Arrow.bytes) e = some (.waiting e') ∧
      Recalling hist L (keys.foldl (Arrow.walk hist.count) d) e' := by
  induction keys generalizing d e with
  | nil => exact ⟨e, rfl, h⟩
  | cons key keys ih =>
    obtain ⟨e₁, hstep, h₁⟩ := h.press hr key
    obtain ⟨e', hrun, h'⟩ := ih h₁
    refine ⟨e', ?_, h'⟩
    rw [List.flatMap_cons, read_press, hstep]
    exact hrun

end LineEditor

/-- History recall and line editing are faithful, for every sequence of commands. -/
theorem history_faithful (cmds : List (List UInt8)) (hcmds : ∀ cmd ∈ cmds, cmd.length ≤ 128) :
    ∃ hist, cmds.foldlM History.push History.new = some hist ∧
      (∀ d, hist.get d = some (if 1 ≤ d ∧ d ≤ min 16 (keptOf cmds).length
        then (keptOf cmds)[(keptOf cmds).length - d]? else none)) ∧
      (∀ (buf : Vector UInt8 128) (typed : List UInt8), ∃ r,
        LineEditor.read hist typed (.start buf) = some r ∧ r.editor.n ≤ 128) ∧
      ∀ (e : LineEditor 128) (keys : List Arrow), e.n ≤ 128 → e.historyTempIdx = 0 →
        ∃ e', LineEditor.read hist (keys.flatMap Arrow.bytes) e = some (.waiting e') ∧
          e'.historyTempIdx = keys.foldl (Arrow.walk hist.count) 0 ∧
          (e'.historyTempIdx = 0 → e'.line = e.line) ∧
          (0 < e'.historyTempIdx → hist.get e'.historyTempIdx = some (some e'.line)) := by
  obtain ⟨hist, hrun, hr⟩ := History.new_records.pushes hcmds
  rw [← keptOf_eq] at hr
  refine ⟨hist, hrun, hr.get, fun buf typed => ?_, fun e keys hroom hzero => ?_⟩
  · obtain ⟨r, hread, h⟩ := LineEditor.Fitted.read hr typed
      (e := .start buf) ⟨Nat.zero_le _, Nat.zero_le _, Nat.zero_le _⟩
    exact ⟨r, hread, h.room⟩
  · have h : LineEditor.Recalling hist e.line 0 e :=
      ⟨hzero, Nat.zero_le _, hroom, fun _ => rfl, fun h0 => absurd h0 (Nat.lt_irrefl 0),
        fun h0 => absurd h0 (Nat.lt_irrefl 0)⟩
    obtain ⟨e', hread, h'⟩ := h.keys hr keys
    exact ⟨e', hread, h'.depth, fun h0 => h'.zero (h'.depth ▸ h0), fun hpos => by
      rw [h'.depth]
      exact h'.recalled (h'.depth ▸ hpos)⟩

def perfTwice : List (List UInt8) := [[112, 101, 114, 102], [112, 101, 114, 102]]

/-- One command is kept; two presses of Up and one of Down come back to the line. -/
theorem history_faithful_perf : ∃ hist, perfTwice.foldlM History.push History.new = some hist ∧
    hist.get 1 = some (some [112, 101, 114, 102]) ∧ hist.get 2 = some none ∧
    ∃ e, LineEditor.read hist ([Arrow.up, .up, .down].flatMap Arrow.bytes)
      (.start (Vector.replicate 128 0)) = some (.waiting e) := by
  obtain ⟨hist, hrun, hget, _, hkeys⟩ := history_faithful perfTwice (by decide)
  have hkept : keptOf perfTwice = [[112, 101, 114, 102]] := by decide
  rw [hkept] at hget
  obtain ⟨e, hread, _⟩ := hkeys (.start (Vector.replicate 128 0)) [.up, .up, .down] (Nat.zero_le _) rfl
  exact ⟨hist, hrun, (hget 1).trans (by decide), (hget 2).trans (by decide), e, hread⟩

end Runix
