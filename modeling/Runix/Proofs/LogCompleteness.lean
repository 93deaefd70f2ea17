import Runix.Proofs.LogReads

namespace Runix

namespace LogState

structure Unread (state : LogState) (r : Fin maxTasks) (kind : UInt8) (p : Nat) : Prop where
  ahead : state.cursors r ≤ p
  written : p < state.log.writePos
  kept : state.log.writePos ≤ p + logCapacity
  kind : (state.log.buffer (Fin.ofNat logCapacity p)).kind = kind

def Shielded (state : LogState) (r : Fin maxTasks) (kind other : UInt8) : Prop :=
  ∀ p, state.Unread r kind p → ∃ i, state.start (state.cursors r) ≤ i ∧ i < p ∧
    (state.log.buffer (Fin.ofNat logCapacity i)).kind = other

variable {state : LogState} {r : Fin maxTasks} {kind other : UInt8} {p : Nat}

theorem Unread.start_le (h : state.Unread r kind p) : state.start (state.cursors r) ≤ p := by
  have hahead := h.ahead
  have hkept := h.kept
  rw [start_eq]
  omega

/-- A read of the kind finds something, at the latest the entry itself. -/
theorem Unread.next (h : state.Unread r kind p) :
    ∃ idx entry, state.next r kind = some (idx, entry) ∧ idx ≤ p := by
  cases hnext : state.next r kind with
  | none => exact absurd h.kind (next_none hnext h.start_le h.written)
  | some found =>
    obtain ⟨idx, entry⟩ := found
    refine ⟨idx, entry, rfl, ?_⟩
    by_contra hgt
    exact (next_some hnext).2.2.2.2 p h.start_le (Nat.lt_of_not_le hgt) h.kind

/-- Moving the reader keeps the entry unread exactly if it does not pass it. -/
theorem Unread.moveTo (h : state.Unread r kind p) (cursor : Nat) :
    (state.moveTo r cursor).Unread r kind p ↔ cursor ≤ p := by
  constructor
  · intro h'
    have hahead := h'.ahead
    rwa [moveTo_cursors, if_pos rfl] at hahead
  · intro hle
    refine ⟨?_, h.written, h.kept, h.kind⟩
    rw [moveTo_cursors, if_pos rfl]
    exact hle

end LogState

section
variable {s : Scheduler} {ticks : UInt64} {state state' : LogState} {msg : Message}
  {reply : List UInt8} {r : Fin maxTasks} {kind other : UInt8} {p : Nat}

/-- What a permitted read of a kind does. -/
theorem LogEffect.read_cases (h : LogEffect s ticks state msg state' reply)
    (hsender : msg.sender = r.val) (hasks : msg.LogAsks .logRead other)
    (hmay : s.checkLogSenderCap msg.sender other false = true) :
    (∃ idx entry, state.next r other = some (idx, entry) ∧ state' = state.moveTo r (idx + 1) ∧
      reply = entry.encoding) ∨
    (state.next r other = none ∧ state' = state.moveTo r state.log.writePos) := by
  cases h with
  | refused _ hno => exact absurd ⟨_, .inr ⟨hasks, hmay⟩⟩ hno
  | published asks => cases asks.1.symm.trans hasks.1
  | @found kind' idx entry r' asks _ reader next =>
    cases asks.2.2.1.symm.trans hasks.2.2.1
    obtain rfl : r = r' := Fin.ext (hsender.symm.trans reader)
    exact .inl ⟨idx, entry, next, rfl, rfl⟩
  | @empty kind' r' asks _ reader next =>
    cases asks.2.2.1.symm.trans hasks.2.2.1
    obtain rfl : r = r' := Fin.ext (hsender.symm.trans reader)
    exact .inr ⟨next, rfl⟩

/-- A read of another kind keeps what is unread exactly if all of it is shielded. -/
theorem LogEffect.unread_iff (h : LogEffect s ticks state msg state' reply)
    (hsender : msg.sender = r.val) (hasks : msg.LogAsks .logRead other)
    (hmay : s.checkLogSenderCap msg.sender other false = true) :
    (∀ p, state.Unread r kind p → state'.Unread r kind p) ↔ state.Shielded r kind other := by
  rcases h.read_cases hsender hasks hmay with ⟨idx, entry, hnext, rfl, _⟩ | ⟨hnext, rfl⟩
  · obtain ⟨hstart, _, hentry, hkind, hfirst⟩ := LogState.next_some hnext
    constructor
    · intro hkeep p hp
      have hle := (hp.moveTo (idx + 1)).mp (hkeep p hp)
      exact ⟨idx, hstart, by omega, by rw [← hentry, hkind]⟩
    · intro hshield p hp
      obtain ⟨i, hi, hip, hik⟩ := hshield p hp
      have hle : idx ≤ i := by
        by_contra hlt
        exact hfirst i hi (Nat.lt_of_not_le hlt) hik
      exact (hp.moveTo (idx + 1)).mpr (by omega)
  · constructor
    · intro hkeep p hp
      have hle := (hp.moveTo state.log.writePos).mp (hkeep p hp)
      have hwritten := hp.written
      omega
    · intro hshield p hp
      obtain ⟨i, hi, hip, hik⟩ := hshield p hp
      have hwritten := hp.written
      exact absurd hik (LogState.next_none hnext hi (by omega))

end

/-- The reader has the right to read the kind, and its reads of other kinds do not
pass over unread entries of it. -/
structure Entitled (r : Fin maxTasks) (kind : UInt8) (state : LogState) (e : LogExchange) :
    Prop where
  may : e.msg.sender = r.val → e.msg.LogAsks .logRead kind →
    e.sched.checkLogSenderCap e.msg.sender kind false = true
  others : ∀ other, other ≠ kind → e.msg.sender = r.val → e.msg.LogAsks .logRead other →
    e.sched.checkLogSenderCap e.msg.sender other false = true → state.Shielded r kind other

def LogExchange.ReadsAs (r : Fin maxTasks) (kind : UInt8) (e : LogExchange) : Prop :=
  e.msg.sender = r.val ∧ e.msg.LogAsks .logRead kind

instance (r : Fin maxTasks) (kind : UInt8) (e : LogExchange) : Decidable (e.ReadsAs r kind) :=
  inferInstanceAs (Decidable (_ ∧ _))

namespace LogState
variable {state state' : LogState} {r r' : Fin maxTasks} {kind : UInt8} {p : Nat}

def lag (state : LogState) (r : Fin maxTasks) (p : Nat) : Nat :=
  p + 1 - state.start (state.cursors r)

/-- Another reader's progress is none of this reader's. -/
theorem Unread.moveTo_other (h : state.Unread r kind p) (hr : r ≠ r') (cursor : Nat) :
    (state.moveTo r' cursor).Unread r kind p ∧ (state.moveTo r' cursor).lag r p = state.lag r p := by
  have hsame : (state.moveTo r' cursor).cursors r = state.cursors r := by
    rw [moveTo_cursors, if_neg hr]
  refine ⟨⟨hsame.symm ▸ h.ahead, h.written, h.kept, h.kind⟩, ?_⟩
  unfold lag
  rw [hsame]
  rfl

/-- A publication overwrites the entry or leaves it unread. -/
theorem Unread.append (h : state.Unread r kind p) (entry : LogEntry) :
    p + logCapacity < (state.append entry).log.writePos ∨
      ((state.append entry).Unread r kind p ∧ (state.append entry).lag r p ≤ state.lag r p) := by
  have hwritten := h.written
  by_cases hover : p + logCapacity < state.log.writePos + 1
  · exact .inl hover
  · refine .inr ⟨⟨h.ahead, Nat.lt_succ_of_lt hwritten, Nat.le_of_not_lt hover, ?_⟩, ?_⟩
    · have hslot := Lib.slot_ne (n := logCapacity) hwritten (by omega)
      change (Function.update state.log.buffer _ entry (Fin.ofNat logCapacity p)).kind = kind
      rw [Function.update_of_ne hslot]
      exact h.kind
    · have hstart : state.start (state.cursors r) ≤ (state.append entry).start (state.cursors r) := by
        rw [start_eq, start_eq]
        change _ ≤ max (state.cursors r) (state.log.writePos + 1 - logCapacity)
        omega
      exact Nat.sub_le_sub_left hstart (p + 1)

end LogState

section
variable {state state' : LogState} {e : LogExchange} {r : Fin maxTasks} {kind : UInt8} {p : Nat}

/-- One round on an unread entry: it is returned, or overwritten, or it stays
unread; and then a read of its kind brings the reader closer. -/
theorem LogStep.unread (h : LogStep state e state') (hg : Entitled r kind state e)
    (hu : state.Unread r kind p) :
    (e.ReadsAs r kind ∧ ∃ entry, state.next r kind = some (p, entry) ∧ e.reply = entry.encoding) ∨
    (state'.cursors r ≤ p ∧ p + logCapacity < state'.log.writePos) ∨
    (state'.Unread r kind p ∧ state'.lag r p + (if e.ReadsAs r kind then 1 else 0) ≤
      state.lag r p) := by
  have hstartle := hu.start_le
  have heffect := h.effect
  by_cases hreads : e.ReadsAs r kind
  · obtain ⟨idx, entry, hnext, hidx⟩ := hu.next
    rcases heffect.read_cases hreads.1 hreads.2 (hg.may hreads.1 hreads.2) with
      ⟨idx', entry', hnext', rfl, hreply⟩ | ⟨hnone, _⟩
    · cases hnext.symm.trans hnext'
      by_cases hp : idx = p
      · subst hp
        exact .inl ⟨hreads, entry, hnext, hreply⟩
      · refine .inr (.inr ⟨(hu.moveTo (idx + 1)).mpr (by omega), ?_⟩)
        have hstart := (LogState.next_some hnext).1
        have hle := (state.moveTo r (idx + 1)).le_start (idx + 1)
        unfold LogState.lag
        rw [LogState.moveTo_cursors, if_pos rfl, if_pos hreads]
        omega
    · cases hnext.symm.trans hnone
  · rw [if_neg hreads]
    have hown : ∀ {other cursor}, e.msg.LogAsks .logRead other →
        e.sched.checkLogSenderCap e.msg.sender other false = true → e.msg.sender = r.val →
        state' = state.moveTo r cursor → state.start (state.cursors r) ≤ cursor →
        state'.Unread r kind p ∧ state'.lag r p + 0 ≤ state.lag r p := by
      intro other cursor asks may sender hstate hcursor
      have hne : other ≠ kind := fun heq => hreads ⟨sender, heq ▸ asks⟩
      have hkeep := (heffect.unread_iff sender asks may).mpr (hg.others other hne sender asks may)
      refine ⟨hkeep p hu, ?_⟩
      have hle := (state.moveTo r cursor).le_start cursor
      unfold LogState.lag
      rw [hstate, LogState.moveTo_cursors, if_pos rfl]
      omega
    generalize e.reply = reply at heffect
    cases heffect with
    | refused => exact .inr (.inr ⟨hu, Nat.le_refl _⟩)
    | @published _ entry =>
      rcases hu.append entry with hover | hkeep
      · exact .inr (.inl ⟨hu.ahead, hover⟩)
      · exact .inr (.inr hkeep)
    | @found other idx entry r' asks may reader next =>
      by_cases hr : r = r'
      · subst hr
        have hstart := (LogState.next_some next).1
        exact .inr (.inr (hown asks may reader rfl (by omega)))
      · obtain ⟨hkeep, hlag⟩ := hu.moveTo_other hr (idx + 1)
        exact .inr (.inr ⟨hkeep, Nat.le_of_eq hlag⟩)
    | @empty other r' asks may reader next =>
      by_cases hr : r = r'
      · subst hr
        have hwritten := hu.written
        exact .inr (.inr (hown asks may reader rfl (by omega)))
      · obtain ⟨hkeep, hlag⟩ := hu.moveTo_other hr state.log.writePos
        exact .inr (.inr ⟨hkeep, Nat.le_of_eq hlag⟩)

def ReturnedIn (r : Fin maxTasks) (kind : UInt8) (p : Nat) (state : LogState)
    (as : List LogExchange) : Prop :=
  ∃ bs e cs t entry, as = bs ++ e :: cs ∧ Lib.Run LogStep state bs t ∧ e.ReadsAs r kind ∧
    t.next r kind = some (p, entry) ∧ e.reply = entry.encoding

def OverwrittenIn (r : Fin maxTasks) (p : Nat) (state : LogState) (as : List LogExchange) : Prop :=
  ∃ bs cs t, as = bs ++ cs ∧ Lib.Run LogStep state bs t ∧ t.cursors r ≤ p ∧
    p + logCapacity < t.log.writePos

theorem ReturnedIn.cons {as : List LogExchange} (hstep : LogStep state e state')
    (h : ReturnedIn r kind p state' as) : ReturnedIn r kind p state (e :: as) := by
  obtain ⟨bs, b, cs, t, entry, rfl, hrun, h⟩ := h
  exact ⟨e :: bs, b, cs, t, entry, rfl, .cons hstep hrun, h⟩

theorem OverwrittenIn.cons {as : List LogExchange} (hstep : LogStep state e state')
    (h : OverwrittenIn r p state' as) : OverwrittenIn r p state (e :: as) := by
  obtain ⟨bs, cs, t, rfl, hrun, h⟩ := h
  exact ⟨e :: bs, cs, t, rfl, .cons hstep hrun, h⟩

/-- A reader that asks often enough gets the entry, unless it is overwritten first. -/
theorem unread_run {as : List LogExchange}
    (hr : Lib.Run (Lib.Guarded (Entitled r kind) LogStep) state as state')
    (hu : state.Unread r kind p)
    (hlag : state.lag r p ≤ (as.filter (fun e => e.ReadsAs r kind)).length) :
    ReturnedIn r kind p state as ∨ OverwrittenIn r p state as := by
  induction hr with
  | nil state =>
    have hstart := hu.start_le
    simp only [List.filter_nil, List.length_nil, LogState.lag] at hlag
    omega
  | @cons s t u e as head _ ih =>
    rcases head.2.unread head.1 hu with ⟨hreads, entry, hnext, hreply⟩ | ⟨hahead, hover⟩ | ⟨hu', hle⟩
    · exact .inl ⟨[], e, as, s, entry, rfl, .nil s, hreads, hnext, hreply⟩
    · exact .inr ⟨[e], as, t, rfl, .cons head.2 (.nil t), hahead, hover⟩
    · have hlag' : t.lag r p ≤ (as.filter (fun e => e.ReadsAs r kind)).length := by
        by_cases hreads : e.ReadsAs r kind
        · rw [List.filter_cons_of_pos (by simpa using hreads), List.length_cons] at hlag
          rw [if_pos hreads] at hle
          omega
        · rw [List.filter_cons_of_neg (by simpa using hreads)] at hlag
          rw [if_neg hreads] at hle
          omega
      rcases ih hu' hlag' with hret | hover
      · exact .inl (hret.cons head.2)
      · exact .inr (hover.cons head.2)

end

/-- A fresh publication is unread by everybody, and not far ahead. -/
theorem LogStep.fresh {state state' : LogState} {e : LogExchange} (h : LogStep state e state')
    (hpub : e.Publishes) (hbehind : ∀ r, state.cursors r ≤ state.log.writePos)
    (r : Fin maxTasks) :
    state'.Unread r (e.msg.byte 0) state.log.writePos ∧
      state'.lag r state.log.writePos ≤ min logCapacity (state.log.writePos + 1 - state.cursors r) := by
  have heffect := h.effect
  rw [hpub.2] at heffect
  generalize hreply : ([0] : List UInt8) = reply at heffect
  cases heffect with
  | refused hcode =>
    cases hreply
    exact absurd rfl hcode
  | @published kind entry asks _ made =>
    obtain ⟨entry', hmade, hrecord, _⟩ := publishedEntry_spec e.ticks e.msg
    cases hmade.symm.trans made
    refine ⟨⟨hbehind r, Nat.lt_succ_self _, Nat.add_le_add_left (by decide) _, ?_⟩, ?_⟩
    · change (Function.update state.log.buffer _ entry
        (Fin.ofNat logCapacity state.log.writePos)).kind = _
      rw [Function.update_self]
      exact congrArg LogRecord.kind hrecord
    · have hwindow := (state.append entry).start_window (state.cursors r)
      have hstart := (state.append entry).le_start (state.cursors r)
      change state.log.writePos + 1 ≤ _ at hwindow
      change state.log.writePos + 1 - (state.append entry).start (state.cursors r) ≤ _
      omega
  | found asks => cases asks.1.symm.trans hpub.1
  | empty => cases hreply

/-- What is returned at the number of a publication is that publication. -/
theorem ReturnedIn.decodes {before after : List LogExchange} {state state' : LogState}
    {e : LogExchange} {r : Fin maxTasks} {kind : UInt8} (hr : Lib.Run LogStep .new before state)
    (hstep : LogStep state e state') (hpub : e.Publishes)
    (h : ReturnedIn r kind state.log.writePos state' after) :
    ∃ bs a cs t entry, after = bs ++ a :: cs ∧ Lib.Run LogStep state' bs t ∧ a.ReadsAs r kind ∧
      t.next r kind = some (state.log.writePos, entry) ∧
      decodeLogReply (padPayload a.reply) = some e.record := by
  obtain ⟨bs, a, cs, t, entry, rfl, hrun, hreads, hnext, hreply⟩ := h
  refine ⟨bs, a, cs, t, entry, rfl, hrun, hreads, hnext, ?_⟩
  have hinv := logInvariant_run (hr.append (.cons hstep hrun))
  obtain ⟨hstart, hlt, rfl, _⟩ := LogState.next_some hnext
  have hwindow := t.start_window (t.cursors r)
  obtain ⟨pub, hget, hentered⟩ := hinv.entered hlt (by omega)
  have hpubs : LogExchange.publications (before ++ e :: bs) =
      LogExchange.publications before ++ e :: LogExchange.publications bs := by
    unfold LogExchange.publications
    rw [List.filter_append, List.filter_cons_of_pos (by simpa using hpub)]
  have hlength := (logInvariant_run hr).length
  rw [hpubs, List.getElem?_append_right (Nat.le_of_eq hlength), hlength, Nat.sub_self] at hget
  cases hget
  rw [hreply]
  exact hentered.decodes hentered.sender_lt

/-- A reader misses nothing of a kind exactly as long as its reads of other kinds
pass over nothing of it. -/
theorem log_reader_complete (r : Fin maxTasks) (kind : UInt8) :
    (∀ state e state' other, LogStep state e state' → e.msg.sender = r.val →
      e.msg.LogAsks .logRead other →
      e.sched.checkLogSenderCap e.msg.sender other false = true → other ≠ kind →
      ((∀ p, state.Unread r kind p → state'.Unread r kind p) ↔
        state.Shielded r kind other)) ∧
    ∀ before state e state' after state'', Lib.Run LogStep .new before state →
      LogStep state e state' → e.Publishes → e.msg.byte 0 = kind →
      Lib.Run (Lib.Guarded (Entitled r kind) LogStep) state' after state'' →
      min logCapacity (state.log.writePos + 1 - state.cursors r) ≤
        (after.filter (fun a => a.ReadsAs r kind)).length →
      (∃ bs a cs t entry, after = bs ++ a :: cs ∧ Lib.Run LogStep state' bs t ∧
        a.ReadsAs r kind ∧ t.next r kind = some (state.log.writePos, entry) ∧
        decodeLogReply (padPayload a.reply) = some e.record) ∨
      OverwrittenIn r state.log.writePos state' after := by
  constructor
  · intro state e state' other hstep hsender hasks hmay _
    exact hstep.effect.unread_iff hsender hasks hmay
  · intro before state e state' after state'' hr hstep hpub hkind hafter hcount
    obtain ⟨hfresh, hlag⟩ := hstep.fresh hpub (logInvariant_run hr).behind r
    rw [hkind] at hfresh
    rcases unread_run hafter hfresh (Nat.le_trans hlag hcount) with hret | hover
    · exact .inl (hret.decodes hr hstep hpub)
    · exact .inr hover

def reader : Fin maxTasks := ⟨2, by decide⟩

/-- The reader asks once for the kind of the only entry. -/
theorem log_reader_complete_greeting : ∃ s₁ s₂,
    LogStep .new (logExchange 1 .logPublish [1, 104, 105] [0]) s₁ ∧
    Lib.Run (Lib.Guarded (Entitled reader 1) LogStep) s₁
      [logExchange 2 .logRead [1] greetingReply] s₂ ∧
    ((∃ bs a cs t entry, [logExchange 2 .logRead [1] greetingReply] = bs ++ a :: cs ∧
        Lib.Run LogStep s₁ bs t ∧ a.ReadsAs reader 1 ∧ t.next reader 1 = some (0, entry) ∧
        decodeLogReply (padPayload a.reply) =
          some (logExchange 1 .logPublish [1, 104, 105] [0]).record) ∨
      OverwrittenIn reader 0 s₁ [logExchange 2 .logRead [1] greetingReply]) := by
  obtain ⟨s₁, s₂, h₁, h₂⟩ : ∃ s₁ s₂,
      LogStep .new (logExchange 1 .logPublish [1, 104, 105] [0]) s₁ ∧
      LogStep s₁ (logExchange 2 .logRead [1] greetingReply) s₂ :=
    ⟨_, _, ⟨_, _, rfl⟩, ⟨_, _, rfl⟩⟩
  have hentitled : Entitled reader 1 s₁ (logExchange 2 .logRead [1] greetingReply) :=
    ⟨fun _ _ => by decide, fun other hne _ hasks => absurd hasks.2.2.1.symm hne⟩
  have hafter : Lib.Run (Lib.Guarded (Entitled reader 1) LogStep) s₁
      [logExchange 2 .logRead [1] greetingReply] s₂ := .cons ⟨hentitled, h₂⟩ (.nil _)
  exact ⟨s₁, s₂, h₁, hafter, (log_reader_complete reader 1).2 [] .new _ s₁ _ s₂
    (.nil _) h₁ (by decide) (by decide) hafter (by decide)⟩

/-- The reader asks for another kind first. It is told that there is nothing, and
from then on the entry is passed: there is nothing of its own kind either. -/
theorem unread_entry_skipped : ∃ s₁ s₂ s₃,
    LogStep .new (logExchange 1 .logPublish [1, 104, 105] [0]) s₁ ∧ s₁.Unread reader 1 0 ∧
    LogStep s₁ (logExchange 2 .logRead [2] [2]) s₂ ∧ ¬ s₂.Unread reader 1 0 ∧
    LogStep s₂ (logExchange 2 .logRead [1] [2]) s₃ ∧
    s₃.cursors reader = 1 ∧ s₃.log.writePos = 1 := by
  refine ⟨_, _, _, ⟨_, _, rfl⟩, ⟨by decide, by decide, by decide, rfl⟩, ⟨_, _, rfl⟩, ?_, ⟨_, _, rfl⟩,
    rfl, rfl⟩
  intro h
  exact absurd h.ahead (by decide)

end Runix
