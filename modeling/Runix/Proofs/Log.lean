import Runix.Lib.Run
import Runix.Proofs.Replies
import Runix.Service.Log

namespace Runix

def LogEntry.record (entry : LogEntry) : LogRecord :=
  ⟨entry.tick.toNat, entry.producer, entry.kind, entry.msg.toList.take entry.len⟩

def Message.logRecord (ticks : UInt64) (msg : Message) : LogRecord :=
  ⟨ticks.toNat, msg.sender, msg.byte 0,
    (msg.payload.toList.take (1 + min (msg.len - 1) 64)).drop 1⟩

def LogEntry.encoding (entry : LogEntry) : List UInt8 :=
  [0] ++ Lib.leBytes 8 entry.tick.toNat ++ Lib.leBytes 8 entry.producer ++ [entry.kind] ++
    Lib.leBytes 8 entry.len ++ entry.msg.toList

theorem LogEntry.length_encoding (entry : LogEntry) : entry.encoding.length = 90 := by
  simp [encoding]

theorem publishedEntry_spec (ticks : UInt64) (msg : Message) :
    ∃ entry, publishedEntry ticks msg = some entry ∧ entry.record = msg.logRecord ticks ∧
      entry.len ≤ 64 := by
  have hle : 1 + min (msg.len - 1) 64 ≤ 128 := by omega
  have hslice := Lib.slice_of_le (v := msg.payload) (Nat.le_add_right 1 (min (msg.len - 1) 64)) hle
  obtain ⟨hlen, _⟩ := Lib.slice_length hslice
  have hnil : Lib.Begins LogEntry.new.msg [] := rfl
  obtain ⟨buffer, hcopy, hbegins⟩ := hnil.copySlice 0 (min (msg.len - 1) 64)
    ((msg.payload.toList.take (1 + min (msg.len - 1) 64)).drop 1) rfl
    (by rw [hlen, List.length_nil]; omega) (Nat.min_le_right _ _)
  refine ⟨⟨ticks, msg.sender, msg.byte 0, buffer, min (msg.len - 1) 64⟩, ?_, ?_,
    Nat.min_le_right _ _⟩
  · simp only [publishedEntry, hslice, Option.bind_eq_bind, Option.bind_some, hcopy]
  · have htake : buffer.toList.take (min (msg.len - 1) 64) =
        (msg.payload.toList.take (1 + min (msg.len - 1) 64)).drop 1 := by
      have hb : buffer.toList.take _ = _ := hbegins
      rw [List.nil_append, hlen, Nat.add_sub_cancel_left] at hb
      exact hb
    simp only [LogEntry.record, Message.logRecord, htake]

theorem entryReply_spec (entry : LogEntry) :
    ∃ reply, entryReply entry = some reply ∧ Lib.Begins reply entry.encoding := by
  obtain ⟨r₁, h₁, b₁⟩ := (statusReply_begins 0).copySlice 1 9
    (Lib.leBytes 8 entry.tick.toNat) rfl (by simp) (by decide)
  obtain ⟨r₂, h₂, b₂⟩ := b₁.copySlice 9 17 (Lib.leBytes 8 entry.producer)
    (by simp) (by simp) (by decide)
  obtain ⟨r₃, h₃, b₃⟩ := b₂.store 17 entry.kind (by simp) (by decide)
  obtain ⟨r₄, h₄, b₄⟩ := b₃.copySlice 18 26 (Lib.leBytes 8 entry.len)
    (by simp) (by simp) (by decide)
  obtain ⟨r₅, h₅, b₅⟩ := b₄.copySlice 26 90 (entry.msg.toList)
    (by simp) (by simp) (by decide)
  refine ⟨r₅, ?_, b₅⟩
  rw [entryReply, h₁, Option.bind_eq_bind, Option.bind_some, h₂, Option.bind_some, h₃,
    Option.bind_some, h₄, Option.bind_some, h₅]

/-- The console reads an entry back as it is. -/
theorem decode_encoding {payload : Vector UInt8 128} {entry : LogEntry}
    (h : Lib.Begins payload entry.encoding) (hproducer : entry.producer < 2 ^ 64)
    (hlen : entry.len ≤ 64) : decodeLogReply payload = some entry.record := by
  have htick : Lib.slice payload 1 9 = some (Lib.leBytes 8 entry.tick.toNat) := by
    have hsplit : entry.encoding = [0] ++ Lib.leBytes 8 entry.tick.toNat ++
        (Lib.leBytes 8 entry.producer ++ [entry.kind] ++ Lib.leBytes 8 entry.len ++
          entry.msg.toList) := by
      simp [LogEntry.encoding]
    rw [hsplit] at h
    exact h.slice rfl (by simp) (by decide)
  have hprod : Lib.slice payload 9 17 = some (Lib.leBytes 8 entry.producer) := by
    have hsplit : entry.encoding = ([0] ++ Lib.leBytes 8 entry.tick.toNat) ++
        Lib.leBytes 8 entry.producer ++
          ([entry.kind] ++ Lib.leBytes 8 entry.len ++ entry.msg.toList) := by
      simp [LogEntry.encoding]
    rw [hsplit] at h
    exact h.slice (by simp) (by simp) (by decide)
  have hkind : payload[17]? = some entry.kind := by
    have hsplit : entry.encoding = ([0] ++ Lib.leBytes 8 entry.tick.toNat ++
        Lib.leBytes 8 entry.producer) ++ entry.kind ::
          (Lib.leBytes 8 entry.len ++ entry.msg.toList) := by
      simp [LogEntry.encoding]
    rw [hsplit] at h
    exact h.getElem? (by simp) (by decide)
  have hsize : Lib.slice payload 18 26 = some (Lib.leBytes 8 entry.len) := by
    have hsplit : entry.encoding = ([0] ++ Lib.leBytes 8 entry.tick.toNat ++
        Lib.leBytes 8 entry.producer ++ [entry.kind]) ++ Lib.leBytes 8 entry.len ++
          entry.msg.toList := by
      simp [LogEntry.encoding]
    rw [hsplit] at h
    exact h.slice (by simp) (by simp) (by decide)
  have hbytes : Lib.slice payload 26 (26 + entry.len) = some (entry.msg.toList.take entry.len) := by
    have hsplit : entry.encoding = ([0] ++ Lib.leBytes 8 entry.tick.toNat ++
        Lib.leBytes 8 entry.producer ++ [entry.kind] ++ Lib.leBytes 8 entry.len) ++
          entry.msg.toList.take entry.len ++ entry.msg.toList.drop entry.len := by
      simp [LogEntry.encoding]
    rw [hsplit] at h
    exact h.slice (by simp) (by simp; omega) (by omega)
  have hroundTick := Lib.ofLeBytes_leBytes (k := 8) entry.tick.toNat_lt
  have hroundProducer := Lib.ofLeBytes_leBytes (k := 8) hproducer
  have hroundLen := Lib.ofLeBytes_leBytes (k := 8) (x := entry.len) (by omega)
  simp only [decodeLogReply, Option.bind_eq_bind, htick, hprod, hsize, Option.bind_some, hroundTick,
    hroundProducer, hroundLen, hbytes, hkind, Option.getD_some, LogEntry.record]

def Message.LogAsks (msg : Message) (tag : IpcTag) (kind : UInt8) : Prop :=
  msg.tag = tag ∧ 1 ≤ msg.len ∧ msg.byte 0 = kind ∧ kind.toNat < 16

instance (msg : Message) (tag : IpcTag) (kind : UInt8) : Decidable (msg.LogAsks tag kind) :=
  inferInstanceAs (Decidable (_ ∧ _ ∧ _ ∧ _))

def LogAccepted (s : Scheduler) (msg : Message) : Prop :=
  ∃ kind, (msg.LogAsks .logPublish kind ∧ s.checkLogSenderCap msg.sender kind true = true) ∨
    (msg.LogAsks .logRead kind ∧ s.checkLogSenderCap msg.sender kind false = true)

namespace LogState

def next (state : LogState) (r : Fin maxTasks) (kind : UInt8) : Option (Nat × LogEntry) :=
  state.log.find kind (state.start (state.cursors r))

theorem next_some {state : LogState} {r : Fin maxTasks} {kind : UInt8} {idx : Nat}
    {entry : LogEntry} (h : state.next r kind = some (idx, entry)) :
    state.start (state.cursors r) ≤ idx ∧ idx < state.log.writePos ∧
      entry = state.log.buffer (Fin.ofNat logCapacity idx) ∧ entry.kind = kind ∧
      ∀ j, state.start (state.cursors r) ≤ j → j < idx →
        (state.log.buffer (Fin.ofNat logCapacity j)).kind ≠ kind := by
  unfold next LogRingBuffer.find at h
  obtain ⟨hle, hlt, hentry, hkind, hbefore⟩ := Lib.scan_some h
  refine ⟨hle, hlt, hentry, beq_iff_eq.mp hkind, fun j hj hji => ?_⟩
  exact beq_eq_false_iff_ne.mp (hbefore j hj hji)

theorem next_none {state : LogState} {r : Fin maxTasks} {kind : UInt8}
    (h : state.next r kind = none) {j : Nat} (hj : state.start (state.cursors r) ≤ j)
    (hlt : j < state.log.writePos) :
    (state.log.buffer (Fin.ofNat logCapacity j)).kind ≠ kind := by
  unfold next LogRingBuffer.find at h
  exact beq_eq_false_iff_ne.mp (Lib.scan_none h hj hlt)

def moveTo (state : LogState) (r : Fin maxTasks) (cursor : Nat) : LogState :=
  { state with cursors := Function.update state.cursors r cursor }

def append (state : LogState) (entry : LogEntry) : LogState :=
  { state with log :=
    ⟨Function.update state.log.buffer (Fin.ofNat logCapacity state.log.writePos) entry,
      state.log.writePos + 1⟩ }

end LogState

inductive LogEffect (s : Scheduler) (ticks : UInt64) (state : LogState) (msg : Message) :
    LogState → List UInt8 → Prop where
  | refused {code : UInt8} (hcode : code ≠ 0) (hno : ¬ LogAccepted s msg) :
      LogEffect s ticks state msg state [code]
  | published {kind : UInt8} {entry : LogEntry} (asks : msg.LogAsks .logPublish kind)
      (may : s.checkLogSenderCap msg.sender kind true = true)
      (made : publishedEntry ticks msg = some entry) (room : state.log.writePos + 1 < 2 ^ 64) :
      LogEffect s ticks state msg (state.append entry) [0]
  | found {kind : UInt8} {idx : Nat} {entry : LogEntry} {r : Fin maxTasks}
      (asks : msg.LogAsks .logRead kind) (may : s.checkLogSenderCap msg.sender kind false = true)
      (reader : msg.sender = r) (next : state.next r kind = some (idx, entry)) :
      LogEffect s ticks state msg (state.moveTo r (idx + 1)) entry.encoding
  | empty {kind : UInt8} {r : Fin maxTasks} (asks : msg.LogAsks .logRead kind)
      (may : s.checkLogSenderCap msg.sender kind false = true) (reader : msg.sender = r)
      (next : state.next r kind = none) :
      LogEffect s ticks state msg (state.moveTo r state.log.writePos) [2]

section
variable {s : Scheduler} {ticks : UInt64} {state : LogState} {msg : Message} {a : Answer LogState}
  {kind : UInt8} {reply : List UInt8}

theorem publish_effect (hasks : msg.LogAsks .logPublish kind)
    (hmay : s.checkLogSenderCap msg.sender kind true = true)
    (h : state.publish ticks msg = some a) (hreply : a.bytes = some reply) :
    LogEffect s ticks state msg a.store reply := by
  obtain ⟨entry, hentry, h⟩ := Option.bind_eq_some_iff.mp h
  obtain ⟨log, hlog, h⟩ := Option.bind_eq_some_iff.mp h
  obtain ⟨writePos, hpos, rfl⟩ := Option.map_eq_some_iff.mp hlog
  obtain ⟨rfl, hroom⟩ := addU64_some hpos
  cases h
  cases hreply.symm.trans (Answer.bytes_status _ 0)
  exact .published hasks hmay hentry hroom

theorem read_effect (hasks : msg.LogAsks .logRead kind)
    (hmay : s.checkLogSenderCap msg.sender kind false = true)
    (h : state.read msg.sender kind = some a) (hreply : a.bytes = some reply) :
    LogEffect s ticks state msg a.store reply := by
  obtain ⟨cursor, hcursor, h⟩ := Option.bind_eq_some_iff.mp h
  obtain ⟨hlt, rfl⟩ := Lib.index_some hcursor
  cases hfind : state.log.find kind (state.start (state.cursors ⟨msg.sender, hlt⟩)) with
  | some found =>
    obtain ⟨idx, entry⟩ := found
    simp only [hfind] at h
    obtain ⟨next, hnext, h⟩ := Option.bind_eq_some_iff.mp h
    obtain ⟨rfl, _⟩ := addU64_some hnext
    rw [Lib.assign_of_lt hlt, Option.bind_eq_bind, Option.bind_some] at h
    obtain ⟨buffer, hbuffer, h⟩ := Option.bind_eq_some_iff.mp h
    cases h
    obtain ⟨buffer', hspec, hbegins⟩ := entryReply_spec entry
    cases hspec.symm.trans hbuffer
    have hbytes : Lib.slice buffer 0 90 = some entry.encoding := by
      have hb := Lib.begins_slice hbegins (by rw [entry.length_encoding]; decide)
      rwa [entry.length_encoding] at hb
    cases hreply.symm.trans hbytes
    exact .found hasks hmay rfl hfind
  | none =>
    simp only [hfind, Lib.assign_of_lt hlt, Option.bind_eq_bind, Option.bind_some] at h
    cases h
    cases hreply.symm.trans (Answer.bytes_status _ 2)
    exact .empty hasks hmay rfl hfind

/-- A message of another kind, too short, or of an unknown kind asks for nothing. -/
theorem not_accepted (h : ∀ tag kind, (tag = .logPublish ∨ tag = .logRead) → ¬ msg.LogAsks tag kind) :
    ¬ LogAccepted s msg := by
  rintro ⟨kind, ⟨hasks, _⟩ | ⟨hasks, _⟩⟩
  · exact h _ kind (.inl rfl) hasks
  · exact h _ kind (.inr rfl) hasks

/-- A request for which the sender lacks the capability. -/
theorem not_accepted_of_denied {tag : IpcTag} {w : Bool} (hasks : msg.LogAsks tag kind)
    (hw : (tag = .logPublish ∧ w = true) ∨ (tag = .logRead ∧ w = false))
    (hno : s.checkLogSenderCap msg.sender kind w = false) : ¬ LogAccepted s msg := by
  rintro ⟨kind', ⟨hasks', hmay⟩ | ⟨hasks', hmay⟩⟩
  · cases hasks.2.2.1.symm.trans hasks'.2.2.1
    rcases hw with ⟨rfl, rfl⟩ | ⟨rfl, rfl⟩
    · cases hno.symm.trans hmay
    · cases hasks.1.symm.trans hasks'.1
  · cases hasks.2.2.1.symm.trans hasks'.2.2.1
    rcases hw with ⟨rfl, rfl⟩ | ⟨rfl, rfl⟩
    · cases hasks.1.symm.trans hasks'.1
    · cases hno.symm.trans hmay

/-- A refusal is a status and nothing else. -/
theorem refused_effect {code : UInt8} (hcode : code ≠ 0) (hno : ¬ LogAccepted s msg)
    (h : some (.status state code) = some a) (hreply : a.bytes = some reply) :
    LogEffect s ticks state msg a.store reply := by
  cases h
  cases hreply.symm.trans (Answer.bytes_status _ code)
  exact .refused hcode hno

/-- The checks that publications and reads share: `short` is the status for an
empty message, `w` the access they ask for and `body` what is done after them. -/
theorem checked_effect {tag : IpcTag} {w : Bool} {short : UInt8} {body : Option (Answer LogState)}
    (htag : msg.tag = tag) (hw : (tag = .logPublish ∧ w = true) ∨ (tag = .logRead ∧ w = false))
    (hshort : short ≠ 0)
    (h : (if msg.len < 1 then some (.status state short)
      else if (msg.byte 0).toNat ≥ 16 then some (.status state 3)
      else if !s.checkLogSenderCap msg.sender (msg.byte 0) w then some (.status state 1)
      else body) = some a)
    (hreply : a.bytes = some reply)
    (hbody : msg.LogAsks tag (msg.byte 0) →
      s.checkLogSenderCap msg.sender (msg.byte 0) w = true → body = some a →
        LogEffect s ticks state msg a.store reply) :
    LogEffect s ticks state msg a.store reply := by
  by_cases hlen : msg.len < 1
  · rw [if_pos hlen] at h
    refine refused_effect hshort (not_accepted (fun _ _ _ hasks => ?_)) h hreply
    exact absurd hasks.2.1 (by omega)
  rw [if_neg hlen] at h
  by_cases hkind : (msg.byte 0).toNat ≥ 16
  · rw [if_pos hkind] at h
    refine refused_effect (by decide) (not_accepted (fun _ _ _ hasks => ?_)) h hreply
    have hlt := hasks.2.2.2
    rw [← hasks.2.2.1] at hlt
    omega
  rw [if_neg hkind] at h
  have hasks : msg.LogAsks tag (msg.byte 0) := ⟨htag, by omega, rfl, by omega⟩
  cases hmay : s.checkLogSenderCap msg.sender (msg.byte 0) w with
  | true =>
    rw [hmay] at h
    exact hbody hasks hmay h
  | false =>
    rw [hmay] at h
    exact refused_effect (by decide) (not_accepted_of_denied hasks hw hmay) h hreply

theorem logService_effect (h : logService s ticks state msg = some a)
    (hreply : a.bytes = some reply) : LogEffect s ticks state msg a.store reply := by
  unfold logService at h
  split at h
  · rename_i htag
    exact checked_effect htag (.inl ⟨rfl, rfl⟩) (by decide) h hreply
      (fun hasks hmay h => publish_effect hasks hmay h hreply)
  · rename_i htag
    exact checked_effect htag (.inr ⟨rfl, rfl⟩) (by decide) h hreply
      (fun hasks hmay h => read_effect hasks hmay h hreply)
  · rename_i hpublish hread
    refine refused_effect (by decide) (not_accepted ?_) h hreply
    rintro tag kind (rfl | rfl) hasks
    · exact hpublish hasks.1
    · exact hread hasks.1

end

/-- One round of the service: the scheduler and the tick count it is served in, the
message and the reply. -/
structure LogExchange where
  sched : Scheduler
  ticks : UInt64
  call : Nat
  msg : Message
  reply : List UInt8

def LogStep (state : LogState) (e : LogExchange) (state' : LogState) : Prop :=
  ∃ sched' sent, logServiceMain e.sched e.ticks state e.call e.msg =
    some ⟨sched', state', e.reply, sent⟩

theorem LogStep.effect {state state' : LogState} {e : LogExchange} (h : LogStep state e state') :
    LogEffect e.sched e.ticks state e.msg state' e.reply := by
  obtain ⟨sched', sent, h⟩ := h
  obtain ⟨a, ha, h⟩ := Option.bind_eq_some_iff.mp h
  obtain ⟨hstore, hbytes⟩ := Scheduler.answer_some h
  change a.store = state' at hstore
  subst hstore
  exact logService_effect ha hbytes

namespace LogExchange

def Publishes (e : LogExchange) : Prop := e.msg.tag = .logPublish ∧ e.reply = [0]

instance (e : LogExchange) : Decidable e.Publishes := inferInstanceAs (Decidable (_ ∧ _))

def Returns (e : LogExchange) (kind : UInt8) : Prop :=
  e.msg.LogAsks .logRead kind ∧ e.reply.head? = some 0

instance (e : LogExchange) (kind : UInt8) : Decidable (e.Returns kind) :=
  inferInstanceAs (Decidable (_ ∧ _))

def record (e : LogExchange) : LogRecord := e.msg.logRecord e.ticks

/-- The publications among the rounds, in order: the index of an entry is its
place in this list. -/
def publications (as : List LogExchange) : List LogExchange := as.filter (fun e => e.Publishes)

theorem publications_snoc (as : List LogExchange) (e : LogExchange) :
    publications (as ++ [e]) = if e.Publishes then publications as ++ [e] else publications as := by
  unfold publications
  rw [List.filter_append]
  by_cases h : e.Publishes
  · simp [h]
  · simp [h]

end LogExchange

structure Entered (e : LogExchange) (entry : LogEntry) : Prop where
  made : publishedEntry e.ticks e.msg = some entry
  asks : e.msg.LogAsks .logPublish entry.kind
  may : e.sched.checkLogSenderCap e.msg.sender entry.kind true = true

structure LogInvariant (as : List LogExchange) (state : LogState) : Prop where
  journal : ∃ es, Lib.Journal state.log.buffer state.log.writePos es ∧
    List.Forall₂ Entered (LogExchange.publications as) es
  behind : ∀ r, state.cursors r ≤ state.log.writePos

/-- The next publication gets the number `write_pos`. -/
theorem LogInvariant.length {as : List LogExchange} {state : LogState} (h : LogInvariant as state) :
    (LogExchange.publications as).length = state.log.writePos := by
  obtain ⟨es, hjournal, hentered⟩ := h.journal
  exact hentered.length_eq.trans hjournal.length

theorem LogInvariant.new : LogInvariant [] LogState.new :=
  ⟨⟨[], .new _, .nil⟩, fun _ => Nat.le_refl 0⟩

/-- A reader moves on to a position that exists. -/
theorem LogInvariant.moveTo {as : List LogExchange} {state : LogState} {e : LogExchange}
    (h : LogInvariant as state) (hno : ¬ e.Publishes) {r : Fin maxTasks} {cursor : Nat}
    (hle : cursor ≤ state.log.writePos) : LogInvariant (as ++ [e]) (state.moveTo r cursor) := by
  refine ⟨?_, fun r' => ?_⟩
  · rw [LogExchange.publications_snoc, if_neg hno]
    exact h.journal
  · by_cases hr : r' = r
    · subst hr
      simpa [LogState.moveTo] using hle
    · simpa [LogState.moveTo, hr] using h.behind r'

theorem LogInvariant.step {as : List LogExchange} {state state' : LogState} {e : LogExchange}
    (h : LogInvariant as state) (hstep : LogStep state e state') :
    LogInvariant (as ++ [e]) state' := by
  have heffect := hstep.effect
  generalize hreply : e.reply = reply at heffect
  cases heffect with
  | refused hcode =>
    have hno : ¬ e.Publishes := fun hp => hcode (by
      have heq := hreply.symm.trans hp.2
      exact List.head_eq_of_cons_eq heq)
    refine ⟨?_, h.behind⟩
    rw [LogExchange.publications_snoc, if_neg hno]
    exact h.journal
  | @published kind entry asks may made room =>
    obtain ⟨es, hjournal, hentered⟩ := h.journal
    obtain rfl : kind = entry.kind := by
      obtain ⟨entry', hmade, hrecord, _⟩ := publishedEntry_spec e.ticks e.msg
      cases hmade.symm.trans made
      exact asks.2.2.1.symm.trans (congrArg LogRecord.kind hrecord).symm
    refine ⟨⟨es ++ [entry], hjournal.push entry, ?_⟩, fun r => Nat.le_succ_of_le (h.behind r)⟩
    rw [LogExchange.publications_snoc, if_pos ⟨asks.1, hreply⟩]
    exact List.rel_append hentered (.cons ⟨made, asks, may⟩ .nil)
  | found asks _ _ next =>
    have hno : ¬ e.Publishes := fun hp => by cases asks.1.symm.trans hp.1
    exact h.moveTo hno (LogState.next_some next).2.1
  | empty asks =>
    have hno : ¬ e.Publishes := fun hp => by cases asks.1.symm.trans hp.1
    exact h.moveTo hno (Nat.le_refl _)

theorem logInvariant_run {as : List LogExchange} {state : LogState}
    (hr : Lib.Run LogStep .new as state) : LogInvariant as state :=
  hr.history (P := LogInvariant) .new (fun _ _ _ _ _ h hstep => h.step hstep)

namespace LogState
variable (state : LogState) (cursor : Nat)

theorem start_eq : state.start cursor = max cursor (state.log.writePos - logCapacity) := by
  unfold start LogRingBuffer.oldestValid
  by_cases hfull : state.log.writePos > logCapacity
  · rw [if_pos hfull]
    split <;> omega
  · rw [if_neg hfull, if_neg (Nat.not_lt_zero _)]
    omega

theorem le_start : cursor ≤ state.start cursor := by
  rw [start_eq]
  exact Nat.le_max_left _ _

/-- A search never looks at an overwritten position. -/
theorem start_window : state.log.writePos ≤ state.start cursor + logCapacity := by
  rw [start_eq]
  omega

end LogState

section
variable {s : Scheduler} {ticks : UInt64} {state state' : LogState} {msg : Message}
  {reply : List UInt8} {kind : UInt8}

theorem LogState.moveTo_cursors (state : LogState) (r r' : Fin maxTasks) (cursor : Nat) :
    (state.moveTo r cursor).cursors r' = if r' = r then cursor else state.cursors r' := by
  simp [moveTo, Function.update_apply]

/-- Readers only move forward. -/
theorem LogEffect.cursors_le (h : LogEffect s ticks state msg state' reply)
    (hbehind : ∀ r, state.cursors r ≤ state.log.writePos) (r : Fin maxTasks) :
    state.cursors r ≤ state'.cursors r := by
  cases h with
  | refused | published => exact Nat.le_refl _
  | @found kind idx entry r' _ _ _ next =>
    rw [LogState.moveTo_cursors]
    split
    · rename_i hr
      subst hr
      have hle := (LogState.next_some next).1
      have hstart := state.le_start (state.cursors r)
      omega
    · exact Nat.le_refl _
  | @empty kind r' =>
    rw [LogState.moveTo_cursors]
    split
    · exact hbehind r
    · exact Nat.le_refl _

/-- A read that returns something returns the first unread entry of its kind. -/
theorem LogEffect.returns (h : LogEffect s ticks state msg state' reply)
    (hasks : msg.LogAsks .logRead kind) (hzero : reply.head? = some 0) :
    ∃ r idx entry, msg.sender = r.val ∧ state.next r kind = some (idx, entry) ∧
      state' = state.moveTo r (idx + 1) ∧ reply = entry.encoding := by
  cases h with
  | refused hcode => exact absurd (Option.some.inj hzero) hcode
  | published asks => cases asks.1.symm.trans hasks.1
  | found asks _ reader next =>
    cases asks.2.2.1.symm.trans hasks.2.2.1
    exact ⟨_, _, _, reader, next, rfl, rfl⟩
  | empty => cases Option.some.inj hzero

end

/-- What the ring holds at a position was published as that number, with the
right to. -/
theorem LogInvariant.entered {as : List LogExchange} {state : LogState} (h : LogInvariant as state)
    {i : Nat} (hlt : i < state.log.writePos) (hring : state.log.writePos ≤ i + logCapacity) :
    ∃ pub, (LogExchange.publications as)[i]? = some pub ∧
      Entered pub (state.log.buffer (Fin.ofNat logCapacity i)) := by
  obtain ⟨es, hjournal, hentered⟩ := h.journal
  have hentry := hjournal.entry i hlt hring
  obtain ⟨hi, hget⟩ := List.getElem?_eq_some_iff.mp hentry
  have hi' : i < (LogExchange.publications as).length := by rw [hentered.length_eq]; exact hi
  refine ⟨_, List.getElem?_eq_getElem hi', ?_⟩
  have hrel := hentered.get hi' hi
  simp only [List.get_eq_getElem, hget] at hrel
  exact hrel

end Runix
