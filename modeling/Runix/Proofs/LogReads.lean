import Runix.Proofs.Log

namespace Runix

theorem Entered.decodes {pub : LogExchange} {entry : LogEntry} (h : Entered pub entry)
    (hsender : pub.msg.sender < maxTasks) :
    decodeLogReply (padPayload entry.encoding) = some pub.record := by
  obtain ⟨entry', hmade, hrecord, hlen⟩ := publishedEntry_spec pub.ticks pub.msg
  cases hmade.symm.trans h.made
  have hproducer : entry.producer = pub.msg.sender := congrArg LogRecord.producer hrecord
  have hlt : entry.producer < 2 ^ 64 := by
    rw [hproducer]
    exact Nat.lt_trans hsender (by decide)
  rw [LogExchange.record, ← hrecord]
  exact decode_encoding (padPayload_begins (by rw [entry.length_encoding]; decide)) hlt hlen

/-- A publisher exists: it has a capability. -/
theorem Entered.sender_lt {pub : LogExchange} {entry : LogEntry} (h : Entered pub entry) :
    pub.msg.sender < maxTasks := by
  obtain ⟨t, _, _, ht, _⟩ := Scheduler.checkCap_iff.mp h.may
  obtain ⟨task, htask, _⟩ := Option.map_eq_some_iff.mp ht
  exact (Scheduler.getTask_some htask).2.1

structure ReadsSound (as : List LogExchange) (state : LogState) (f : Nat → Nat) : Prop where
  entry : ∀ q e kind, as[q]? = some e → e.Returns kind →
    ∃ pub, (LogExchange.publications (as.take q))[f q]? = some pub ∧
      decodeLogReply (padPayload e.reply) = some pub.record ∧ pub.msg.byte 0 = kind ∧
      pub.sched.checkLogSenderCap pub.msg.sender kind true = true
  increasing : ∀ q q' e e' kind kind', q < q' → as[q]? = some e → as[q']? = some e' →
    e.Returns kind → e'.Returns kind' → e.msg.sender = e'.msg.sender → f q < f q'
  passed : ∀ q e kind (r : Fin maxTasks), as[q]? = some e → e.Returns kind → e.msg.sender = r.val →
    f q < state.cursors r

/-- The last round is the only new one. -/
theorem getElem?_snoc {α : Type} {l : List α} {x y : α} {q : Nat} (h : (l ++ [x])[q]? = some y) :
    (q < l.length ∧ l[q]? = some y) ∨ (q = l.length ∧ y = x) := by
  by_cases hq : q < l.length
  · rw [List.getElem?_append_left hq] at h
    exact .inl ⟨hq, h⟩
  · rw [List.getElem?_append_right (Nat.le_of_not_lt hq)] at h
    obtain ⟨hlt, heq⟩ := List.getElem?_eq_some_iff.mp h
    rw [List.length_singleton] at hlt
    have hzero : q - l.length = 0 := by omega
    simp only [hzero, List.getElem_cons_zero] at heq
    exact .inr ⟨by omega, heq.symm⟩

theorem ReadsSound.step {as : List LogExchange} {state state' : LogState} {e : LogExchange}
    {f : Nat → Nat} (h : ReadsSound as state f) (hinv : LogInvariant as state)
    (hstep : LogStep state e state') : ∃ f', ReadsSound (as ++ [e]) state' f' := by
  have hmono := hstep.effect.cursors_le hinv.behind
  by_cases hreturns : ∃ kind, e.Returns kind
  · obtain ⟨kind, hkind⟩ := hreturns
    obtain ⟨r, idx, entry, hsender, hnext, rfl, hreply⟩ := hstep.effect.returns hkind.1 hkind.2
    obtain ⟨hstart, hlt, rfl, hek, _⟩ := LogState.next_some hnext
    have hwindow := state.start_window (state.cursors r)
    have hcursor := state.le_start (state.cursors r)
    obtain ⟨pub, hpub, hentered⟩ := hinv.entered hlt (by omega)
    have hf : ∀ q, q < as.length → Function.update f as.length idx q = f q :=
      fun q hq => Function.update_of_ne (Nat.ne_of_lt hq) _ _
    refine ⟨Function.update f as.length idx, ?_, ?_, ?_⟩
    · intro q e₁ kind₁ hq hr₁
      rcases getElem?_snoc hq with ⟨hlt', hq'⟩ | ⟨rfl, rfl⟩
      · rw [hf q hlt', List.take_append_of_le_length (Nat.le_of_lt hlt')]
        exact h.entry q e₁ kind₁ hq' hr₁
      · rw [Function.update_self, List.take_append_of_le_length (Nat.le_refl _), List.take_length]
        cases hkind.1.2.2.1.symm.trans hr₁.1.2.2.1
        have hpk : pub.msg.byte 0 = kind := hentered.asks.2.2.1.trans hek
        refine ⟨pub, hpub, ?_, hpk, ?_⟩
        · rw [hreply]
          exact hentered.decodes hentered.sender_lt
        · have hmay := hentered.may
          rwa [hek] at hmay
    · intro q q' e₁ e₂ kind₁ kind₂ hqq hq hq' hr₁ hr₂ hsame
      rcases getElem?_snoc hq' with ⟨hlt₂, hq₂⟩ | ⟨rfl, rfl⟩
      · rcases getElem?_snoc hq with ⟨hlt₁, hq₁⟩ | ⟨rfl, _⟩
        · rw [hf q hlt₁, hf q' hlt₂]
          exact h.increasing q q' e₁ e₂ kind₁ kind₂ hqq hq₁ hq₂ hr₁ hr₂ hsame
        · omega
      · rcases getElem?_snoc hq with ⟨hlt₁, hq₁⟩ | ⟨rfl, _⟩
        · rw [hf q hlt₁, Function.update_self]
          have hpassed := h.passed q e₁ kind₁ r hq₁ hr₁ (hsame.trans hsender)
          omega
        · omega
    · intro q e₁ kind₁ r₁ hq hr₁ hs₁
      rcases getElem?_snoc hq with ⟨hlt₁, hq₁⟩ | ⟨rfl, rfl⟩
      · rw [hf q hlt₁]
        exact Nat.lt_of_lt_of_le (h.passed q e₁ kind₁ r₁ hq₁ hr₁ hs₁) (hmono r₁)
      · obtain rfl : r₁ = r := Fin.ext (hs₁.symm.trans hsender)
        rw [Function.update_self, LogState.moveTo_cursors, if_pos rfl]
        omega
  · have hold : ∀ {q e₁ kind₁}, (as ++ [e])[q]? = some e₁ → e₁.Returns kind₁ →
        q < as.length ∧ as[q]? = some e₁ := by
      intro q e₁ kind₁ hq hr₁
      rcases getElem?_snoc hq with hlt | ⟨_, rfl⟩
      · exact hlt
      · exact absurd ⟨kind₁, hr₁⟩ hreturns
    refine ⟨f, ?_, ?_, ?_⟩
    · intro q e₁ kind₁ hq hr₁
      obtain ⟨hlt, hq₁⟩ := hold hq hr₁
      rw [List.take_append_of_le_length (Nat.le_of_lt hlt)]
      exact h.entry q e₁ kind₁ hq₁ hr₁
    · intro q q' e₁ e₂ kind₁ kind₂ hqq hq hq' hr₁ hr₂ hsame
      exact h.increasing q q' e₁ e₂ kind₁ kind₂ hqq (hold hq hr₁).2 (hold hq' hr₂).2 hr₁ hr₂ hsame
    · intro q e₁ kind₁ r₁ hq hr₁ hs₁
      exact Nat.lt_of_lt_of_le (h.passed q e₁ kind₁ r₁ (hold hq hr₁).2 hr₁ hs₁) (hmono r₁)

theorem ReadsSound.nil : ReadsSound [] LogState.new (fun _ => 0) := by
  refine ⟨?_, ?_, ?_⟩
  · intro q e kind hq
    cases hq
  · intro q q' e e' kind kind' _ hq
    cases hq
  · intro q e kind r hq
    cases hq

theorem readsSound_run {as : List LogExchange} {state : LogState}
    (hr : Lib.Run LogStep .new as state) : ∃ f, ReadsSound as state f :=
  hr.history (P := fun as state => ∃ f, ReadsSound as state f) ⟨_, .nil⟩
    (fun _ _ _ _ hr ⟨_, h⟩ hstep => h.step (logInvariant_run hr) hstep)

/-- A request that is malformed or denied changes nothing. -/
theorem LogEffect.unchanged {s : Scheduler} {ticks : UInt64} {state state' : LogState}
    {msg : Message} {reply : List UInt8} (h : LogEffect s ticks state msg state' reply)
    (hno : ¬ LogAccepted s msg) : state' = state := by
  cases h with
  | refused => rfl
  | published asks may => exact absurd ⟨_, .inl ⟨asks, may⟩⟩ hno
  | found asks may => exact absurd ⟨_, .inr ⟨asks, may⟩⟩ hno
  | empty asks may => exact absurd ⟨_, .inr ⟨asks, may⟩⟩ hno

/-- Reads of the log are sound. -/
theorem log_reads_sound {as : List LogExchange} {state : LogState}
    (hr : Lib.Run LogStep .new as state) :
    (∃ f : Nat → Nat,
      (∀ q e kind, as[q]? = some e → e.Returns kind →
        ∃ pub, (LogExchange.publications (as.take q))[f q]? = some pub ∧
          decodeLogReply (padPayload e.reply) = some pub.record ∧ pub.msg.byte 0 = kind ∧
          pub.sched.checkLogSenderCap pub.msg.sender kind true = true) ∧
      ∀ q q' e e' kind kind', q < q' → as[q]? = some e → as[q']? = some e' →
        e.Returns kind → e'.Returns kind' → e.msg.sender = e'.msg.sender → f q < f q') ∧
    (∀ r, state.cursors r ≤ state.log.writePos) ∧
    ∀ e state', LogStep state e state' → ¬ LogAccepted e.sched e.msg → state' = state := by
  obtain ⟨f, hf⟩ := readsSound_run hr
  exact ⟨⟨f, hf.entry, hf.increasing⟩, (logInvariant_run hr).behind,
    fun _ _ hstep hno => hstep.effect.unchanged hno⟩

def loggingScheduler : Scheduler :=
  { Scheduler.ofList [Task.new 0 0 83 CapTable.new,
      Task.new 0 0 1 (CapTable.ofList [⟨.logChannel 1 true true, true, true, false, false, 1, none⟩]),
      Task.new 0 0 2 (CapTable.ofList [⟨.logChannel 1 true false, true, false, false, false, 2, none⟩,
        ⟨.logChannel 2 true false, true, false, false, false, 3, none⟩])] with
    currentTaskId := some 83 }

def logExchange (sender : TaskId) (tag : IpcTag) (bytes reply : List UInt8) : LogExchange :=
  ⟨loggingScheduler, 7, 0, ⟨sender, tag, 1, padPayload bytes, bytes.length, 0, 0⟩, reply⟩

def greetingReply : List UInt8 :=
  LogEntry.encoding ⟨7, 1, 1, (Vector.replicate 64 0).set 0 104 |>.set 1 105, 2⟩

/-- A publication and its read. -/
theorem log_reads_sound_greeting : ∃ state,
    Lib.Run LogStep .new [logExchange 1 .logPublish [1, 104, 105] [0],
      logExchange 2 .logRead [1] greetingReply] state ∧
    ∃ f : Nat → Nat, ∃ pub, (LogExchange.publications
        [logExchange 1 .logPublish [1, 104, 105] [0]])[f 1]? = some pub ∧
      decodeLogReply (padPayload greetingReply) = some pub.record := by
  obtain ⟨state, hr⟩ : ∃ state, Lib.Run LogStep .new
      [logExchange 1 .logPublish [1, 104, 105] [0], logExchange 2 .logRead [1] greetingReply] state :=
    ⟨_, .cons ⟨_, _, rfl⟩ (.cons ⟨_, _, rfl⟩ (.nil _))⟩
  obtain ⟨f, hentry, _⟩ := (log_reads_sound hr).1
  obtain ⟨pub, hpub, hdecode, _⟩ := hentry 1 _ 1 rfl (by decide)
  exact ⟨state, hr, f, pub, hpub, hdecode⟩

end Runix
