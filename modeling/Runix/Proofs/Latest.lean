import Runix.Lib.Journal
import Runix.Lib.Run
import Runix.Trace
import Runix.Branches

namespace Runix

instance : NeZero auditCapacity := ⟨by decide⟩

namespace AuditLog

structure Recorded (log : AuditLog) (events : List AuditEvent) : Prop where
  next : log.next.val = events.length % auditCapacity
  total : log.total = events.length
  dropped : log.dropped = events.length - min events.length auditCapacity
  journal : Lib.Journal log.buffer events.length (events.map some)
  unused : ∀ k : Fin auditCapacity, events.length ≤ k.val → log.buffer k = none

variable {log : AuditLog} {events : List AuditEvent}

theorem Recorded.new : AuditLog.new.Recorded [] :=
  ⟨rfl, rfl, rfl, .new _, fun _ _ => rfl⟩

/-- An event is lost to a push once the ring is full. -/
theorem Recorded.slot_isSome (h : log.Recorded events) :
    (log.buffer log.next).isSome = decide (auditCapacity ≤ events.length) := by
  have hnext := h.next
  by_cases hfull : auditCapacity ≤ events.length
  · have hold := h.journal.entry (events.length - auditCapacity) (by
      have : 0 < auditCapacity := by decide
      omega) (by omega)
    have hslot : Fin.ofNat auditCapacity (events.length - auditCapacity) = log.next := by
      apply Fin.ext
      rw [hnext]
      exact (Nat.mod_eq_sub_mod hfull).symm
    rw [hslot, List.getElem?_map] at hold
    obtain ⟨ev, _, hev⟩ := Option.map_eq_some_iff.mp hold
    rw [← hev, decide_eq_true hfull]
    rfl
  · rw [h.unused log.next (by rw [hnext, Nat.mod_eq_of_lt (by omega)]), decide_eq_false hfull]
    rfl

theorem Recorded.push (h : log.Recorded events) (ev : AuditEvent) :
    (log.push ev).Recorded (events ++ [ev]) := by
  have hlength : (events ++ [ev]).length = events.length + 1 := List.length_append
  have hslot : Fin.ofNat auditCapacity events.length = log.next := Fin.ext h.next.symm
  refine ⟨?_, ?_, ?_, ?_, ?_⟩
  · change (log.next.val + 1) % auditCapacity = _
    rw [h.next, hlength, Nat.mod_add_mod]
  · rw [hlength, ← h.total]
    rfl
  · change (if (log.buffer log.next).isSome then log.dropped + 1 else log.dropped) = _
    rw [h.slot_isSome, hlength, h.dropped]
    by_cases hfull : auditCapacity ≤ events.length
    · rw [if_pos (decide_eq_true hfull)]
      omega
    · rw [if_neg (by simpa using hfull)]
      omega
  · rw [hlength, List.map_append]
    change Lib.Journal (Function.update log.buffer log.next (some ev)) _ _
    rw [← hslot]
    exact h.journal.push (some ev)
  · intro k hk
    rw [hlength] at hk
    change Function.update log.buffer log.next (some ev) k = none
    rw [Function.update_of_ne]
    · exact h.unused k (by omega)
    · rintro rfl
      have hle := Nat.mod_le events.length auditCapacity
      rw [← h.next] at hle
      omega

/-- Pushing goes on as long as the total can be counted. -/
theorem Recorded.tryPush (h : log.Recorded events) (ev : AuditEvent) :
    log.tryPush ev = if events.length + 1 < 2 ^ 64 then some (log.push ev) else none := by
  have hpush := h.push ev
  have hlength : (events ++ [ev]).length = events.length + 1 := List.length_append
  rw [AuditLog.tryPush, hpush.total, hpush.dropped, hlength]
  by_cases hroom : events.length + 1 < 2 ^ 64
  · rw [if_pos hroom, if_pos ⟨by omega, hroom⟩]
  · rw [if_neg hroom, if_neg (fun hboth => hroom hboth.2)]

theorem Recorded.pushes (h : log.Recorded events) (more : List AuditEvent) :
    (events.length + more.length < 2 ^ 64 →
      ∃ log', more.foldlM AuditLog.tryPush log = some log' ∧ log'.Recorded (events ++ more)) ∧
    (events.length < 2 ^ 64 → 2 ^ 64 ≤ events.length + more.length →
      more.foldlM AuditLog.tryPush log = none) := by
  induction more generalizing log events with
  | nil =>
    refine ⟨fun _ => ⟨log, rfl, by rwa [List.append_nil]⟩, fun hlt hge => ?_⟩
    rw [List.length_nil] at hge
    omega
  | cons ev more ih =>
    obtain ⟨hfit, hover⟩ := ih (h.push ev)
    rw [List.length_append, List.length_singleton, List.append_assoc] at hfit
    rw [List.length_append, List.length_singleton] at hover
    rw [List.foldlM_cons, h.tryPush ev, List.length_cons]
    by_cases hroom : events.length + 1 < 2 ^ 64
    · rw [if_pos hroom]
      exact ⟨fun hlt => hfit (by omega), fun _ hge => hover hroom (by omega)⟩
    · rw [if_neg hroom]
      exact ⟨fun hlt => absurd hlt (by omega), fun _ _ => rfl⟩

/-- Where the walk of `dump` begins, as a position in the history of the log. -/
theorem Recorded.oldest (h : log.Recorded events) (i : Nat) :
    ((if log.total > auditCapacity then log.next.val else 0) + i) % auditCapacity =
      (events.length - min events.length auditCapacity + i) % auditCapacity := by
  rw [h.total, h.next]
  unfold auditCapacity
  split <;> omega

def visited (log : AuditLog) (events : List AuditEvent) (i : Nat) : Option AuditEvent :=
  log.buffer (Fin.ofNat auditCapacity (events.length - min events.length auditCapacity + i))

theorem Recorded.visited_map (h : log.Recorded events) :
    (List.range (min events.length auditCapacity)).map (log.visited events) =
      (events.rtake (min events.length auditCapacity)).map some := by
  have hlatest := h.journal.latest (Nat.min_le_right events.length auditCapacity)
    (Nat.min_le_left _ _)
  rw [List.rtake, List.length_map, ← List.map_drop] at hlatest
  exact hlatest

/-- What a round prints is the event of its number. -/
theorem Recorded.printed (h : log.Recorded events) :
    (List.range (min events.length auditCapacity)).map
        (fun i => (log.visited events i).map (Output.event i)) =
      ((events.rtake (min events.length auditCapacity)).mapIdx Output.event).map some := by
  apply List.ext_getElem?
  intro i
  have hentry := congrArg (fun l => l[i]?) h.visited_map
  simp only [List.getElem?_map, List.getElem?_mapIdx] at hentry ⊢
  cases hi : (List.range (min events.length auditCapacity))[i]? with
  | none =>
    rw [hi, Option.map_none, eq_comm, Option.map_eq_none_iff] at hentry
    rw [hentry]
    rfl
  | some j =>
    obtain ⟨_, hj⟩ := List.getElem?_eq_some_iff.mp hi
    rw [List.getElem_range] at hj
    subst hj
    rw [hi, Option.map_some, eq_comm] at hentry
    obtain ⟨ev, hev, hsome⟩ := Option.map_eq_some_iff.mp hentry
    rw [hev, Option.map_some, ← hsome]
    rfl

/-- The walk of `dump` visits the last events in their order. -/
theorem Recorded.dump (h : log.Recorded events) :
    log.dump = some (.trail events.length (events.length - min events.length auditCapacity) ::
      (events.rtake (min events.length auditCapacity)).mapIdx Output.event) := by
  have hcount : (if log.total > auditCapacity then auditCapacity else log.total) =
      min events.length auditCapacity := by
    rw [h.total]
    split <;> omega
  have hslot : ∀ i, Lib.index log.buffer
      (((if log.total > auditCapacity then log.next.val else 0) + i) % auditCapacity) =
      some (log.visited events i) := by
    intro i
    rw [h.oldest]
    exact Lib.index_of_lt (Nat.mod_lt _ (by decide))
  unfold AuditLog.dump
  simp only [hcount, hslot, Option.map_some]
  rw [Lib.mapM_eq_map (fun _ => rfl), h.printed, h.total, h.dropped, Option.bind_eq_bind,
    Option.bind_some, List.filterMap_map, Function.id_comp, List.filterMap_some]

end AuditLog

/-- What a reader of the trace is to see: the events since the last start, as far as they
came while tracing was on. -/
structure Recording where
  active : Bool
  events : List TraceEvent

namespace Recording

def step (r : Recording) : TraceOp → Recording
  | .start => ⟨true, []⟩
  | .setActive active => { r with active := active }
  | .log event => if r.active then { r with events := r.events ++ [event] } else r

theorem foldl_log (events new : List TraceEvent) :
    (new.map TraceOp.log).foldl step ⟨true, events⟩ = ⟨true, events ++ new⟩ := by
  induction new generalizing events with
  | nil => rw [List.append_nil]; rfl
  | cons event new ih =>
    rw [List.map_cons, List.foldl_cons, List.append_cons]
    exact ih (events ++ [event])

end Recording

def tracedEvents (ops : List TraceOp) : List TraceEvent :=
  (ops.foldl Recording.step ⟨false, []⟩).events

theorem tracedEvents_session (before : List TraceOp) (new : List TraceEvent) (late : TraceEvent) :
    tracedEvents (before ++ .start :: new.map .log ++ [.setActive false, .log late]) = new := by
  have hstart : ∀ r : Recording,
      (TraceOp.start :: new.map .log).foldl Recording.step r = ⟨true, new⟩ := fun r =>
    Recording.foldl_log [] new
  rw [tracedEvents, List.foldl_append, List.foldl_append, hstart]
  rfl

namespace Tracer

structure Shows (t : Tracer) (r : Recording) : Prop where
  active : t.active = r.active
  counter : t.nextIdx.toNat = r.events.length % 2 ^ 64
  journal : Lib.Journal t.buffer r.events.length r.events

variable {t : Tracer} {r : Recording}

theorem Shows.new : Tracer.new.Shows ⟨false, []⟩ := ⟨rfl, rfl, .new _⟩

theorem Shows.logTrace (h : t.Shows r) (hactive : r.active = true) (event : TraceEvent) :
    ∃ t', t.logTrace event = some t' ∧
      t'.Shows { r with events := r.events ++ [event] } := by
  have hlength : (r.events ++ [event]).length = r.events.length + 1 := List.length_append
  have hslot : (⟨t.nextIdx.toNat % traceBufferSize, Nat.mod_lt _ (by decide)⟩ :
      Fin traceBufferSize) = Fin.ofNat traceBufferSize r.events.length := by
    apply Fin.ext
    change t.nextIdx.toNat % 128 = r.events.length % 128
    rw [h.counter]
    omega
  rw [Tracer.logTrace, if_pos (h.active.trans hactive),
    Lib.assign_of_lt (Nat.mod_lt _ (by decide)), Option.map_some]
  refine ⟨_, rfl, ⟨h.active, ?_, ?_⟩⟩
  · change (t.nextIdx + 1).toNat = (r.events ++ [event]).length % 2 ^ 64
    rw [UInt64.toNat_add, h.counter, hlength]
    exact Nat.mod_add_mod _ _ _
  · rw [hslot, hlength]
    exact h.journal.push event

theorem Shows.step (h : t.Shows r) (op : TraceOp) : ∃ t', t.step op = some t' ∧ t'.Shows (r.step op) := by
  cases op with
  | start => exact ⟨_, rfl, ⟨rfl, rfl, .new _⟩⟩
  | setActive active => exact ⟨_, rfl, ⟨rfl, h.counter, h.journal⟩⟩
  | log event =>
    cases hactive : r.active with
    | true =>
      rw [Recording.step, if_pos hactive]
      exact h.logTrace hactive event
    | false =>
      have hoff : ¬ t.active = true := by simp [h.active, hactive]
      rw [Recording.step, if_neg (by simp [hactive])]
      exact ⟨t, if_neg hoff, h⟩

theorem Shows.run (ops : List TraceOp) (h : t.Shows r) :
    ∃ t', Lib.execute Tracer.step t ops = some t' ∧ t'.Shows (ops.foldl Recording.step r) := by
  induction ops generalizing t r with
  | nil => exact ⟨t, rfl, h⟩
  | cons op ops ih =>
    obtain ⟨u, hu, hshows⟩ := h.step op
    obtain ⟨t', ht', hlast⟩ := ih hshows
    refine ⟨t', ?_, hlast⟩
    rw [Lib.execute, hu, Option.bind_some, ht']

/-- The walk visits as many of the last events as the counter says. -/
theorem Shows.walk (h : t.Shows r) :
    t.walk = some (r.events.rtake (min (r.events.length % 2 ^ 64) traceBufferSize)) := by
  rw [t.walk_eq, h.counter]
  have hle := Nat.mod_le r.events.length (2 ^ 64)
  rw [← h.journal.latest (Nat.min_le_right _ traceBufferSize)
    (Nat.le_trans (Nat.min_le_left _ _) hle)]
  congr 1
  apply List.map_congr_left
  intro i _
  congr 1
  apply Fin.ext
  change (t.oldest + i) % 128 = _ % 128
  unfold oldest
  rw [h.counter]
  unfold traceBufferSize
  split <;> omega

end Tracer

/-- Both logs show the latest events. The audit log takes every sequence whose number it
can count and then prints the last 64 of it, the oldest first. After any run of the
tracer the walk visits the last 128 of the events traced since the last start, as far as
the counter has counted them, and all three readers work on these. -/
theorem logs_show_latest :
    (∀ events : List AuditEvent,
      (events.length < 2 ^ 64 → ∃ log, events.foldlM AuditLog.tryPush AuditLog.new = some log ∧
        log.total = events.length ∧
        log.dropped = events.length - min events.length auditCapacity ∧
        log.dump = some (.trail log.total log.dropped ::
          (events.rtake (min events.length auditCapacity)).mapIdx Output.event)) ∧
      (2 ^ 64 ≤ events.length → events.foldlM AuditLog.tryPush AuditLog.new = none)) ∧
    (∀ ops : List TraceOp, ∃ t, Lib.execute Tracer.step Tracer.new ops = some t ∧
      t.walk = some ((tracedEvents ops).rtake
        (min ((tracedEvents ops).length % 2 ^ 64) traceBufferSize)) ∧
      ((tracedEvents ops).length < 2 ^ 64 →
        let n := (tracedEvents ops).length
        let latest := (tracedEvents ops).rtake (min n traceBufferSize)
        t.walk = some latest ∧ t.printTraceSummary = some (summaryOf n latest) ∧
        ∀ traceName, t.getSimAddresses traceName = simAddresses traceName latest ∧
          t.getSimInstrs traceName = simInstrs traceName latest)) := by
  refine ⟨fun events => ?_, fun ops => ?_⟩
  · obtain ⟨hfit, hover⟩ := AuditLog.Recorded.new.pushes events
    rw [List.length_nil, Nat.zero_add] at hfit hover
    refine ⟨fun hlt => ?_, hover (by decide)⟩
    obtain ⟨log, hlog, hrecorded⟩ := hfit hlt
    refine ⟨log, hlog, hrecorded.total, hrecorded.dropped, ?_⟩
    rw [hrecorded.total, hrecorded.dropped]
    exact hrecorded.dump
  · obtain ⟨t, ht, hshows⟩ := Tracer.Shows.new.run ops
    refine ⟨t, ht, hshows.walk, fun hlt => ?_⟩
    have hwalk := hshows.walk
    have hcounter := hshows.counter
    rw [← tracedEvents, Nat.mod_eq_of_lt hlt] at hwalk hcounter
    refine ⟨hwalk, ?_, fun traceName => ⟨?_, ?_⟩⟩
    · rw [Tracer.printTraceSummary, hwalk, hcounter]
      rfl
    · rw [Tracer.getSimAddresses, hwalk]
      rfl
    · rw [Tracer.getSimInstrs, hwalk]
      rfl

/-- Each log gets one event more than it has entries for. -/
theorem logs_show_latest_full :
    let first : AuditEvent := ⟨.grant, 1, 2, .ipcChannel 3, 4⟩
    let later : AuditEvent := ⟨.revoke, 1, 2, .ipcChannel 3, 4⟩
    (∃ log, (first :: List.replicate 64 later).foldlM AuditLog.tryPush AuditLog.new = some log ∧
      log.dump = some (.trail 65 1 :: (List.replicate 64 later).mapIdx Output.event)) ∧
    let sent : TraceEvent := ⟨7, "ipc_send", 1, 0⟩
    let received : TraceEvent := ⟨8, "ipc_receive", 2, 0⟩
    ∃ t, Lib.execute Tracer.step Tracer.new ([.log .zero] ++ .start ::
        (sent :: List.replicate 128 received).map .log ++ [.setActive false, .log .zero]) = some t ∧
      t.walk = some (List.replicate 128 received) := by
  intro first later
  constructor
  · obtain ⟨log, hlog, htotal, hdropped, hdump⟩ :=
      (logs_show_latest.1 (first :: List.replicate 64 later)).1 (by decide)
    rw [htotal, hdropped] at hdump
    exact ⟨log, hlog, hdump⟩
  · intro sent received
    obtain ⟨t, ht, _, hshown⟩ := logs_show_latest.2 ([.log .zero] ++ .start ::
      (sent :: List.replicate 128 received).map .log ++ [.setActive false, .log .zero])
    rw [tracedEvents_session, List.length_cons, List.length_replicate] at hshown
    refine ⟨t, ht, (hshown (by decide)).1.trans (congrArg some ?_)⟩
    simp [List.rtake, traceBufferSize]

end Runix
