import Runix.Proofs.Ipc
import Runix.Service.Reply

namespace Runix

namespace Scheduler

structure Grows (s s' : Scheduler) : Prop where
  current : s'.currentTaskId = s.currentTaskId
  tasks : ∀ id t, s.getTask id = some t → ∃ t', s'.getTask id = some t' ∧
    (t'.state = .terminated ↔ t.state = .terminated) ∧
    t.msgQueue.contents <+: t'.msgQueue.contents

theorem Grows.refl (s : Scheduler) : s.Grows s :=
  ⟨rfl, fun _ t h => ⟨t, h, Iff.rfl, List.prefix_refl _⟩⟩

theorem Grows.trans {s₁ s₂ s₃ : Scheduler} (h : s₁.Grows s₂) (h' : s₂.Grows s₃) : s₁.Grows s₃ := by
  refine ⟨h'.current.trans h.current, fun id t ht => ?_⟩
  obtain ⟨t₂, ht₂, hst₂, hq₂⟩ := h.tasks id t ht
  obtain ⟨t₃, ht₃, hst₃, hq₃⟩ := h'.tasks id t₂ ht₂
  exact ⟨t₃, ht₃, hst₃.trans hst₂, hq₂.trans hq₃⟩

theorem Grows.serving {s s' : Scheduler} (h : s.Grows s') {svc : Service} (hs : s.Serving svc) :
    s'.Serving svc := by
  obtain ⟨t, ht⟩ := Option.ne_none_iff_exists'.mp hs
  obtain ⟨t', ht', _⟩ := h.tasks _ t ht
  exact Option.ne_none_iff_exists'.mpr ⟨t', ht'⟩

/-- It is enough to look at the one task that is changed. -/
theorem Grows.modify {s : Scheduler} {id : TaskId} {f : Task → Task} (hid : ∀ t, (f t).id = t.id)
    (hf : ∀ t, s.getTask id = some t → ((f t).state = .terminated ↔ t.state = .terminated) ∧
      t.msgQueue.contents <+: (f t).msgQueue.contents) : s.Grows (s.modify id f) := by
  refine ⟨s.modify_currentTaskId id f, fun other t ht => ?_⟩
  by_cases ho : other = id
  · subst ho
    refine ⟨f t, ?_, hf t ht⟩
    rw [getTask_modify_self s other hid, ht, Option.map_some]
  · refine ⟨t, ?_, Iff.rfl, List.prefix_refl _⟩
    rw [getTask_modify_ne s ho, ht]

theorem openReply_grows {s s' : Scheduler} {svc : Service} {client : TaskId}
    (h : s.openReply svc client = some s') : s.Grows s' := by
  unfold openReply at h
  split at h
  · cases h
  · obtain ⟨cap, _, h⟩ := Option.map_eq_some_iff.mp h
    subst h
    exact Grows.modify (Task.withReply_id cap) (fun _ _ => ⟨Iff.rfl, List.prefix_refl _⟩)

def Receptive (s : Scheduler) (id : TaskId) : Prop :=
  ∃ t, s.getTask id = some t ∧ t.state ≠ .terminated ∧ t.msgQueue.count < msgQueueCapacity

instance (s : Scheduler) (id : TaskId) : Decidable (s.Receptive id) :=
  match h : s.getTask id with
  | none => .isFalse (fun ⟨_, ht, _⟩ => by cases h.symm.trans ht)
  | some t => decidable_of_iff (t.state ≠ .terminated ∧ t.msgQueue.count < msgQueueCapacity)
      ⟨fun hok => ⟨t, h, hok⟩, fun ⟨u, hu, hok⟩ => Option.some.inj (h.symm.trans hu) ▸ hok⟩

/-- Opening a channel changes no task's readiness for messages. -/
theorem openReply_receptive {s s' : Scheduler} {svc : Service} {client : TaskId}
    (h : s.openReply svc client = some s') (id : TaskId) : s'.Receptive id ↔ s.Receptive id := by
  unfold openReply at h
  split at h
  · cases h
  · obtain ⟨cap, _, h⟩ := Option.map_eq_some_iff.mp h
    subst h
    unfold Receptive
    by_cases hid : id = svc.task
    · subst hid
      rw [getTask_modify_self s svc.task (Task.withReply_id cap)]
      cases s.getTask svc.task with
      | none => simp
      | some me => simp [Task.withReply]
    · rw [getTask_modify_ne s hid]

def Pending (s : Scheduler) (id : TaskId) (msg : Message) : Prop :=
  ∃ t, s.getTask id = some t ∧ t.state ≠ .terminated ∧ msg ∈ t.msgQueue.contents

theorem Grows.pending {s s' : Scheduler} (h : s.Grows s') {id : TaskId} {msg : Message}
    (hp : s.Pending id msg) : s'.Pending id msg := by
  obtain ⟨t, ht, hst, hm⟩ := hp
  obtain ⟨t', ht', hst', hq⟩ := h.tasks id t ht
  exact ⟨t', ht', fun hterm => hst (hst'.mp hterm), hq.subset hm⟩

/-- An asynchronous send over a channel succeeds exactly if the target can take
the message, and then the message is in its queue. -/
theorem sendAsyncRegion_spec {s : Scheduler} {current client : TaskId} {a : SendArgs}
    (hresolve : s.resolveTargetLocked current a.capIdx = .ok client) :
    s.Grows (s.sendAsyncRegion current a).1 ∧
      ((∃ target, (s.sendAsyncRegion current a).2 = .ok target) ↔ s.Receptive client) ∧
      ((∃ target, (s.sendAsyncRegion current a).2 = .ok target) →
        (s.sendAsyncRegion current a).1.Pending client (a.message current)) := by
  unfold sendAsyncRegion
  rw [hresolve]
  simp only
  cases ht : s.getTask client with
  | none =>
    refine ⟨.refl s, ⟨fun ⟨_, h⟩ => ?_, fun ⟨t, h, _⟩ => ?_⟩, fun ⟨_, h⟩ => ?_⟩
    · cases h
    · cases ht.symm.trans h
    · cases h
  | some t =>
    simp only
    by_cases hst : t.state = .terminated
    · rw [if_pos hst]
      refine ⟨.refl s, ⟨fun ⟨_, h⟩ => ?_, fun ⟨u, h, hu, _⟩ => ?_⟩, fun ⟨_, h⟩ => ?_⟩
      · cases h
      · cases ht.symm.trans h
        exact absurd hst hu
      · cases h
    · rw [if_neg hst]
      cases hq : t.msgQueue.enqueue (a.message current) with
      | none =>
        have hfull := Lib.Ring.enqueue_none.mp hq
        refine ⟨.refl s, ⟨fun ⟨_, h⟩ => ?_, fun ⟨u, h, _, hu⟩ => ?_⟩, fun ⟨_, h⟩ => ?_⟩
        · cases h
        · cases ht.symm.trans h
          omega
        · cases h
      | some queue =>
        have hcontents := Lib.Ring.contents_enqueue hq
        have hroom : t.msgQueue.count < msgQueueCapacity := by
          have hle := t.msgQueue.count_le
          have hne : t.msgQueue.count ≠ msgQueueCapacity := fun hfull => by
            rw [Lib.Ring.enqueue_none.mpr hfull] at hq
            cases hq
          omega
        have hwake : ∀ x : TaskState,
            ((if x = .blockedOnReceive then TaskState.ready else x) = .terminated) ↔
              x = .terminated := by
          intro x
          cases x <;> simp
        have hget := getTask_modify_self s client (f := fun target : Task =>
          { target with
            msgQueue := queue
            state := if target.state = .blockedOnReceive then .ready else target.state })
          (fun _ => rfl)
        rw [ht, Option.map_some] at hget
        refine ⟨Grows.modify (fun _ => rfl) (fun u hu => ⟨hwake u.state, ?_⟩),
          ⟨fun _ => ⟨t, ht, hst, hroom⟩, fun _ => ⟨client, rfl⟩⟩, fun _ => ?_⟩
        · cases ht.symm.trans hu
          change t.msgQueue.contents <+: queue.contents
          rw [hcontents]
          exact List.prefix_append _ _
        · refine ⟨_, hget, fun h => hst ((hwake t.state).mp h), ?_⟩
          change _ ∈ queue.contents
          rw [hcontents]
          exact List.mem_append_right _ (List.mem_singleton_self _)

/-- A refused send changes nothing either. -/
theorem sendAsyncRegion_grows (s : Scheduler) (current : TaskId) (a : SendArgs) :
    s.Grows (s.sendAsyncRegion current a).1 := by
  cases hresolve : s.resolveTargetLocked current a.capIdx with
  | error e =>
    unfold sendAsyncRegion
    rw [hresolve]
    exact .refl s
  | ok client => exact (sendAsyncRegion_spec hresolve).1

theorem sysSendAsync_grows (s : Scheduler) (call capIdx : Nat) (tag version : UInt16)
    (payload : List UInt8) : s.Grows (s.sysSendAsync call capIdx tag version payload).1 := by
  unfold sysSendAsync
  split
  · exact .refl s
  · split
    · exact .refl s
    · exact s.sendAsyncRegion_grows _ _

/-- The channel a service has just opened leads to its client. -/
theorem openReply_resolves {s s' : Scheduler} {svc : Service} {client : TaskId}
    (h : s.openReply svc client = some s') :
    s'.resolveTargetLocked svc.task replySlot = .ok client := by
  unfold openReply at h
  cases hme : s.getTask svc.task with
  | none =>
    rw [hme] at h
    cases h
  | some me =>
    rw [hme] at h
    obtain ⟨cap, hcap, h⟩ := Option.map_eq_some_iff.mp h
    obtain ⟨id, _, rfl⟩ := Option.map_eq_some_iff.mp hcap
    subst h
    rw [resolveTargetLocked, getTask_modify_self s svc.task (Task.withReply_id _), hme,
      Option.map_some]
    simp [Task.withReply, CapTable.channel, CapTable.put, CapTable.get_val]

/-- What a round leaves is what the handler left. -/
theorem answer_some {σ : Type} {s : Scheduler} {svc : Service} {call : Nat} {client : TaskId}
    {a : Answer σ} {out : Served σ} (h : s.answer svc call client a = some out) :
    a.store = out.store ∧ a.bytes = some out.reply := by
  obtain ⟨s₁, _, h⟩ := Option.bind_eq_some_iff.mp h
  obtain ⟨reply, hreply, h⟩ := Option.bind_eq_some_iff.mp h
  cases h
  exact ⟨rfl, hreply⟩

/-- A service that is there can answer every task. -/
theorem Serving.answer {σ : Type} {s : Scheduler} {svc : Service} (hs : s.Serving svc)
    {client : TaskId} (hc : client < maxTasks) {a : Answer σ} {reply : List UInt8}
    (hreply : a.bytes = some reply) (call : Nat) :
    ∃ sched sent, s.answer svc call client a = some ⟨sched, a.store, reply, sent⟩ := by
  rw [Scheduler.answer, openReply_some hs hc, Option.bind_eq_bind, Option.bind_some, hreply]
  exact ⟨_, _, rfl⟩

end Scheduler

/-- The services refuse first; the equations about them put the refusal last. -/
theorem refuse_last {α : Type} (b : Bool) (refusal o : α) :
    (if (!b) = true then refusal else o) = if b = true then o else refusal := by
  cases b <;> rfl

/-- A reply that is only a status. -/
theorem Answer.bytes_status {σ : Type} (store : σ) (code : UInt8) :
    (Answer.status store code).bytes = some [code] :=
  Lib.begins_slice (statusReply_begins code) (Nat.le_of_ble_eq_true rfl)

theorem Answer.bytes_of_begins {σ : Type} {store : σ} {reply : Vector UInt8 128} {l : List UInt8}
    (h : Lib.Begins reply l) {len : Nat} (hlen : len = l.length) (hle : len ≤ 128) :
    (Answer.mk store reply len).bytes = some l := by
  subst hlen
  exact Lib.begins_slice h hle

/-- A handler fails on the fatal requests; on the others it returns a reply, and a
store with the property. -/
structure Handles {σ : Type} (o : Option (Answer σ)) (P : σ → Prop) (fatal : Prop) : Prop where
  fails : fatal → o = none
  returns : ¬ fatal → ∃ a reply, o = some a ∧ a.bytes = some reply ∧ P a.store

theorem Handles.status {σ : Type} {P : σ → Prop} {fatal : Prop} (hno : ¬ fatal) {store : σ}
    (hP : P store) (code : UInt8) : Handles (some (.status store code)) P fatal :=
  ⟨fun h => absurd h hno, fun _ => ⟨_, _, rfl, Answer.bytes_status store code, hP⟩⟩

/-- The rest of the round adds no failure: a reply that was built can be sent. -/
theorem Handles.served {σ : Type} {o : Option (Answer σ)} {P : σ → Prop} {fatal : Prop}
    (h : Handles o P fatal) {s : Scheduler} {svc : Service} (hs : s.Serving svc) {client : TaskId}
    (hc : client < maxTasks) (call : Nat) :
    (fatal → o.bind (s.answer svc call client) = none) ∧
      (¬ fatal → ∃ out, o.bind (s.answer svc call client) = some out ∧ P out.store ∧
        out.reply.length ≤ 128) := by
  refine ⟨fun hfatal => ?_, fun hno => ?_⟩
  · rw [h.fails hfatal, Option.bind_none]
  · obtain ⟨a, reply, rfl, hreply, hP⟩ := h.returns hno
    obtain ⟨sched, sent, hanswer⟩ := hs.answer hc hreply call
    have hlen : reply.length ≤ 128 := by
      have hslice := Lib.slice_length hreply
      omega
    exact ⟨_, hanswer, hP, hlen⟩

theorem padPayload_begins {l : List UInt8} (h : l.length ≤ 128) : Lib.Begins (padPayload l) l := by
  unfold Lib.Begins
  apply List.ext_getElem?
  intro i
  rw [List.getElem?_take]
  by_cases hi : i < l.length
  · have hi' : i < 128 := by omega
    rw [if_pos hi, List.getElem?_eq_getElem hi,
      List.getElem?_eq_getElem (by simpa [Vector.length_toList] using hi'), Vector.getElem_toList]
    simp [padPayload, hi]
  · rw [if_neg hi, List.getElem?_eq_none (by omega)]

end Runix
