import Runix.Ipc

namespace Runix

theorem CapTable.channel_clear {t : CapTable} {capIdx idx : Nat} (h : idx ≠ capIdx) :
    (t.clear capIdx).channel idx = t.channel idx := by
  have hget : (t.clear capIdx).get idx = t.get idx := by
    unfold CapTable.get CapTable.clear
    by_cases hi : idx < maxCaps <;> by_cases hc : capIdx < maxCaps <;>
      simp [hi, hc, h]
  unfold CapTable.channel
  rw [hget]

theorem checkSend_ok {call capIdx : Nat} {tag version : UInt16} {payload : List UInt8}
    {a : SendArgs} (h : checkSend call capIdx tag version payload = .ok a) :
    a.call = call ∧ a.capIdx = capIdx := by
  unfold checkSend at h
  repeat' split at h
  all_goals first | cases h; exact ⟨rfl, rfl⟩ | cases h

theorem beginSend_ok {s : Scheduler} {call capIdx : Nat} {tag version : UInt16}
    {payload : List UInt8} {a : SendArgs} (h : beginSend s call capIdx tag version payload = .ok a) :
    a.call = call ∧ a.capIdx = capIdx := by
  unfold beginSend at h
  split at h
  · cases h
  · split at h
    · cases h
    · cases h
      exact checkSend_ok (by assumption)

theorem CapTable.channel_eq_some {t : CapTable} {idx : Nat} {c : Capability}
    (h : t.get idx = some c) {r : TaskId} :
    t.channel idx = some r ↔ c.resource = .ipcChannel r := by
  unfold CapTable.channel
  rw [h]
  cases hr : c.resource <;> simp [hr]

namespace Scheduler

def Alive (s : Scheduler) (id : TaskId) : Prop :=
  ∃ i t, s.tasks i = some t ∧ i.val = id ∧ t.state ≠ .terminated ∧ t.state ≠ .blockedOnReceive

theorem Alive.of_tasks {s s' : Scheduler} {r : TaskId} (h : s.Alive r)
    (hs : s'.tasks = s.tasks) : s'.Alive r := by
  obtain ⟨k, v, hv, hk⟩ := h
  exact ⟨k, v, hs ▸ hv, hk⟩

/-- Replacing a task by one that takes messages too. -/
theorem Alive.set {s : Scheduler} {r : TaskId} (h : s.Alive r) {i : Fin maxTasks} {t : Task}
    (hterm : t.state ≠ .terminated) (hbr : t.state ≠ .blockedOnReceive) :
    (s.set i (some t)).Alive r := by
  obtain ⟨k, v, hv, hk, hv'⟩ := h
  by_cases hki : k = i
  · exact ⟨k, t, by rw [set_tasks, if_pos hki], hk, hterm, hbr⟩
  · exact ⟨k, v, by rw [set_tasks, if_neg hki, hv], hk, hv'⟩

theorem resolveTargetLocked_eq {s : Scheduler} (hs : s.Indexed) {i : Fin maxTasks} {t : Task}
    (ht : s.tasks i = some t) (capIdx : Nat) : s.resolveTargetLocked i capIdx =
      match t.capTable.channel capIdx with
      | none => .error .noCapability
      | some r => .ok r := by
  have hget : s.getTask i = some t := (hs.getTask i).trans ht
  cases hc : t.capTable.channel capIdx <;> simp [resolveTargetLocked, hget, hc]

def Gone (s : Scheduler) (id : TaskId) : Prop :=
  ∀ t, s.getTask id = some t → t.state = .terminated

/-- The four ways a send region ends. -/
theorem sendRegion_cases {s : Scheduler} (hs : s.Indexed) {i : Fin maxTasks} {t : Task}
    (ht : s.tasks i = some t) (a : SendArgs) :
    (t.capTable.channel a.capIdx = none ∧
      s.sendRegion i a = (s.set i (some { t with ipcBuffer := none }), .error .noCapability)) ∨
    ∃ r, t.capTable.channel a.capIdx = some r ∧
      ((s.Gone r ∧ s.sendRegion i a = (s, .ok .gone)) ∨
      (∃ j u, j.val = r ∧ s.tasks j = some u ∧ u.state = .blockedOnReceive ∧
        s.sendRegion i a =
          (s.set j (some { u with ipcBuffer := some (a.message i), state := .ready }),
            .ok (.delivered r))) ∨
      (s.Alive r ∧ s.sendRegion i a =
        (s.set i (some { t with state := .blockedOnSend r, ipcBuffer := some (a.message i) }),
          .ok .blocked))) := by
  unfold sendRegion
  rw [resolveTargetLocked_eq hs ht]
  cases hc : t.capTable.channel a.capIdx with
  | none => exact .inl ⟨rfl, by simp only [hs.modify ht]⟩
  | some r =>
    refine .inr ⟨r, rfl, ?_⟩
    simp only
    cases hr : s.getTask r with
    | none => exact .inl ⟨fun t h => by simp [hr] at h, rfl⟩
    | some u =>
      obtain ⟨hid, hlt, hu⟩ := getTask_some hr
      have hmod := hs.modify hu
      simp only [Option.map_some]
      cases hst : u.state with
      | terminated =>
        refine .inl ⟨fun t h => ?_, rfl⟩
        cases hr.symm.trans h
        exact hst
      | blockedOnReceive => exact .inr (.inl ⟨⟨r, hlt⟩, u, rfl, hu, hst, by simp only [hmod]⟩)
      | ready | running | blockedOnSend =>
        exact .inr (.inr ⟨⟨⟨r, hlt⟩, u, hu, rfl, by simp [hst], by simp [hst]⟩,
          by simp only [hs.modify ht]⟩)

/-- The two ways an asynchronous send ends. A refusal changes nothing. -/
theorem sendAsyncRegion_cases {s : Scheduler} (hs : s.Indexed) {i : Fin maxTasks} {t : Task}
    (ht : s.tasks i = some t) (a : SendArgs) :
    (∃ e, s.sendAsyncRegion i a = (s, .error e)) ∨
    ∃ j u queue, t.capTable.channel a.capIdx = some j.val ∧ s.tasks j = some u ∧
      u.state ≠ .terminated ∧ u.msgQueue.enqueue (a.message i) = some queue ∧
      s.sendAsyncRegion i a =
        (s.set j (some { u with
          msgQueue := queue
          state := if u.state = .blockedOnReceive then .ready else u.state }), .ok j) := by
  unfold sendAsyncRegion
  rw [resolveTargetLocked_eq hs ht]
  cases hc : t.capTable.channel a.capIdx with
  | none => exact .inl ⟨_, rfl⟩
  | some r =>
    simp only
    cases hr : s.getTask r with
    | none => exact .inl ⟨_, rfl⟩
    | some u =>
      obtain ⟨hid, hlt, hu⟩ := getTask_some hr
      have hmod := hs.modify hu
      by_cases hst : u.state = .terminated
      · exact .inl ⟨.targetGone, by simp only [hst, if_true]⟩
      · cases hq : u.msgQueue.enqueue (a.message i) with
        | none => exact .inl ⟨.queueFull, by simp only [hst, if_false, hq]⟩
        | some queue =>
          exact .inr ⟨⟨r, hlt⟩, u, queue, rfl, hu, hst, hq, by simp only [hst, if_false, hq, hmod]⟩

theorem blockedSender_some {s : Scheduler} {current : TaskId} {j : Fin maxTasks}
    (h : s.blockedSender current = some j) :
    ∃ u, s.tasks j = some u ∧ u.state = .blockedOnSend current := by
  have := List.find?_some h
  split at this
  · rename_i u hu
    exact ⟨u, hu, by simpa using this⟩
  · cases this

theorem blockedSender_none {s : Scheduler} {current : TaskId}
    (h : s.blockedSender current = none) (j : Fin maxTasks) (u : Task)
    (hu : s.tasks j = some u) : u.state ≠ .blockedOnSend current := by
  have := List.find?_eq_none.mp h j (List.mem_finRange j)
  simpa [hu] using this

/-- The four ways a receive attempt ends. -/
theorem receiveAttempt_cases {s : Scheduler} (hs : s.Indexed) {i : Fin maxTasks} {t : Task}
    (ht : s.tasks i = some t) :
    (∃ msg queue, t.msgQueue.contents = msg :: queue.contents ∧
      s.receiveAttempt i = (s.set i (some { t with msgQueue := queue }), some (.queue, .ok msg))) ∨
    (t.msgQueue.contents = [] ∧
      ((∃ msg, t.ipcBuffer = some msg ∧
        s.receiveAttempt i =
          (s.set i (some { t with ipcBuffer := none }), some (.buffer, .ok msg))) ∨
      (t.ipcBuffer = none ∧
        ((∃ j u t', s.tasks j = some u ∧ u.state = .blockedOnSend i ∧
          (s.set j (some { u with ipcBuffer := none, state := .ready })).tasks i = some t' ∧
          s.receiveAttempt i =
            ((s.set j (some { u with ipcBuffer := none, state := .ready })).set i
              (some { t' with state := .running }),
              some (.sender u.id, okOrTargetGone u.ipcBuffer))) ∨
        ((∀ j u, s.tasks j = some u → u.state ≠ .blockedOnSend i) ∧
          s.receiveAttempt i = (s, none)))))) := by
  unfold receiveAttempt
  rw [hs.getTask, ht]
  rcases Lib.Ring.contents_dequeue t.msgQueue with ⟨hempty, hdeq⟩ | ⟨msg, queue, hdeq, hcont⟩
  · refine .inr ⟨hempty, ?_⟩
    simp only [hdeq]
    cases hb : t.ipcBuffer with
    | some msg => exact .inl ⟨msg, rfl, by simp only [hs.modify ht]⟩
    | none =>
      refine .inr ⟨rfl, ?_⟩
      simp only [rendezvous]
      cases hsend : s.blockedSender i with
      | none => exact .inr ⟨blockedSender_none hsend, rfl⟩
      | some j =>
        obtain ⟨u, hu, hst⟩ := blockedSender_some hsend
        have hset : (s.set j (some { u with ipcBuffer := none, state := .ready })).Indexed :=
          hs.set (hs j u hu)
        obtain ⟨t', ht'⟩ : ∃ t',
            (s.set j (some { u with ipcBuffer := none, state := .ready })).tasks i = some t' := by
          rw [set_tasks]
          split
          · exact ⟨_, rfl⟩
          · exact ⟨t, ht⟩
        refine .inl ⟨j, u, t', hu, hst, ht', ?_⟩
        simp only [hu, hs.modify_id hu, hset.modify ht', hs.getTask_id hu, Option.bind_some]
  · exact .inl ⟨msg, queue, hcont, by simp only [hdeq, hs.modify ht]⟩

end Scheduler

end Runix
