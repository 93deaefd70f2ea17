import Runix.Scheduler

namespace Runix

def Task.paused (t : Task) : Task :=
  { t with state := if t.state = .running then .ready else t.state }

/-- Being switched out makes a task Ready, and nothing else. -/
theorem Task.paused_state {t : Task} {st : TaskState} (h : t.paused.state = st) (hst : st ≠ .ready) :
    t.state = st := by
  simp only [Task.paused] at h
  split at h
  · exact absurd h.symm hst
  · exact h

def Task.woken (t : Task) (dead : TaskId) : Task :=
  if t.state = .blockedOnSend dead then { t with state := .ready } else t

namespace Scheduler

def Resumable (s : Scheduler) : Prop :=
  ∀ i t, s.tasks i = some t → t.rsp ≠ 0

def started (s : Scheduler) (j : Fin maxTasks) (u : Task) : Scheduler :=
  { s.set j (some { u with state := .running }) with currentTaskId := some j.val }

theorem currentIndex_eq {s : Scheduler} {i : Fin maxTasks} {t : Task}
    (hc : s.currentTaskId = some i.val) (ht : s.tasks i = some t) : s.currentIndex = some i := by
  simp [currentIndex, hc, ht]

theorem currentIndex_none {s : Scheduler} (hc : s.currentTaskId = none) :
    s.currentIndex = none := by
  simp [currentIndex, hc]

theorem set_self {s : Scheduler} {i : Fin maxTasks} {t : Task} (ht : s.tasks i = some t) :
    s.set i (some t) = s := by
  unfold set
  rw [← ht, Function.update_eq_self]

theorem demote_eq {s : Scheduler} {i : Fin maxTasks} {t : Task} (ht : s.tasks i = some t) :
    s.demote i = s.set i (some t.paused) := by
  unfold demote Task.paused
  simp only [ht]
  split
  · rfl
  · exact (set_self ht).symm

theorem startRunning_started {s : Scheduler} (hs : s.Indexed) {j : Fin maxTasks} {u : Task}
    (hu : s.tasks j = some u) (hrsp : u.rsp ≠ 0) :
    s.startRunning j = (s.started j u, some ⟨j, u.rsp, u.kstackTop, u.cr3⟩) := by
  rw [startRunning_eq hu, if_pos hrsp, started, ← hs j u hu]

theorem indexed_demote {s : Scheduler} (hs : s.Indexed) {i : Fin maxTasks} {t : Task}
    (ht : s.tasks i = some t) : (s.demote i).Indexed := by
  rw [demote_eq ht]
  exact hs.set (hs i t ht)

/-- A rescheduling decision starts another Ready task, unless there is none. -/
theorem reschedule_cases {s : Scheduler} (hs : s.Indexed) (hr : s.Resumable)
    {i : Fin maxTasks} {t : Task} (ht : s.tasks i = some t) :
    (s.reschedule i = (s, none) ∧ ∀ j u, j ≠ i → s.tasks j = some u → u.state ≠ .ready) ∨
    ∃ j u, j ≠ i ∧ s.tasks j = some u ∧ u.state = .ready ∧
      s.reschedule i =
        ((s.set i (some t.paused)).started j u, some ⟨j, u.rsp, u.kstackTop, u.cr3⟩) := by
  unfold reschedule
  have hnearest : ∀ j u, j ≠ i → s.tasks j = some u → u.state = .ready →
      ∃ k, s.nextReady i = some k ∧ k ≠ i := by
    intro j u hj hu hst
    obtain ⟨k, hk, _, hki, _⟩ :=
      Lib.cyclicFind_nearest maxTasks_pos (isReady_iff.mpr ⟨u, hu, hst⟩) hj
    exact ⟨k, hk, hki⟩
  cases hn : s.nextReady i with
  | none =>
    refine .inl ⟨rfl, fun j u hj hu hst => ?_⟩
    obtain ⟨k, hk, _⟩ := hnearest j u hj hu hst
    cases hn.symm.trans hk
  | some j =>
    simp only
    split
    · rename_i hne
      obtain ⟨u, hu, hst⟩ := isReady_iff.mp (Lib.cyclicFind_some hn).1
      refine .inr ⟨j, u, hne, hu, hst, ?_⟩
      rw [startRunning_started (indexed_demote hs ht) (by rw [demote_other hne, hu]) (hr j u hu),
        demote_eq ht]
    · rename_i hji
      refine .inl ⟨rfl, fun l u hl hu hst => ?_⟩
      obtain ⟨k, hk, hki⟩ := hnearest l u hl hu hst
      cases hn.symm.trans hk
      exact hji hki

/-- Saving the outgoing stack pointer commutes with starting another task. -/
theorem saveRsp_started {s : Scheduler} {i j : Fin maxTasks} {t u : Task} (hne : j ≠ i) (sp : Nat) :
    ((s.set i (some t)).started j u).saveRsp i sp =
      (s.set i (some { t with rsp := sp })).started j u := by
  have ht : ((s.set i (some t)).started j u).tasks i = some t := by
    simp [started, set, Function.update_of_ne hne.symm]
  simp only [saveRsp, ht]
  ext k
  · simp only [started, set, Function.update_apply]
    by_cases hki : k = i
    · subst hki
      simp [hne.symm]
    · simp [hki]
  · rfl

theorem yieldCpu_eq {s : Scheduler} {i : Fin maxTasks} {t : Task}
    (hc : s.currentTaskId = some i.val) (ht : s.tasks i = some t) :
    s.yieldCpu = s.reschedule i := by
  rw [yieldCpu, currentIndex_eq hc ht]

theorem preemptReschedule_eq {s : Scheduler} {i : Fin maxTasks} {t : Task}
    (hc : s.currentTaskId = some i.val) (ht : s.tasks i = some t) :
    s.preemptReschedule false = s.reschedule i := by
  simp [preemptReschedule, currentIndex_eq hc ht]

/-- Without a current task `yield_cpu` starts a Ready task, if there is one. -/
theorem yieldCpu_boot {s : Scheduler} (hs : s.Indexed) (hr : s.Resumable)
    (hc : s.currentTaskId = none) :
    s.yieldCpu = (s, none) ∨
    ∃ j u, s.tasks j = some u ∧ u.state = .ready ∧
      s.yieldCpu = (s.started j u, some ⟨j, u.rsp, u.kstackTop, u.cr3⟩) := by
  rw [yieldCpu, currentIndex_none hc]
  simp only
  cases hf : (List.finRange maxTasks).find? s.isReady with
  | none => exact .inl rfl
  | some j =>
    obtain ⟨u, hu, hst⟩ := isReady_iff.mp (List.find?_some hf)
    exact .inr ⟨j, u, hu, hst, startRunning_started hs hu (hr j u hu)⟩

theorem preemptReschedule_boot {s : Scheduler} (hc : s.currentTaskId = none) :
    s.preemptReschedule false = (s, none) := by
  simp [preemptReschedule, currentIndex_none hc]

def killed (s : Scheduler) (i : Fin maxTasks) (t : Task) : Scheduler :=
  { s with tasks := fun k => if k = i then some { t with state := .terminated }
      else (s.tasks k).map (fun u => u.woken i) }

theorem wakeSenders_markTerminated {s : Scheduler} {i : Fin maxTasks} {t : Task}
    (hc : s.currentTaskId = some i.val) (ht : s.tasks i = some t) :
    s.markTerminated.wakeSenders = s.killed i t := by
  have hm : s.markTerminated = s.set i (some { t with state := .terminated }) := by
    simp [markTerminated, hc, ht]
  rw [hm]
  simp only [wakeSenders, set_currentTaskId, hc, killed]
  ext k
  · simp only [set_tasks]
    by_cases hki : k = i
    · simp [hki]
    · simp [hki, Task.woken]
  · simp

theorem indexed_killed {s : Scheduler} (hs : s.Indexed) {i : Fin maxTasks} {t : Task}
    (ht : s.tasks i = some t) : (s.killed i t).Indexed := by
  intro k v hv
  simp only [killed] at hv
  split at hv
  · cases hv
    rename_i hk
    rw [hk]
    exact hs i t ht
  · obtain ⟨u, hu, rfl⟩ := Option.map_eq_some_iff.mp hv
    unfold Task.woken
    split
    · exact hs k u hu
    · exact hs k u hu

theorem resumable_killed {s : Scheduler} (hr : s.Resumable) {i : Fin maxTasks} {t : Task}
    (ht : s.tasks i = some t) : (s.killed i t).Resumable := by
  intro k v hv
  simp only [killed] at hv
  split at hv
  · cases hv
    exact hr i t ht
  · obtain ⟨u, hu, rfl⟩ := Option.map_eq_some_iff.mp hv
    unfold Task.woken
    split
    · exact hr k u hu
    · exact hr k u hu

/-- The selection that ends `terminate_current_task`. -/
theorem terminateLoop_cases {s : Scheduler} (hs : s.Indexed) (hr : s.Resumable) (start : Nat) :
    s.terminateLoop start (List.range maxTasks) = (s, none) ∨
    ∃ j u, s.tasks j = some u ∧ u.state = .ready ∧
      s.terminateLoop start (List.range maxTasks) =
        (s.started j u, some ⟨j, u.rsp, u.kstackTop, u.cr3⟩) := by
  rw [terminateLoop_eq]
  cases hf : Lib.cyclicFind maxTasks_pos s.isReady start with
  | none => exact .inl rfl
  | some j =>
    obtain ⟨u, hu, hst⟩ := isReady_iff.mp (Lib.cyclicFind_some hf).1
    exact .inr ⟨j, u, hu, hst, startRunning_started hs hu (hr j u hu)⟩

end Scheduler

end Runix
