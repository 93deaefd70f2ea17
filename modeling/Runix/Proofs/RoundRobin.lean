import Runix.Proofs.Running

namespace Runix

inductive Decision where
  | yieldCpu
  | preemptReschedule
  | terminateCurrentTask
  deriving DecidableEq

def Decision.take (d : Decision) (s : Scheduler) : Scheduler × Option Switch :=
  match d with
  | .yieldCpu => s.yieldCpu
  | .preemptReschedule => s.preemptReschedule false
  | .terminateCurrentTask => s.terminateCurrentTask

namespace Scheduler

variable {s s' : Scheduler} {c i : Fin maxTasks}

/-- A task table in which a decision can be taken: the current slot is
occupied, every task is in the slot of its number and has a saved stack. -/
structure Table (s : Scheduler) : Prop where
  indexed : s.Indexed
  resumable : s.Resumable
  current : ∃ c t, s.currentTaskId = some c.val ∧ s.tasks c = some t

/-- A decision, with the task it switched to, and then whatever the tasks and
interrupts do until the next decision: the new table need only agree on who is
current. -/
def Turn (s : Scheduler) (l : Decision × Option (Fin maxTasks)) (s' : Scheduler) : Prop :=
  (l.1.take s).2.map Switch.next = l.2 ∧ s'.currentTaskId = (l.1.take s).1.currentTaskId ∧ s'.Table

def Waits (i : Fin maxTasks) (s : Scheduler) (_ : Decision × Option (Fin maxTasks)) : Prop :=
  s.isReady i = true ∧ s.currentTaskId ≠ some i.val

/-- A decision taken while task `i` waits passes the processor to the nearest
Ready task after the current one. -/
theorem take_nearest (h : s.Table) (hc : s.currentTaskId = some c.val) (hi : s.isReady i = true)
    (hne : i ≠ c) (d : Decision) :
    ∃ j, (d.take s).2.map Switch.next = some j ∧ (d.take s).1.currentTaskId = some j.val ∧ j ≠ c ∧
      Lib.distance maxTasks c j ≤ Lib.distance maxTasks c i := by
  obtain ⟨c', t, hc', ht⟩ := h.current
  cases Fin.ext (Option.some.inj (hc.symm.trans hc'))
  have hresched : ∃ j, (s.reschedule c).2.map Switch.next = some j ∧
      (s.reschedule c).1.currentTaskId = some j.val ∧ j ≠ c ∧
      Lib.distance maxTasks c j ≤ Lib.distance maxTasks c i := by
    obtain ⟨j, hj, hready, hjc, hle⟩ := Lib.cyclicFind_nearest maxTasks_pos hi hne
    obtain ⟨u, hu, _⟩ := isReady_iff.mp hready
    have heq : s.reschedule c = (s.demote c).startRunning j := by
      unfold reschedule nextReady
      rw [hj]
      simp [hjc]
    rw [heq, startRunning_started (indexed_demote h.indexed ht) (by rw [demote_other hjc, hu])
      (h.resumable j u hu)]
    exact ⟨j, rfl, rfl, hjc, hle⟩
  cases d with
  | yieldCpu =>
    simp only [Decision.take, yieldCpu_eq hc ht]
    exact hresched
  | preemptReschedule =>
    simp only [Decision.take, preemptReschedule_eq hc ht]
    exact hresched
  | terminateCurrentTask =>
    have hready : (s.killed c t).isReady i = true := by
      obtain ⟨u, hu, hst⟩ := isReady_iff.mp hi
      exact isReady_iff.mpr ⟨u, by simp [killed, hne, hu, Task.woken, hst], hst⟩
    obtain ⟨j, hj, hjr, hjc, hle⟩ := Lib.cyclicFind_nearest maxTasks_pos hready hne
    obtain ⟨u, hu, _⟩ := isReady_iff.mp hjr
    have heq : s.terminateCurrentTask = (s.killed c t).startRunning j := by
      unfold terminateCurrentTask
      rw [wakeSenders_markTerminated hc ht, terminateLoop_eq, hc]
      simp only [hj]
    simp only [Decision.take, heq, startRunning_started (indexed_killed h.indexed ht) hu
      (resumable_killed h.resumable ht j u hu)]
    exact ⟨j, rfl, rfl, hjc, hle⟩

/-- The turns taken while task `i` waits approach it. -/
theorem waits_approach {ls : List (Decision × Option (Fin maxTasks))} (h : s.Table)
    (hc : s.currentTaskId = some c.val) (hr : Lib.Run (Lib.Guarded (Waits i) Turn) s ls s') :
    ∃ js, ls.map Prod.snd = js.map some ∧ Lib.Approach i c js := by
  induction hr generalizing c with
  | nil => exact ⟨[], rfl, .nil c⟩
  | @cons s t u l ls head _ ih =>
    obtain ⟨⟨hready, hcur⟩, hsel, hnext, htable⟩ := head
    have hne : i ≠ c := by
      rintro rfl
      exact hcur hc
    obtain ⟨j, hj, hjcur, hjc, hle⟩ := take_nearest h hc hready hne l.1
    obtain ⟨js, hjs, hrest⟩ := ih htable (hnext.trans hjcur)
    refine ⟨j :: js, ?_, .cons hjc hle hrest⟩
    rw [List.map_cons, List.map_cons, hjs, ← hsel, hj]

/-- Round robin with bounded bypass. In every run of decisions taken while task
`i` waits, each decision switches to a task, no task is switched to twice, and
either `i` has been switched to or fewer than `(i - c) mod maxTasks` decisions
have been taken. The three selection loops find the same task. -/
theorem bounded_bypass (h : s.Table) (hc : s.currentTaskId = some c.val) (hne : i ≠ c)
    {ls : List (Decision × Option (Fin maxTasks))}
    (hr : Lib.Run (Lib.Guarded (Waits i) Turn) s ls s') :
    (∃ js : List (Fin maxTasks), ls.map Prod.snd = js.map some ∧ js.Nodup ∧
      js.length ≤ Lib.distance maxTasks c i ∧
      (i ∈ js ∨ js.length < Lib.distance maxTasks c i)) ∧
    s.yieldCpu = s.preemptReschedule false ∧
    s.terminateLoop ((c + 1) % maxTasks) (List.range maxTasks) =
      match s.nextReady c with
      | some next => s.startRunning next
      | none => (s, none) := by
  obtain ⟨js, hjs, happ⟩ := waits_approach h hc hr
  obtain ⟨c', t, hc', ht⟩ := h.current
  cases Fin.ext (Option.some.inj (hc.symm.trans hc'))
  refine ⟨⟨js, hjs, happ.nodup, happ.length_le, ?_⟩, ?_, ?_⟩
  · by_cases hi : i ∈ js
    · exact .inl hi
    · exact .inr (happ.length_lt hne hi)
  · rw [yieldCpu_eq hc ht, preemptReschedule_eq hc ht]
  · rw [terminateLoop_eq]
    rfl

theorem table_of_wf {m : Machine} (h : m.Wf) (hi : m.cpu = .task i) : m.sched.Table := by
  obtain ⟨hc, t, ht⟩ := h.current i hi
  exact ⟨h.indexed, h.resumable, i, t, hc, ht⟩

def trio : List Task :=
  [Task.new 0 0 0 CapTable.new, Task.new 0 0 1 CapTable.new, Task.new 0 0 2 CapTable.new]

/-- The third of three tasks waits while the first yields to the second, which terminates. -/
theorem bounded_bypass_trio : ∃ s s' : Scheduler, ∃ js : List (Fin maxTasks),
    Lib.Run (Lib.Guarded (Waits ⟨2, by decide⟩) Turn) s
      [(.yieldCpu, some ⟨1, by decide⟩), (.terminateCurrentTask, some ⟨2, by decide⟩)] s' ∧
    s.currentTaskId = some 0 ∧ [some ⟨1, by decide⟩, some ⟨2, by decide⟩] = js.map some ∧ js.Nodup ∧
    js.length ≤ Lib.distance maxTasks 0 2 := by
  obtain ⟨m, m₁, m₂, hm, hm₁, hm₂, hcpu, hcpu₁, hcpu₂, hready, hready₁, hsel, hsel₁, hnext, hnext₁⟩ :
      ∃ m m₁ m₂ : Machine,
        (Machine.boot (ofList trio)).step (.yield ⟨1, by decide⟩) = some m ∧
        m.step (.yield ⟨1, by decide⟩) = some m₁ ∧ m₁.step .terminate = some m₂ ∧
        m.cpu = .task ⟨0, by decide⟩ ∧ m₁.cpu = .task ⟨1, by decide⟩ ∧
        m₂.cpu = .task ⟨2, by decide⟩ ∧ m.sched.isReady ⟨2, by decide⟩ = true ∧
        m₁.sched.isReady ⟨2, by decide⟩ = true ∧
        m.sched.yieldCpu.2.map Switch.next = some ⟨1, by decide⟩ ∧
        m₁.sched.terminateCurrentTask.2.map Switch.next = some ⟨2, by decide⟩ ∧
        m₁.sched.currentTaskId = m.sched.yieldCpu.1.currentTaskId ∧
        m₂.sched.currentTaskId = m₁.sched.terminateCurrentTask.1.currentTaskId :=
    ⟨_, _, _, rfl, rfl, rfl, rfl, rfl, rfl, rfl, rfl, rfl, rfl, rfl, rfl⟩
  have hwf : m.Wf := Machine.step_wf (Machine.wf_boot (by decide)) hm
  have hwf₁ := Machine.step_wf hwf hm₁
  have hwf₂ := Machine.step_wf hwf₁ hm₂
  have hcur := (hwf.current _ hcpu).1
  have hcur₁ := (hwf₁.current _ hcpu₁).1
  have hr : Lib.Run (Lib.Guarded (Waits ⟨2, by decide⟩) Turn) m.sched
      [(.yieldCpu, some ⟨1, by decide⟩), (.terminateCurrentTask, some ⟨2, by decide⟩)] m₂.sched :=
    .cons ⟨⟨hready, by rw [hcur]; decide⟩, hsel, hnext, table_of_wf hwf₁ hcpu₁⟩
      (.cons ⟨⟨hready₁, by rw [hcur₁]; decide⟩, hsel₁, hnext₁, table_of_wf hwf₂ hcpu₂⟩ (.nil _))
  obtain ⟨⟨js, hjs, hnodup, hlen, _⟩, _⟩ :=
    bounded_bypass (table_of_wf hwf hcpu) hcur (by decide) hr
  exact ⟨m.sched, m₂.sched, js, hr, hcur, hjs, hnodup, hlen⟩

end Scheduler

end Runix
