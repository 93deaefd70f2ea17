import Runix.Task
import Runix.Lib.Cyclic

namespace Runix

theorem maxTasks_pos : 0 < maxTasks := by decide

/-- What a scheduling decision hands to `switch_context`. -/
structure Switch where
  next : Fin maxTasks
  rsp : Nat
  kstackTop : Nat
  cr3 : Nat

namespace Scheduler

def isReady (s : Scheduler) (i : Fin maxTasks) : Bool :=
  match s.tasks i with
  | some t => t.state = .ready
  | none => false

def currentIndex (s : Scheduler) : Option (Fin maxTasks) :=
  match s.currentTaskId with
  | some id =>
    if h : id < maxTasks then
      if (s.tasks ⟨id, h⟩).isSome then some ⟨id, h⟩ else none
    else none
  | none => none

/-- The search loop of `yield_cpu` and `preempt_reschedule`: one turn through
the table, beginning after the executing task. -/
def nextReady (s : Scheduler) (curr : Fin maxTasks) : Option (Fin maxTasks) :=
  Lib.cyclicFind maxTasks_pos s.isReady ((curr + 1) % maxTasks)

def demote (s : Scheduler) (curr : Fin maxTasks) : Scheduler :=
  match s.tasks curr with
  | some t => if t.state = .running then s.set curr (some { t with state := .ready }) else s
  | none => s

/-- The selected task becomes Running and current. The switch itself takes
place only for a saved stack pointer that is not null. -/
def startRunning (s : Scheduler) (next : Fin maxTasks) : Scheduler × Option Switch :=
  match s.tasks next with
  | some t =>
    ({ s.set next (some { t with state := .running }) with currentTaskId := some t.id },
      if t.rsp ≠ 0 then some ⟨next, t.rsp, t.kstackTop, t.cr3⟩ else none)
  | none => (s, none)

/-- The decision that `yield_cpu` and `preempt_reschedule` take for a current
task. -/
def reschedule (s : Scheduler) (curr : Fin maxTasks) : Scheduler × Option Switch :=
  match s.nextReady curr with
  | some next => if next ≠ curr then (s.demote curr).startRunning next else (s, none)
  | none => (s, none)

/-- `yield_cpu`, up to the context switch. With no current task it starts the
first Ready one. -/
def yieldCpu (s : Scheduler) : Scheduler × Option Switch :=
  match s.currentIndex with
  | some curr => s.reschedule curr
  | none =>
    match (List.finRange maxTasks).find? s.isReady with
    | some next => s.startRunning next
    | none => (s, none)

/-- `preempt_reschedule`, up to the context switch. The interrupted code may
hold the scheduler lock; the tick is then deferred. -/
def preemptReschedule (locked : Bool) (s : Scheduler) : Scheduler × Option Switch :=
  if locked then (s, none)
  else
    match s.currentIndex with
    | some curr => s.reschedule curr
    | none => (s, none)

/-- The first half of `terminate_current_task`. -/
def markTerminated (s : Scheduler) : Scheduler :=
  match s.currentTaskId with
  | some id =>
    if h : id < maxTasks then
      match s.tasks ⟨id, h⟩ with
      | some t => s.set ⟨id, h⟩ (some { t with state := .terminated })
      | none => s
    else s
  | none => s

def wakeSenders (s : Scheduler) : Scheduler :=
  match s.currentTaskId with
  | some dead =>
    { s with tasks := fun i => (s.tasks i).map (fun t =>
        if t.state = .blockedOnSend dead then { t with state := .ready } else t) }
  | none => s

/-- The selection loop of `terminate_current_task`, which starts the first
Ready task it meets. -/
def terminateLoop (s : Scheduler) (start : Nat) : List Nat → Scheduler × Option Switch
  | [] => (s, none)
  | offset :: rest =>
    if s.isReady (Lib.wrap maxTasks_pos (start + offset)) then
      s.startRunning (Lib.wrap maxTasks_pos (start + offset))
    else terminateLoop s start rest

/-- `terminate_current_task`. Without a switch the processor halts for good. -/
def terminateCurrentTask (s : Scheduler) : Scheduler × Option Switch :=
  let start := match s.currentTaskId with
    | some id => (id + 1) % maxTasks
    | none => 0
  s.markTerminated.wakeSenders.terminateLoop start (List.range maxTasks)

/-- `switch_context` saves the stack pointer of the outgoing task. -/
def saveRsp (s : Scheduler) (old : Fin maxTasks) (sp : Nat) : Scheduler :=
  match s.tasks old with
  | some t => s.set old (some { t with rsp := sp })
  | none => s

theorem isReady_iff {s : Scheduler} {i : Fin maxTasks} :
    s.isReady i = true ↔ ∃ t, s.tasks i = some t ∧ t.state = .ready := by
  unfold isReady
  split <;> simp_all

theorem startRunning_eq {s : Scheduler} {next : Fin maxTasks} {t : Task}
    (h : s.tasks next = some t) : s.startRunning next =
      ({ s.set next (some { t with state := .running }) with currentTaskId := some t.id },
        if t.rsp ≠ 0 then some ⟨next, t.rsp, t.kstackTop, t.cr3⟩ else none) := by
  simp only [startRunning, h]

theorem demote_tasks (s : Scheduler) (curr i : Fin maxTasks) :
    (s.demote curr).tasks i = if i = curr then
      (s.tasks curr).map (fun t => if t.state = .running then { t with state := .ready } else t)
      else s.tasks i := by
  unfold demote
  cases h : s.tasks curr with
  | none =>
    simp only [Option.map_none]
    split <;> simp_all
  | some t =>
    simp only [Option.map_some]
    by_cases hr : t.state = .running
    · simp [hr, set_tasks]
    · simp only [hr, if_false]
      split <;> simp_all

theorem demote_other {s : Scheduler} {curr i : Fin maxTasks} (h : i ≠ curr) :
    (s.demote curr).tasks i = s.tasks i := by
  rw [demote_tasks, if_neg h]

/-- The loop that mutates as it searches starts exactly the task that the
search of the two other entry points returns. -/
theorem terminateLoop_eq (s : Scheduler) (start : Nat) :
    s.terminateLoop start (List.range maxTasks) =
      match Lib.cyclicFind maxTasks_pos s.isReady start with
      | some next => s.startRunning next
      | none => (s, none) := by
  unfold Lib.cyclicFind
  generalize List.range maxTasks = offsets
  induction offsets with
  | nil => rfl
  | cons offset rest ih =>
    unfold terminateLoop
    simp only [List.map_cons, List.find?_cons]
    split
    · rename_i h
      simp only [h]
    · rename_i h
      simp only [h]
      exact ih

end Scheduler

end Runix
