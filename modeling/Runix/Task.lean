import Runix.Message

namespace Runix

def maxTasks : Nat := 132

inductive TaskState where
  | ready
  | running
  | blockedOnReceive
  | blockedOnSend (target : TaskId)
  | terminated
  deriving DecidableEq

structure ExceptionFrame where
  registers : Fin 15 → UInt64
  vector : UInt64
  errorCode : UInt64
  rip : UInt64
  cs : UInt64
  rflags : UInt64
  rsp : UInt64
  ss : UInt64

structure Task where
  id : TaskId
  state : TaskState
  rsp : Nat
  kstackTop : Nat
  cr3 : Nat
  capTable : CapTable
  ipcBuffer : Option Message
  msgQueue : MessageQueue
  faultRegisters : Option ExceptionFrame

def stackSize : Nat := 32768

/-- `Task::new`: a Ready kernel task whose stack, the one reserved for its
slot, is primed with nine words. `stackBase` is the address of `TASK_STACKS` and
`pml4` the active address space. -/
def Task.new (stackBase pml4 : Nat) (id : TaskId) (capTable : CapTable) : Task :=
  let stackTop := stackBase + id * stackSize + stackSize
  { id := id, state := .ready, rsp := stackTop - 72, kstackTop := stackTop, cr3 := pml4
    capTable := capTable, ipcBuffer := none, msgQueue := MessageQueue.new
    faultRegisters := none }

/-- `Task::new_user`: thirteen words for the `iretq` frame, the trampoline and
the saved registers. -/
def Task.newUser (stackBase : Nat) (id : TaskId) (cr3 : Nat) (capTable : CapTable) : Task :=
  let kstackTop := stackBase + id * stackSize + stackSize
  { id := id, state := .ready, rsp := kstackTop - 104, kstackTop := kstackTop, cr3 := cr3
    capTable := capTable, ipcBuffer := none, msgQueue := MessageQueue.new
    faultRegisters := none }

@[ext] structure Scheduler where
  tasks : Fin maxTasks → Option Task
  currentTaskId : Option TaskId

namespace Scheduler

def ofList (ts : List Task) : Scheduler :=
  ⟨fun i => ts.find? (fun t => t.id = i), none⟩

def getTask (s : Scheduler) (id : TaskId) : Option Task :=
  if h : id < maxTasks then
    match s.tasks ⟨id, h⟩ with
    | some t => if t.id = id then some t else none
    | none => none
  else none

def set (s : Scheduler) (i : Fin maxTasks) (t : Option Task) : Scheduler :=
  { s with tasks := Function.update s.tasks i t }

/-- `if let Some(t) = sched.get_task_mut(id) { .. }`: changes the task found
under an identifier and does nothing when there is none. -/
def modify (s : Scheduler) (id : TaskId) (f : Task → Task) : Scheduler :=
  match s.getTask id with
  | some t => if h : id < maxTasks then s.set ⟨id, h⟩ (some (f t)) else s
  | none => s

@[simp] theorem set_currentTaskId (s : Scheduler) (i : Fin maxTasks) (t : Option Task) :
    (s.set i t).currentTaskId = s.currentTaskId := rfl

@[simp] theorem set_tasks_self (s : Scheduler) (i : Fin maxTasks) (t : Option Task) :
    (s.set i t).tasks i = t := by
  simp [set]

theorem set_tasks (s : Scheduler) (i j : Fin maxTasks) (t : Option Task) :
    (s.set i t).tasks j = if j = i then t else s.tasks j := by
  simp [set, Function.update_apply]

/-- Every occupied slot holds the task of that number, as all creators of
tasks arrange. -/
def Indexed (s : Scheduler) : Prop :=
  ∀ i t, s.tasks i = some t → t.id = i

theorem indexed_ofList (ts : List Task) : (ofList ts).Indexed := by
  intro i t h
  simpa using List.find?_some h

theorem getTask_some {s : Scheduler} {id : TaskId} {t : Task} (h : s.getTask id = some t) :
    t.id = id ∧ ∃ hi : id < maxTasks, s.tasks ⟨id, hi⟩ = some t := by
  unfold getTask at h
  split at h
  · rename_i hi
    split at h
    · split at h
      · rename_i hid
        cases h
        exact ⟨hid, hi, by assumption⟩
      · cases h
    · cases h
  · cases h

theorem getTask_of_tasks {s : Scheduler} {i : Fin maxTasks} {t : Task}
    (h : s.tasks i = some t) (hid : t.id = i) : s.getTask i = some t := by
  simp [getTask, h, hid]

theorem Indexed.getTask {s : Scheduler} (hs : s.Indexed) (i : Fin maxTasks) :
    s.getTask i = s.tasks i := by
  cases h : s.tasks i with
  | none => simp [Scheduler.getTask, h]
  | some t => exact getTask_of_tasks h (hs i t h)

theorem modify_none {s : Scheduler} {id : TaskId} {f : Task → Task}
    (h : s.getTask id = none) : s.modify id f = s := by
  simp [modify, h]

theorem modify_some {s : Scheduler} {id : TaskId} {t : Task} (h : s.getTask id = some t)
    (hlt : id < maxTasks) (f : Task → Task) : s.modify id f = s.set ⟨id, hlt⟩ (some (f t)) := by
  simp [modify, h, hlt]

theorem getTask_modify_self (s : Scheduler) (id : TaskId) {f : Task → Task}
    (hf : ∀ t, (f t).id = t.id) : (s.modify id f).getTask id = (s.getTask id).map f := by
  cases h : s.getTask id with
  | none => rw [modify_none h, h, Option.map_none]
  | some t =>
    obtain ⟨hid, hlt, _⟩ := getTask_some h
    rw [modify_some h hlt, Option.map_some]
    exact getTask_of_tasks (i := ⟨id, hlt⟩) (set_tasks_self ..) ((hf t).trans hid)

theorem getTask_modify_ne (s : Scheduler) {id other : TaskId} (h : other ≠ id) {f : Task → Task} :
    (s.modify id f).getTask other = s.getTask other := by
  cases ht : s.getTask id with
  | none => rw [modify_none ht]
  | some t =>
    obtain ⟨_, hlt, _⟩ := getTask_some ht
    rw [modify_some ht hlt]
    by_cases ho : other < maxTasks
    · have hne : (⟨other, ho⟩ : Fin maxTasks) ≠ ⟨id, hlt⟩ := by
        simpa using h
      simp [getTask, ho, set_tasks, hne]
    · simp [getTask, ho]

theorem modify_currentTaskId (s : Scheduler) (id : TaskId) (f : Task → Task) :
    (s.modify id f).currentTaskId = s.currentTaskId := by
  unfold modify
  split
  · split <;> rfl
  · rfl

/-- Two changes of one task are one change. -/
theorem modify_modify (s : Scheduler) (id : TaskId) {f g : Task → Task}
    (hf : ∀ t, (f t).id = t.id) : (s.modify id f).modify id g = s.modify id (fun t => g (f t)) := by
  cases h : s.getTask id with
  | none => rw [modify_none h, modify_none h, modify_none h]
  | some t =>
    obtain ⟨_, hlt, _⟩ := getTask_some h
    have hget : (s.modify id f).getTask id = some (f t) := by
      rw [getTask_modify_self s id hf, h, Option.map_some]
    rw [modify_some hget hlt, modify_some h hlt, modify_some h hlt]
    simp [set]

theorem Indexed.modify {s : Scheduler} (hs : s.Indexed) {i : Fin maxTasks} {t : Task}
    (h : s.tasks i = some t) (f : Task → Task) : s.modify i f = s.set i (some (f t)) := by
  simp [Scheduler.modify, hs.getTask, h]

theorem Indexed.getTask_id {s : Scheduler} (hs : s.Indexed) {i : Fin maxTasks} {t : Task}
    (h : s.tasks i = some t) : s.getTask t.id = some t := by
  rw [hs i t h, hs.getTask, h]

theorem Indexed.modify_id {s : Scheduler} (hs : s.Indexed) {i : Fin maxTasks} {t : Task}
    (h : s.tasks i = some t) (f : Task → Task) : s.modify t.id f = s.set i (some (f t)) := by
  rw [hs i t h, hs.modify h]

theorem Indexed.set {s : Scheduler} (hs : s.Indexed) {i : Fin maxTasks} {t : Task}
    (ht : t.id = i) : (s.set i (some t)).Indexed := by
  intro j u hu
  rw [set_tasks] at hu
  split at hu
  · cases hu
    rename_i hj
    rw [hj, ht]
  · exact hs j u hu

end Scheduler

end Runix
