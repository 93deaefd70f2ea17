import Runix.Lib.Fifo
import Runix.Message
import Runix.Service.Sync
import Runix.Service.Device

namespace Runix

def MessageQueue.step (q : MessageQueue) :
    Lib.QueueOp Message → Option (Lib.QueueAnswer Message × MessageQueue) :=
  Lib.Ring.step q

def SyncObject.step (obj : SyncObject) (op : Lib.QueueOp TaskId) :
    Option (Lib.QueueAnswer TaskId × SyncObject) :=
  (obj.wait.step op).map (fun next => (next.1, { obj with wait := next.2 }))

/-- `push` and `pop` of the keyboard's buffer. The interrupt handler hears nothing
of a byte that finds no room. -/
def Devices.keyStep (d : Devices) : Lib.QueueOp UInt8 → Option (Option UInt8 × Devices)
  | .insert byte => (d.press byte).map (fun d => (none, d))
  | .remove => d.tryRead .keyboard

/-- Where a message waits, its slot is filled. -/
theorem MessageQueue.head_filled (q : MessageQueue) (h : 0 < q.count) :
    ∃ msg, Lib.index q.buffer q.head = some (some msg) := by
  obtain ⟨msg, hmsg⟩ := q.isSome_slot h
  refine ⟨msg, ?_⟩
  rw [Lib.index_of_lt q.head_lt, q.slot_zero, hmsg]

def SyncObject.Waiting (obj : SyncObject) (l : List TaskId) : Prop :=
  obj.wait.Wf ∧ obj.wait.contents = l

theorem SyncObject.Waiting.step (obj : SyncObject) (l : List TaskId) (op : Lib.QueueOp TaskId)
    (h : obj.Waiting l) : ∃ obj' : SyncObject,
      obj.step op = some ((Lib.fifoStep syncMaxWait l op).1, obj') ∧
      obj'.Waiting (Lib.fifoStep syncMaxWait l op).2 := by
  obtain ⟨hwf, rfl⟩ := h
  obtain ⟨wait, hstep, hnext⟩ := hwf.step_refines op
  refine ⟨{ obj with wait := wait }, ?_, hnext⟩
  rw [SyncObject.step, hstep, Option.map_some]

theorem Devices.keyStep_eq (d : Devices) (op : Lib.QueueOp UInt8) :
    d.keyStep op =
      (d.keyboard.step op).map (fun next => (next.1.taken, { d with keyboard := next.2 })) := by
  cases op with
  | insert byte =>
    simp only [keyStep, press, Lib.Circular.step, Option.map_map]
    rfl
  | remove =>
    simp only [keyStep, tryRead, Lib.Circular.step, Option.map_map]
    rfl

def Devices.Typed (d : Devices) (l : List UInt8) : Prop :=
  d.keyboard.Wf ∧ d.keyboard.contents = l

theorem Devices.Typed.step (d : Devices) (l : List UInt8) (op : Lib.QueueOp UInt8)
    (h : d.Typed l) : ∃ d' : Devices,
      d.keyStep op = some ((Lib.fifoStep kbdCapacity l op).1.taken, d') ∧
      d'.Typed (Lib.fifoStep kbdCapacity l op).2 := by
  obtain ⟨hwf, rfl⟩ := h
  obtain ⟨ring, hstep, hnext⟩ := hwf.step_refines op
  refine ⟨{ d with keyboard := ring }, ?_, hnext⟩
  rw [keyStep_eq, hstep, Option.map_some]

theorem MessageQueue.fifo (ops : List (Lib.QueueOp Message)) :
    ∃ q : MessageQueue, Lib.operate MessageQueue.step MessageQueue.new ops =
        some ((Lib.fifo msgQueueCapacity [] ops).1, q) ∧
      q.contents = (Lib.fifo msgQueueCapacity [] ops).2 := by
  have hstep : ∀ (q : MessageQueue) (l : List Message) (op : Lib.QueueOp Message),
      q.contents = l → ∃ q' : MessageQueue,
        q.step op = some ((Lib.fifoStep msgQueueCapacity l op).1, q') ∧
        q'.contents = (Lib.fifoStep msgQueueCapacity l op).2 := by
    rintro q l op rfl
    exact Lib.Ring.step_refines q op
  obtain ⟨q, hrun, hq⟩ := Lib.operate_refines id hstep ops (s := MessageQueue.new) rfl
  rw [List.map_id] at hrun
  exact ⟨q, hrun, hq⟩

theorem SyncObject.fifo (obj : SyncObject) (ops : List (Lib.QueueOp TaskId)) :
    ∃ obj' : SyncObject, Lib.operate SyncObject.step { obj with wait := obj.wait.reset } ops =
        some ((Lib.fifo syncMaxWait [] ops).1, obj') ∧
      obj'.wait.Wf ∧ obj'.wait.contents = (Lib.fifo syncMaxWait [] ops).2 := by
  have hempty : obj.wait.reset.Wf ∧ obj.wait.reset.contents = [] :=
    ⟨Lib.Circular.reset_wf (by decide) _, rfl⟩
  obtain ⟨obj', hrun, hwf, hwait⟩ := Lib.operate_refines id Waiting.step ops
    (s := { obj with wait := obj.wait.reset }) hempty
  rw [List.map_id] at hrun
  exact ⟨obj', hrun, hwf, hwait⟩

theorem Devices.fifo (ops : List (Lib.QueueOp UInt8)) :
    ∃ d : Devices, Lib.operate Devices.keyStep Devices.new ops =
        some ((Lib.fifo kbdCapacity [] ops).1.map Lib.QueueAnswer.taken, d) ∧
      d.keyboard.Wf ∧ d.keyboard.contents = (Lib.fifo kbdCapacity [] ops).2 := by
  have hempty : Devices.new.Typed [] := ⟨Lib.Circular.new_wf (by decide) 0, rfl⟩
  exact Lib.operate_refines Lib.QueueAnswer.taken Typed.step ops hempty

/-- The three rings are bounded FIFO lists: after any operations on an empty ring the
answers so far are those of the list, the ring holds the elements of the list in its
order, and its counters agree. -/
theorem rings_are_fifo :
    (∀ ops : List (Lib.QueueOp Message), ∃ q : MessageQueue,
      Lib.operate MessageQueue.step MessageQueue.new ops =
        some ((Lib.fifo msgQueueCapacity [] ops).1, q) ∧
      q.contents = (Lib.fifo msgQueueCapacity [] ops).2 ∧
      Lib.Counters msgQueueCapacity q.head q.tail q.count ∧ q.contents.length = q.count ∧
      (0 < q.count → ∃ msg, Lib.index q.buffer q.head = some (some msg))) ∧
    (∀ (obj : SyncObject) (ops : List (Lib.QueueOp TaskId)), ∃ obj' : SyncObject,
      Lib.operate SyncObject.step { obj with wait := obj.wait.reset } ops =
        some ((Lib.fifo syncMaxWait [] ops).1, obj') ∧
      obj'.wait.contents = (Lib.fifo syncMaxWait [] ops).2 ∧
      Lib.Counters syncMaxWait obj'.wait.head obj'.wait.tail obj'.wait.count ∧
      obj'.wait.contents.length = obj'.wait.count) ∧
    (∀ ops : List (Lib.QueueOp UInt8), ∃ d : Devices,
      Lib.operate Devices.keyStep Devices.new ops =
        some ((Lib.fifo kbdCapacity [] ops).1.map Lib.QueueAnswer.taken, d) ∧
      d.keyboard.contents = (Lib.fifo kbdCapacity [] ops).2 ∧
      Lib.Counters kbdCapacity d.keyboard.head d.keyboard.tail d.keyboard.count ∧
      d.keyboard.contents.length = d.keyboard.count) := by
  refine ⟨fun ops => ?_, fun obj ops => ?_, fun ops => ?_⟩
  · obtain ⟨q, hrun, hq⟩ := MessageQueue.fifo ops
    exact ⟨q, hrun, hq, q.counters, q.length_contents, q.head_filled⟩
  · obtain ⟨obj', hrun, hwf, hwait⟩ := SyncObject.fifo obj ops
    exact ⟨obj', hrun, hwait, hwf.counters, hwf.length_contents⟩
  · obtain ⟨d, hrun, hwf, hkeys⟩ := Devices.fifo ops
    exact ⟨d, hrun, hkeys, hwf.counters, hwf.length_contents⟩

end Runix
