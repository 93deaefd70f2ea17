import Runix.Machine
import Runix.Proofs.Scheduler
import Runix.Proofs.Ipc

namespace Runix

namespace Scheduler

variable {s : Scheduler} {i : Fin maxTasks} {t u : Task}

def table (s : Scheduler) (k : Fin maxTasks) : Option CapTable := (s.tasks k).map Task.capTable

theorem table_set (ht : s.tasks i = some t) (hu : u.capTable = t.capTable) (k : Fin maxTasks) :
    (s.set i (some u)).table k = s.table k := by
  unfold table
  rw [set_tasks]
  split
  · rename_i hk
    rw [hk, ht, Option.map_some, Option.map_some, hu]
  · rfl

theorem table_killed (ht : s.tasks i = some t) (k : Fin maxTasks) :
    (s.killed i t).table k = s.table k := by
  unfold table killed
  simp only
  split
  · rename_i hk
    rw [hk, ht]
    rfl
  · rw [Option.map_map]
    congr 1
    funext u
    simp only [Function.comp, Task.woken]
    split <;> rfl

end Scheduler

namespace Machine

structure Wf (m : Machine) : Prop where
  indexed : m.sched.Indexed
  resumable : m.sched.Resumable
  boot : m.cpu = .boot → m.sched.currentTaskId = none
  current : ∀ i, m.cpu = .task i → m.sched.currentTaskId = some i.val ∧ ∃ t, m.sched.tasks i = some t
  occupied : ∀ id, m.sched.currentTaskId = some id → ∃ i t, i.val = id ∧ m.sched.tasks i = some t

/-- Control moves over a call of `yield_cpu`, or stays where a tick or the
task's own yield found it. -/
inductive Paused : Pc → Pc → Prop where
  | here (p : Pc) : Paused p p
  | send (a : SendArgs) : Paused (.sendWait a) (.sendCheck a)
  | receive : Paused .receiveWait .receive

def passed (m : Machine) (i : Fin maxTasks) (t : Task) (sp : StackPointer) (j : Fin maxTasks)
    (u : Task) : Machine :=
  { m with
    sched := (m.sched.set i (some { t.paused with rsp := sp })).started j u, cpu := .task j }

inductive Effect (m : Machine) : Action → Machine → Prop where
  | refused {i act capIdx e} (hi : m.cpu = .task i) (hp : m.pc i = .user) :
      Effect m act (({ m with calls := m.calls + 1 } : Machine).log
        [.sendReturned i m.calls capIdx (.error e)])
  | entered {i capIdx tag version payload a} (hi : m.cpu = .task i) (hp : m.pc i = .user)
      (ha : a.call = m.calls) :
      Effect m (.sendTyped capIdx tag version payload)
        (({ m with calls := m.calls + 1 } : Machine).setPc i (.send a))
  | asyncEntered {i act a} (hi : m.cpu = .task i) (hp : m.pc i = .user) (ha : a.call = m.calls) :
      Effect m act (({ m with calls := m.calls + 1 } : Machine).setPc i (.sendAsync a))
  | receiveEntered {i act p} (hi : m.cpu = .task i) (hp : m.pc i = .user)
      (hp' : p = .receive ∨ p = .receiveAsync) : Effect m act (m.setPc i p)
  | rejected {i sp t a} (hi : m.cpu = .task i) (ht : m.sched.tasks i = some t)
      (hp : m.pc i = .send a) (hc : t.capTable.channel a.capIdx = none) :
      Effect m (.proceed sp) ((m.setTask i { t with ipcBuffer := none }).returnSend i a
        (.error .noCapability))
  | deposited {i sp t a j u} (hi : m.cpu = .task i) (ht : m.sched.tasks i = some t)
      (hp : m.pc i = .send a) (hc : t.capTable.channel a.capIdx = some j.val)
      (hu : m.sched.tasks j = some u) (hst : u.state = .blockedOnReceive) :
      Effect m (.proceed sp) (((m.setTask j
        { u with ipcBuffer := some (a.message i), state := .ready }).returnSend i a (.ok ())).log
        [.delivered (a.message i) j])
  | foundGone {i sp t a r} (hi : m.cpu = .task i) (ht : m.sched.tasks i = some t)
      (hp : m.pc i = .send a) (hc : t.capTable.channel a.capIdx = some r)
      (hg : m.sched.Gone r) : Effect m (.proceed sp) (m.setPc i (.sendGone a))
  | parked {i sp t a r} (hi : m.cpu = .task i) (ht : m.sched.tasks i = some t)
      (hp : m.pc i = .send a) (hc : t.capTable.channel a.capIdx = some r)
      (hg : m.sched.Alive r) :
      Effect m (.proceed sp) ((m.setTask i { t with
        state := .blockedOnSend r, ipcBuffer := some (a.message i) }).setPc i (.sendWait a))
  | gone {i sp t a} (hi : m.cpu = .task i) (ht : m.sched.tasks i = some t)
      (hp : m.pc i = .sendGone a) :
      Effect m (.proceed sp) ((m.setTask i { t with ipcBuffer := none }).returnSend i a (.error .targetGone))
  | consumed {i sp t a} (hi : m.cpu = .task i) (ht : m.sched.tasks i = some t)
      (hp : m.pc i = .sendCheck a) (hb : t.ipcBuffer = none) :
      Effect m (.proceed sp) (m.returnSend i a (.ok ()))
  | retried {i sp t a msg} (hi : m.cpu = .task i) (ht : m.sched.tasks i = some t)
      (hp : m.pc i = .sendCheck a) (hb : t.ipcBuffer = some msg) :
      Effect m (.proceed sp) (m.setPc i (.send a))
  | asyncRefused {i sp a e} (hi : m.cpu = .task i) (hp : m.pc i = .sendAsync a) :
      Effect m (.proceed sp) (m.returnSend i a (.error e))
  | enqueued {i sp t a j u queue} (hi : m.cpu = .task i) (ht : m.sched.tasks i = some t)
      (hp : m.pc i = .sendAsync a) (hc : t.capTable.channel a.capIdx = some j.val)
      (hu : m.sched.tasks j = some u) (hst : u.state ≠ .terminated)
      (hq : u.msgQueue.enqueue (a.message i) = some queue) :
      Effect m (.proceed sp) (((m.setTask j { u with
        msgQueue := queue
        state := if u.state = .blockedOnReceive then .ready else u.state }).returnSend i a
          (.ok ())).log [.delivered (a.message i) j])
  | receivedQueue {i sp t msg queue} (hi : m.cpu = .task i) (ht : m.sched.tasks i = some t)
      (hp : m.pc i = .receive ∨ m.pc i = .receiveAsync)
      (hq : t.msgQueue.contents = msg :: Lib.Ring.contents queue) :
      Effect m (.proceed sp) (((m.setTask i { t with msgQueue := queue }).setPc i .user).log
        [.receiveReturned i (.ok msg)])
  | receivedBuffer {i sp t msg} (hi : m.cpu = .task i) (ht : m.sched.tasks i = some t)
      (hp : m.pc i = .receive ∨ m.pc i = .receiveAsync)
      (hq : t.msgQueue.contents = []) (hb : t.ipcBuffer = some msg) :
      Effect m (.proceed sp) (((m.setTask i { t with ipcBuffer := none }).setPc i .user).log
        [.receiveReturned i (.ok msg)])
  | receivedSender {i sp t j u t'} (hi : m.cpu = .task i) (ht : m.sched.tasks i = some t)
      (hp : m.pc i = .receive ∨ m.pc i = .receiveAsync)
      (hq : t.msgQueue.contents = []) (hb : t.ipcBuffer = none)
      (hu : m.sched.tasks j = some u) (hst : u.state = .blockedOnSend i)
      (ht' : (m.setTask j { u with ipcBuffer := none, state := .ready }).sched.tasks i = some t') :
      Effect m (.proceed sp) (((m.setTask j { u with ipcBuffer := none, state := .ready }).setTask i
        { t' with state := .running }).returnReceive i (.sender u.id)
          (Scheduler.okOrTargetGone u.ipcBuffer))
  | receiveBlocked {i sp t} (hi : m.cpu = .task i) (ht : m.sched.tasks i = some t)
      (hp : m.pc i = .receive) (hq : t.msgQueue.contents = []) (hb : t.ipcBuffer = none)
      (hs : ∀ j u, m.sched.tasks j = some u → u.state ≠ .blockedOnSend i) :
      Effect m (.proceed sp) ((m.setTask i { t with state := .blockedOnReceive }).setPc i .receiveWait)
  | receiveEmpty {i sp} (hi : m.cpu = .task i) (hp : m.pc i = .receiveAsync) :
      Effect m (.proceed sp) ((m.setPc i .user).log [.receiveReturned i (.error .noMessage)])
  | stayed {i act p} (hi : m.cpu = .task i) (hp : Paused (m.pc i) p)
      (hidle : ∀ j u, j ≠ i → m.sched.tasks j = some u → u.state ≠ .ready) :
      Effect m act (m.setPc i p)
  | switched {i act t p j u} (sp : StackPointer) (hi : m.cpu = .task i)
      (ht : m.sched.tasks i = some t) (hp : Paused (m.pc i) p) (hj : j ≠ i)
      (hu : m.sched.tasks j = some u) (hst : u.state = .ready) :
      Effect m act ((m.setPc i p).passed i t sp j u)
  | idled {act} (hb : m.cpu = .boot) : Effect m act m
  | started {act j u} (hb : m.cpu = .boot) (hu : m.sched.tasks j = some u)
      (hst : u.state = .ready) :
      Effect m act { m with sched := m.sched.started j u, cpu := .task j }
  | bootHalted {act} (hb : m.cpu = .boot) : Effect m act { m with cpu := .halted }
  | died {i t} (hi : m.cpu = .task i) (ht : m.sched.tasks i = some t) :
      Effect m .terminate { m.setPc i .dead with sched := m.sched.killed i t, cpu := .halted }
  | succeeded {i t j u} (hi : m.cpu = .task i) (ht : m.sched.tasks i = some t)
      (hu : (m.sched.killed i t).tasks j = some u) (hst : u.state = .ready) :
      Effect m .terminate
        { m.setPc i .dead with sched := (m.sched.killed i t).started j u, cpu := .task j }
  | created {i ring3 stackBase cr3 capTable} {t : Task} (hcpu : m.cpu ≠ .halted)
      (hfree : ∀ u, m.sched.tasks i = some u → u.state = .terminated)
      (hid : t.id = i.val) (hst : t.state = .ready) (hrsp : t.rsp ≠ 0) (hb : t.ipcBuffer = none)
      (hq : t.msgQueue.contents = []) :
      Effect m (.create i ring3 stackBase cr3 capTable) ((m.setTask i t).setPc i .user)
  | revoked {j u capIdx} (hcpu : m.cpu ≠ .halted) (hu : m.sched.tasks j = some u) :
      Effect m (.revoke j capIdx) (m.setTask j { u with capTable := u.capTable.clear capIdx })
  | revokedNothing {task capIdx} (hcpu : m.cpu ≠ .halted) : Effect m (.revoke task capIdx) m

variable {m m' : Machine} {i : Fin maxTasks} {t : Task} {act : Action} {sp : StackPointer}

theorem proceedSend_effect (hm : m.Wf) (hi : m.cpu = .task i) (ht : m.sched.tasks i = some t)
    {a : SendArgs} (hp : m.pc i = .send a) : m.Effect (.proceed sp) (m.proceedSend i a) := by
  unfold proceedSend
  rcases Scheduler.sendRegion_cases hm.indexed ht a with ⟨hc, heq⟩ | ⟨r, hc, hrest⟩
  · simp only [heq]
    exact .rejected hi ht hp hc
  · rcases hrest with ⟨hg, heq⟩ | ⟨j, u, rfl, hu, hst, heq⟩ | ⟨hg, heq⟩
    · simp only [heq]
      exact .foundGone hi ht hp hc hg
    · simp only [heq]
      exact .deposited hi ht hp hc hu hst
    · simp only [heq]
      exact .parked hi ht hp hc hg

theorem proceedSendAsync_effect (hm : m.Wf) (hi : m.cpu = .task i)
    (ht : m.sched.tasks i = some t) {a : SendArgs} (hp : m.pc i = .sendAsync a) :
    m.Effect (.proceed sp) (m.proceedSendAsync i a) := by
  unfold proceedSendAsync
  rcases Scheduler.sendAsyncRegion_cases hm.indexed ht a with
    ⟨e, heq⟩ | ⟨j, u, queue, hc, hu, hst, hq, heq⟩
  · simp only [heq]
    exact .asyncRefused hi hp
  · simp only [heq]
    exact .enqueued hi ht hp hc hu hst hq

theorem proceedCheck_effect (hm : m.Wf) (hi : m.cpu = .task i) (ht : m.sched.tasks i = some t)
    {a : SendArgs} (hp : m.pc i = .sendCheck a) : m.Effect (.proceed sp) (m.proceedCheck i a) := by
  unfold proceedCheck
  rw [hm.indexed.getTask, ht]
  cases hb : t.ipcBuffer with
  | none =>
    simp only [hb, Option.isNone_none, if_true]
    exact .consumed hi ht hp hb
  | some msg =>
    simp only [hb, Option.isNone_some, Bool.false_eq_true, if_false]
    exact .retried hi ht hp hb

/-- Both receive functions, apart from what they do with nothing to receive. -/
theorem receiveAttempt_effect (hm : m.Wf) (hi : m.cpu = .task i) (ht : m.sched.tasks i = some t)
    (hp : m.pc i = .receive ∨ m.pc i = .receiveAsync) :
    (∃ sched source result, m.sched.receiveAttempt i = (sched, some (source, result)) ∧
      m.Effect (.proceed sp) (({ m with sched := sched } : Machine).returnReceive i source result)) ∨
    (m.sched.receiveAttempt i = (m.sched, none) ∧ t.msgQueue.contents = [] ∧ t.ipcBuffer = none ∧
      ∀ j u, m.sched.tasks j = some u → u.state ≠ .blockedOnSend i) := by
  rcases Scheduler.receiveAttempt_cases hm.indexed ht with
    ⟨msg, queue, hq, heq⟩ | ⟨hq, ⟨msg, hb, heq⟩ | ⟨hb, ⟨j, u, t', hu, hst, ht', heq⟩ | ⟨hs, heq⟩⟩⟩
  · exact .inl ⟨_, _, _, heq, .receivedQueue hi ht hp hq⟩
  · exact .inl ⟨_, _, _, heq, .receivedBuffer hi ht hp hq hb⟩
  · exact .inl ⟨_, _, _, heq, .receivedSender hi ht hp hq hb hu hst ht'⟩
  · exact .inr ⟨heq, hq, hb, hs⟩

theorem proceedReceive_effect (hm : m.Wf) (hi : m.cpu = .task i) (ht : m.sched.tasks i = some t)
    (hp : m.pc i = .receive) : m.Effect (.proceed sp) (m.proceedReceive i) := by
  unfold proceedReceive
  rcases receiveAttempt_effect hm hi ht (.inl hp) with
    ⟨sched, source, result, heq, heff⟩ | ⟨heq, hq, hb, hs⟩
  · simp only [heq]
    exact heff
  · simp only [heq, hm.indexed.modify ht]
    exact .receiveBlocked hi ht hp hq hb hs

theorem proceedReceiveAsync_effect (hm : m.Wf) (hi : m.cpu = .task i)
    (ht : m.sched.tasks i = some t) (hp : m.pc i = .receiveAsync) :
    m.Effect (.proceed sp) (m.proceedReceiveAsync i) := by
  unfold proceedReceiveAsync
  rcases receiveAttempt_effect hm hi ht (.inr hp) with ⟨sched, source, result, heq, heff⟩ | ⟨heq, _⟩
  · simp only [heq]
    exact heff
  · simp only [heq]
    exact .receiveEmpty hi hp

/-- A decision of `yield_cpu` or `preempt_reschedule` for the running task. -/
theorem switchTo_effect (hm : m.Wf) (hi : m.cpu = .task i) (ht : m.sched.tasks i = some t)
    {p : Pc} (hp : Paused (m.pc i) p) (sp : StackPointer) :
    m.Effect act ((m.setPc i p).switchTo (m.sched.reschedule i) sp) := by
  rcases Scheduler.reschedule_cases hm.indexed hm.resumable ht with
    ⟨heq, hidle⟩ | ⟨j, u, hj, hu, hst, heq⟩
  · rw [heq]
    exact .stayed hi hp hidle
  · have hcpu : (m.setPc i p).cpu = .task i := hi
    simp only [switchTo, heq, hcpu, Scheduler.saveRsp_started hj]
    exact .switched sp hi ht hp hj hu hst

theorem setPc_self (m : Machine) (i : Fin maxTasks) : m.setPc i (m.pc i) = m := by
  simp [setPc]

theorem proceed_effect (hm : m.Wf) (hi : m.cpu = .task i)
    (h : m.proceed i sp = some m') : m.Effect (.proceed sp) m' := by
  obtain ⟨hc, t, ht⟩ := hm.current i hi
  unfold proceed at h
  rw [Scheduler.yieldCpu_eq hc ht] at h
  cases hp : m.pc i with
  | user | dead => simp [hp] at h
  | send a =>
    simp only [hp, Option.some.injEq] at h
    subst h
    exact proceedSend_effect hm hi ht hp
  | sendGone a =>
    simp only [hp, Option.some.injEq, hm.indexed.modify ht] at h
    subst h
    exact .gone hi ht hp
  | sendWait a =>
    simp only [hp, Option.some.injEq] at h
    subst h
    exact switchTo_effect hm hi ht (hp ▸ .send a) sp
  | sendCheck a =>
    simp only [hp, Option.some.injEq] at h
    subst h
    exact proceedCheck_effect hm hi ht hp
  | receive =>
    simp only [hp, Option.some.injEq] at h
    subst h
    exact proceedReceive_effect hm hi ht hp
  | receiveWait =>
    simp only [hp, Option.some.injEq] at h
    subst h
    exact switchTo_effect hm hi ht (hp ▸ .receive) sp
  | sendAsync a =>
    simp only [hp, Option.some.injEq] at h
    subst h
    exact proceedSendAsync_effect hm hi ht hp
  | receiveAsync =>
    simp only [hp, Option.some.injEq] at h
    subst h
    exact proceedReceiveAsync_effect hm hi ht hp

theorem enter_effect (hm : m.Wf) (hi : m.cpu = .task i) (hp : m.pc i = .user)
    (h : m.enter i act = some m') : m.Effect act m' := by
  obtain ⟨hc, t, ht⟩ := hm.current i hi
  cases act with
  | sendTyped capIdx tag version payload =>
    cases h
    unfold enterSend
    split
    · exact .refused hi hp
    · rename_i a ha
      exact .entered hi hp (beginSend_ok ha).1
  | sendAsync capIdx tag version payload =>
    cases h
    unfold enterSend
    split
    · exact .refused hi hp
    · rename_i a ha
      exact .asyncEntered hi hp (beginSend_ok ha).1
  | receiveTyped =>
    cases h
    exact .receiveEntered hi hp (.inl rfl)
  | receiveAsync =>
    cases h
    exact .receiveEntered hi hp (.inr rfl)
  | yield sp =>
    simp only [enter, Option.some.injEq, Scheduler.yieldCpu_eq hc ht] at h
    subst h
    have heff : m.Effect (.yield sp) _ := switchTo_effect hm hi ht (.here (m.pc i)) sp
    rwa [setPc_self] at heff
  | proceed | tick | terminate | create | revoke => cases h

theorem terminate_effect (hm : m.Wf) (hi : m.cpu = .task i) :
    m.Effect .terminate ((m.setPc i .dead).abandon m.sched.terminateCurrentTask) := by
  obtain ⟨hc, t, ht⟩ := hm.current i hi
  have hk := Scheduler.wakeSenders_markTerminated hc ht
  unfold Scheduler.terminateCurrentTask
  rw [hk]
  rcases Scheduler.terminateLoop_cases (Scheduler.indexed_killed hm.indexed ht)
    (Scheduler.resumable_killed hm.resumable ht) _ with heq | ⟨j, u, hu, hst, heq⟩
  · rw [heq]
    exact .died hi ht
  · rw [heq]
    exact .succeeded hi ht hu hst

/-- Before the first task runs there is nothing to terminate and nobody to
wake. -/
theorem terminate_boot_effect (hm : m.Wf) (hb : m.cpu = .boot) :
    m.Effect act (m.abandon m.sched.terminateCurrentTask) := by
  have hc := hm.boot hb
  have hk : m.sched.markTerminated.wakeSenders = m.sched := by
    have hmark : m.sched.markTerminated = m.sched := by simp [Scheduler.markTerminated, hc]
    rw [hmark]
    simp [Scheduler.wakeSenders, hc]
  unfold Scheduler.terminateCurrentTask
  rw [hk]
  rcases Scheduler.terminateLoop_cases hm.indexed hm.resumable _ with heq | ⟨j, u, hu, hst, heq⟩
  · rw [heq]
    exact .bootHalted hb
  · rw [heq]
    exact .started hb hu hst

theorem create_some (h : m.create i t = some m') :
    (∀ u, m.sched.tasks i = some u → u.state = .terminated) ∧
      m' = (m.setTask i t).setPc i .user := by
  unfold create at h
  split at h
  · rename_i hn
    exact ⟨fun u hu => by simp [hn] at hu, (Option.some.inj h).symm⟩
  · rename_i u hu
    split at h
    · rename_i hst
      refine ⟨fun v hv => ?_, (Option.some.inj h).symm⟩
      cases hu.symm.trans hv
      exact hst
    · cases h

theorem create_effect {ring3 : Bool} {stackBase cr3 : Nat} {capTable : CapTable}
    (hcpu : m.cpu ≠ .halted) (h : m.create i (freshTask i ring3 stackBase cr3 capTable) = some m') :
    m.Effect (.create i ring3 stackBase cr3 capTable) m' := by
  obtain ⟨hfree, rfl⟩ := create_some h
  cases ring3 with
  | true =>
    exact .created hcpu hfree rfl rfl
      (by simp only [freshTask, Task.newUser, stackSize, if_true]; omega) rfl
      (Lib.Ring.contents_empty _)
  | false =>
    exact .created hcpu hfree rfl rfl
      (by simp only [freshTask, Task.new, stackSize, Bool.false_eq_true, if_false]; omega) rfl
      (Lib.Ring.contents_empty _)

theorem revoke_effect (hm : m.Wf) (hcpu : m.cpu ≠ .halted) (task : TaskId) (capIdx : Nat) :
    m.Effect (.revoke task capIdx) { m with sched := m.sched.modify task (fun t =>
      { t with capTable := (t.capTable.kernelRevoke capIdx).2 }) } := by
  cases ht : m.sched.getTask task with
  | none =>
    rw [Scheduler.modify_none ht]
    exact .revokedNothing hcpu
  | some u =>
    obtain ⟨hid, hlt, hu⟩ := Scheduler.getTask_some ht
    have hmod := hm.indexed.modify hu (fun t =>
      { t with capTable := (t.capTable.kernelRevoke capIdx).2 })
    simp only at hmod
    rw [hmod]
    exact .revoked hcpu hu

theorem isUser_iff {p : Pc} : isUser p = true ↔ p = .user := by
  cases p <;> simp [isUser]

/-- The inversion of `step`. -/
theorem step_effect (hm : m.Wf) (h : m.step act = some m') : m.Effect act m' := by
  unfold step at h
  split at h
  · cases h
  · exact create_effect (by assumption) h
  · cases h
    exact revoke_effect hm (by assumption) _ _
  · rename_i sp hcpu
    cases h
    cases hb : m.cpu with
    | halted => exact absurd hb hcpu
    | boot =>
      rw [Scheduler.preemptReschedule_boot (hm.boot hb)]
      exact .idled hb
    | task i =>
      obtain ⟨hc, t, ht⟩ := hm.current i hb
      rw [Scheduler.preemptReschedule_eq hc ht]
      have heff : m.Effect (.tick sp) _ := switchTo_effect hm hb ht (.here (m.pc i)) sp
      rwa [setPc_self] at heff
  · rename_i sp hb
    cases h
    rcases Scheduler.yieldCpu_boot hm.indexed hm.resumable (hm.boot hb) with
      heq | ⟨j, u, hu, hst, heq⟩
    · rw [heq]
      exact .idled hb
    · simp only [switchTo, heq, hb]
      exact .started hb hu hst
  · rename_i hb
    cases h
    exact terminate_boot_effect hm hb
  · cases h
  · rename_i hi
    cases h
    exact terminate_effect hm hi
  · rename_i hi
    exact proceed_effect hm hi h
  · rename_i hi _ _ _ _ _
    split at h
    · exact enter_effect hm hi (isUser_iff.mp (by assumption)) h
    · cases h

theorem Wf.of_same (h : m.Wf) (hs : m'.sched = m.sched) (hc : m'.cpu = m.cpu) : m'.Wf := by
  obtain ⟨h1, h2, h3, h4, h5⟩ := h
  exact ⟨hs ▸ h1, hs ▸ h2, hs ▸ hc ▸ h3, hs ▸ hc ▸ h4, hs ▸ h5⟩

/-- Replacing a task by one of the same number that can be resumed. -/
theorem Wf.replaced (h : m.Wf) {i : Fin maxTasks} {t : Task}
    (hs : m'.sched = m.sched.set i (some t)) (hc : m'.cpu = m.cpu) (hid : t.id = i.val)
    (hr : t.rsp ≠ 0) : m'.Wf := by
  have hocc : ∀ k u, m.sched.tasks k = some u → ∃ v, m'.sched.tasks k = some v := by
    intro k u hu
    rw [hs, Scheduler.set_tasks]
    split
    · exact ⟨t, rfl⟩
    · exact ⟨u, hu⟩
  refine ⟨hs ▸ h.indexed.set hid, fun k u hu => ?_, hs ▸ hc ▸ h.boot, fun k hk => ?_,
    fun id hcur => ?_⟩
  · rw [hs, Scheduler.set_tasks] at hu
    split at hu
    · cases hu
      exact hr
    · exact h.resumable k u hu
  · obtain ⟨hcur, u, hu⟩ := h.current k (hc ▸ hk)
    exact ⟨by rw [hs]; exact hcur, hocc k u hu⟩
  · obtain ⟨k, u, hk, hu⟩ := h.occupied id (by rw [hs] at hcur; exact hcur)
    obtain ⟨v, hv⟩ := hocc k u hu
    exact ⟨k, v, hk, hv⟩

theorem Wf.modified (h : m.Wf) {i : Fin maxTasks} {t t' : Task} (ht : m.sched.tasks i = some t)
    (hs : m'.sched = m.sched.set i (some t')) (hc : m'.cpu = m.cpu) (hid : t'.id = t.id)
    (hr : t'.rsp = t.rsp) : m'.Wf :=
  h.replaced hs hc (hid.trans (h.indexed i t ht)) (hr ▸ h.resumable i t ht)

/-- Passing the processor to an occupied slot. -/
theorem wf_started {s : Scheduler} {j : Fin maxTasks} {u : Task} (hs : s.Indexed)
    (hr : s.Resumable) (hu : s.tasks j = some u) (hm : m'.sched = s.started j u)
    (hc : m'.cpu = .task j) : m'.Wf := by
  have hj : m'.sched.tasks j = some { u with state := .running } := by
    rw [hm]
    exact Scheduler.set_tasks_self ..
  refine ⟨?_, fun k v hv => ?_, fun hb => ?_, fun k hk => ?_, fun id hcur => ?_⟩
  · rw [hm]
    exact hs.set (t := { u with state := .running }) (hs j u hu)
  · simp only [hm, Scheduler.started, Scheduler.set_tasks] at hv
    split at hv
    · cases hv
      exact hr j u hu
    · exact hr k v hv
  · cases hc.symm.trans hb
  · cases hc.symm.trans hk
    exact ⟨by rw [hm]; rfl, _, hj⟩
  · rw [hm] at hcur
    exact ⟨j, _, Option.some.inj hcur, hj⟩

theorem wf_halted (hs : m'.sched.Indexed) (hr : m'.sched.Resumable) (hc : m'.cpu = .halted)
    (ho : ∀ id, m'.sched.currentTaskId = some id → ∃ i t, i.val = id ∧ m'.sched.tasks i = some t) :
    m'.Wf :=
  ⟨hs, hr, fun hb => (by cases hc.symm.trans hb), fun _ hk => (by cases hc.symm.trans hk), ho⟩

theorem Effect.wf (he : m.Effect act m') (h : m.Wf) : m'.Wf := by
  cases he with
  | refused | entered | asyncEntered | receiveEntered | foundGone | consumed | retried
    | asyncRefused | receiveEmpty | stayed | idled | revokedNothing => exact h.of_same rfl rfl
  | rejected _ ht | gone _ ht | receivedQueue _ ht | receivedBuffer _ ht | receiveBlocked _ ht
    | parked _ ht =>
    exact h.modified ht rfl rfl rfl rfl
  | deposited _ _ _ _ hu | enqueued _ _ _ _ hu | revoked _ hu =>
    exact h.modified hu rfl rfl rfl rfl
  | @receivedSender i _ t j u t' _ _ _ _ _ hu _ ht' =>
    have h₁ : (m.setTask j { u with ipcBuffer := none, state := .ready }).Wf :=
      h.modified hu rfl rfl rfl rfl
    exact h₁.modified ht' rfl rfl rfl rfl
  | @switched i _ t _ j u sp _ ht _ hj hu =>
    have h₁ : (m.setTask i { t.paused with rsp := sp }).Wf :=
      h.replaced rfl rfl (h.indexed i t ht) sp.2
    refine wf_started h₁.indexed h₁.resumable ?_ rfl rfl
    rw [setTask_tasks, if_neg hj, hu]
  | started _ hu => exact wf_started h.indexed h.resumable hu rfl rfl
  | bootHalted => exact wf_halted h.indexed h.resumable rfl h.occupied
  | @died i t hi ht =>
    refine wf_halted (Scheduler.indexed_killed h.indexed ht)
      (Scheduler.resumable_killed h.resumable ht) rfl (fun id hcur => ?_)
    cases (h.current i hi).1.symm.trans hcur
    exact ⟨i, { t with state := .terminated }, rfl, by simp [Scheduler.killed]⟩
  | succeeded _ ht hu =>
    exact wf_started (Scheduler.indexed_killed h.indexed ht)
      (Scheduler.resumable_killed h.resumable ht) hu rfl rfl
  | created _ _ hid _ hrsp => exact h.replaced rfl rfl hid hrsp

theorem step_wf (h : m.Wf) (hstep : m.step act = some m') : m'.Wf :=
  (step_effect h hstep).wf h

/-- A step leaves a task its capabilities, unless it revokes one of them or puts another task in its
place. -/
theorem Effect.table_eq (he : m.Effect act m') (k : Fin maxTasks)
    (hrevoke : ∀ capIdx, act ≠ .revoke k.val capIdx)
    (hcreate : ∀ ring3 stackBase cr3 capTable, act ≠ .create k ring3 stackBase cr3 capTable) :
    m'.sched.table k = m.sched.table k := by
  cases he with
  | refused | entered | asyncEntered | receiveEntered | foundGone | consumed | retried
    | asyncRefused | receiveEmpty | stayed | idled | revokedNothing | bootHalted => rfl
  | rejected _ ht | gone _ ht | receivedQueue _ ht | receivedBuffer _ ht | receiveBlocked _ ht
    | parked _ ht => exact Scheduler.table_set ht (by rfl) k
  | deposited _ _ _ _ hu | enqueued _ _ _ _ hu => exact Scheduler.table_set hu (by rfl) k
  | receivedSender _ _ _ _ _ hu _ ht' =>
    exact (Scheduler.table_set ht' (by rfl) k).trans (Scheduler.table_set hu (by rfl) k)
  | @switched i _ t _ j u sp _ ht _ hj hu =>
    have hout : (m.sched.set i (some { t.paused with rsp := sp })).tasks j = some u := by
      rw [Scheduler.set_tasks, if_neg hj, hu]
    exact (Scheduler.table_set hout (by rfl) k).trans (Scheduler.table_set ht (by rfl) k)
  | started _ hu => exact Scheduler.table_set hu (by rfl) k
  | died _ ht => exact Scheduler.table_killed ht k
  | succeeded _ ht hu => exact (Scheduler.table_set hu (by rfl) k).trans (Scheduler.table_killed ht k)
  | @created i =>
    have hk : k ≠ i := by
      rintro rfl
      exact hcreate _ _ _ _ rfl
    exact congrArg (Option.map Task.capTable) (Function.update_of_ne hk ..)
  | @revoked j =>
    have hk : k ≠ j := by
      rintro rfl
      exact hrevoke _ rfl
    exact congrArg (Option.map Task.capTable) (Function.update_of_ne hk ..)

theorem wf_boot {ts : List Task} (h : ∀ t ∈ ts, t.rsp ≠ 0) :
    (boot (Scheduler.ofList ts)).Wf where
  indexed := Scheduler.indexed_ofList ts
  resumable _ t ht := h t (List.mem_of_find?_eq_some ht)
  boot _ := rfl
  current i hi := by cases hi
  occupied id hcur := by cases hcur

end Machine

end Runix
