import Runix.Parties
import Runix.Proofs.Running
import Runix.Proofs.Provenance

namespace Runix

def Task.Awake (t : Task) : Prop := t.state = .ready ∨ t.state = .running

structure Task.Like (t t' : Task) : Prop where
  buffer : t'.ipcBuffer = t.ipcBuffer
  queue : t'.msgQueue = t.msgQueue
  caps : t'.capTable = t.capTable
  state : t'.state = t.state ∨ t.Awake ∧ t'.Awake

namespace Task

variable {t t' : Task}

theorem Like.refl (t : Task) : t.Like t := ⟨rfl, rfl, rfl, .inl rfl⟩

theorem Like.awake (h : t.Like t') (ha : t.Awake) : t'.Awake := by
  rcases h.state with heq | hboth
  · unfold Awake
    rw [heq]
    exact ha
  · exact hboth.2

theorem Like.state_eq {st : TaskState} (h : t.Like t') (hst : t.state = st) (hr : st ≠ .ready)
    (hs : st ≠ .running) : t'.state = st := by
  rcases h.state with heq | ⟨ha | ha, _⟩
  · exact heq.trans hst
  · exact absurd (hst.symm.trans ha) hr
  · exact absurd (hst.symm.trans ha) hs

/-- Being switched out, with a new stack pointer. -/
theorem like_paused (t : Task) (sp : Nat) : t.Like { t.paused with rsp := sp } := by
  refine ⟨rfl, rfl, rfl, ?_⟩
  simp only [paused]
  split
  · rename_i hrun
    exact .inr ⟨.inr hrun, .inl rfl⟩
  · exact .inl rfl

theorem like_started (h : t.state = .ready) : t.Like { t with state := .running } :=
  ⟨rfl, rfl, rfl, .inr ⟨.inl h, .inr rfl⟩⟩

theorem Awake.not_blockedOnSend (h : t.Awake) (r : TaskId) : t.state ≠ .blockedOnSend r := by
  intro hst
  rcases h with h | h <;> cases hst.symm.trans h

theorem Awake.not_terminated (h : t.Awake) : t.state ≠ .terminated := by
  intro hst
  rcases h with h | h <;> cases hst.symm.trans h

theorem Awake.not_blockedOnReceive (h : t.Awake) : t.state ≠ .blockedOnReceive := by
  intro hst
  rcases h with h | h <;> cases hst.symm.trans h

end Task

namespace Machine

variable {m m' : Machine} {i j k : Fin maxTasks} {t u : Task} {p : Pc} {sp : StackPointer}

structure Keeps (m m' : Machine) (k : Fin maxTasks) : Prop where
  task : ∀ t, m.sched.tasks k = some t → ∃ t', m'.sched.tasks k = some t' ∧ t.Like t'
  pc : Paused (m.pc k) (m'.pc k)
  cpu : ∀ t r, m.sched.tasks k = some t → t.state = .blockedOnSend r → m'.cpu = .task k →
    m.cpu = .task k ∧ m'.pc k = m.pc k

theorem keeps_same (hs : m'.sched.tasks k = m.sched.tasks k) (hp : m'.pc k = m.pc k)
    (hc : m'.cpu = m.cpu) : m.Keeps m' k := by
  refine ⟨fun t ht => ⟨t, hs.trans ht, .refl t⟩, ?_, fun _ _ _ _ hk => ⟨hc.symm.trans hk, hp⟩⟩
  rw [hp]
  exact .here _

/-- The processor goes to a Ready task. -/
theorem keeps_passed (ht : m.sched.tasks i = some t) (hp : Paused (m.pc i) p) (hj : j ≠ i)
    (hu : m.sched.tasks j = some u) (hst : u.state = .ready) (k : Fin maxTasks) :
    m.Keeps ((m.setPc i p).passed i t sp j u) k := by
  have htasks : ((m.setPc i p).passed i t sp j u).sched.tasks k =
      if k = j then some { u with state := .running }
      else if k = i then some { t.paused with rsp := sp } else m.sched.tasks k := by
    simp only [passed, Scheduler.started, Scheduler.set_tasks, setPc_sched]
  have hpc : ((m.setPc i p).passed i t sp j u).pc k = if k = i then p else m.pc k := setPc_pc ..
  refine ⟨fun v hv => ?_, ?_, fun v r hv hbs hk => ?_⟩
  · rw [htasks]
    by_cases hkj : k = j
    · subst hkj
      cases hu.symm.trans hv
      exact ⟨_, if_pos rfl, Task.like_started hst⟩
    · rw [if_neg hkj]
      by_cases hki : k = i
      · subst hki
        cases ht.symm.trans hv
        exact ⟨_, if_pos rfl, Task.like_paused ..⟩
      · exact ⟨v, by rw [if_neg hki, hv], .refl v⟩
  · rw [hpc]
    split
    · rename_i hki
      exact hki ▸ hp
    · exact .here _
  · cases hk
    cases hu.symm.trans hv
    cases hst.symm.trans hbs

/-- Nobody else is Ready, and the task on the processor goes round its loop. -/
theorem keeps_stayed (ht : m.sched.tasks i = some t) (hp : Paused (m.pc i) p)
    (hbs : ∀ r, t.state ≠ .blockedOnSend r) (k : Fin maxTasks) : m.Keeps (m.setPc i p) k := by
  by_cases hki : k = i
  · subst hki
    refine ⟨fun v hv => ⟨v, hv, .refl v⟩, ?_, fun v r hv hst => ?_⟩
    · rw [setPc_pc, if_pos rfl]
      exact hp
    · cases ht.symm.trans hv
      exact absurd hst (hbs r)
  · exact keeps_same rfl (by rw [setPc_pc, if_neg hki]) rfl

theorem keeps_started (hu : m.sched.tasks j = some u) (hst : u.state = .ready)
    (k : Fin maxTasks) :
    m.Keeps { m with sched := m.sched.started j u, cpu := .task j } k := by
  refine ⟨fun v hv => ?_, .here _, fun v r hv hbs hk => ?_⟩
  · by_cases hkj : k = j
    · subst hkj
      cases hu.symm.trans hv
      exact ⟨_, Scheduler.set_tasks_self .., Task.like_started hst⟩
    · exact ⟨v, by simp only [Scheduler.started, Scheduler.set_tasks, if_neg hkj, hv], .refl v⟩
  · cases hk
    cases hu.symm.trans hv
    cases hst.symm.trans hbs

def Receives (p : Pc) (t : Task) : Prop :=
  p = .user ∧ t.Awake ∨ (p = .receive ∨ p = .receiveWait) ∧ (t.Awake ∨ t.state = .blockedOnReceive)

theorem Receives.like {p p' : Pc} {t t' : Task} (h : Receives p t) (hl : t.Like t')
    (hp : Paused p p') : Receives p' t' := by
  rcases h with ⟨rfl, ha⟩ | ⟨hpc, ha⟩
  · cases hp
    exact .inl ⟨rfl, hl.awake ha⟩
  · refine .inr ⟨?_, ha.imp hl.awake (fun hr => hl.state_eq hr (by simp) (by simp))⟩
    rcases hpc with rfl | rfl
    · cases hp
      exact .inl rfl
    · cases hp
      · exact .inr rfl
      · exact .inl rfl

/-- Where a sender goes while it is parked. -/
theorem Paused.parked {p p' : Pc} {a : SendArgs} (hp : Paused p p')
    (h : p = .sendWait a ∨ p = .sendCheck a) : p' = .sendWait a ∨ p' = .sendCheck a := by
  rcases h with rfl | rfl
  · cases hp
    · exact .inl rfl
    · exact .inr rfl
  · cases hp
    exact .inr rfl

theorem Paused.receiving {p p' : Pc} (hp : Paused p p') (h : p = .receive ∨ p = .receiveWait) :
    p' = .receive ∨ p' = .receiveWait := by
  rcases h with rfl | rfl
  · cases hp
    exact .inl rfl
  · cases hp
    · exact .inr rfl
    · exact .inl rfl

end Machine

def Scheduler.Outside (s : Scheduler) (party : Fin maxTasks → Bool) : Prop :=
  ∀ (k : Fin maxTasks) (slot : Nat) (p : Fin maxTasks), party k = false →
    s.channel k slot = some p.val → party p = false

namespace Parties

variable {P : Parties} {i : Fin maxTasks}

theorem server_ne (P : Parties) (h : P.client i = true) : i ≠ P.server := by
  rintro rfl
  cases h.symm.trans P.apart

theorem party_of_client (h : P.client i = true) : P.party i = true := by
  simp [Parties.party, h]

theorem party_server (P : Parties) : P.party P.server = true := by
  simp [Parties.party]

theorem party_cases (h : P.party i = true) : P.client i = true ∨ i = P.server := by
  simpa [Parties.party] using h

end Parties

def Event.By (i : Fin maxTasks) : Event → Prop
  | .sendReturned j _ _ _ | .receiveReturned j _ => j = i
  | .delivered _ _ => True

namespace Machine

variable {m m' : Machine} {act : Action} {i j k : Fin maxTasks} {t u : Task} {a : SendArgs}
  {sp : StackPointer}

/-- A channel once held stays in its slot, as long as nobody revokes. -/
theorem Effect.channel_eq (he : m.Effect act m') (hrevoke : act.isRevoke = false)
    (hcreate : ∀ i ring3 stackBase cr3 table, act ≠ .create i ring3 stackBase cr3 table) :
    m'.sched.channel = m.sched.channel := by
  funext k slot
  have htable : ∀ s : Scheduler, s.channel k slot = (s.table k).bind (fun t => t.channel slot) := by
    intro s
    rw [Scheduler.channel, Scheduler.table, Option.bind_map]
    rfl
  rw [htable, htable, he.table_eq k ?_ (hcreate k)]
  rintro capIdx rfl
  cases hrevoke

/-- Tasks that do not wait for a dying task do not notice. -/
theorem killed_other (hk : k ≠ i) (hu : m.sched.tasks k = some u)
    (hbs : u.state ≠ .blockedOnSend i) : (m.sched.killed i t).tasks k = some u := by
  simp only [Scheduler.killed, if_neg hk, hu, Option.map_some, Task.woken, if_neg hbs]

/-- A step of task `i` leaves a task alone to which it does not send and which does not wait
for it. -/
theorem Effect.keeps (he : m.Effect act m') (hi : m.cpu = .task i) (hk : k ≠ i)
    (hrevoke : act.isRevoke = false)
    (hcreate : ∀ ring3 stackBase cr3 table, act ≠ .create k ring3 stackBase cr3 table)
    (hch : ∀ a, m.pc i = .send a ∨ m.pc i = .sendAsync a →
      m.sched.channel i a.capIdx ≠ some k.val)
    (hbs : ∀ u, m.sched.tasks k = some u → u.state ≠ .blockedOnSend i) : m.Keeps m' k := by
  have hpc : ∀ p, (m.setPc i p).pc k = m.pc k := fun p => update_pc_ne hk
  have target : ∀ {t : Task} {a : SendArgs} {j : Fin maxTasks},
      m.pc i = .send a ∨ m.pc i = .sendAsync a → m.sched.tasks i = some t →
      t.capTable.channel a.capIdx = some j.val → k ≠ j := by
    rintro t a j hp ht hc rfl
    rw [← Scheduler.channel_eq ht] at hc
    exact hch a hp hc
  cases he with
  | refused | idled | revokedNothing => exact keeps_same rfl rfl rfl
  | entered hi' | asyncEntered hi' | receiveEntered hi' | foundGone hi' | consumed hi'
    | retried hi' | asyncRefused hi' | receiveEmpty hi' | stayed hi' =>
    cases hi.symm.trans hi'
    exact keeps_same rfl (hpc _) rfl
  | rejected hi' | gone hi' | receivedQueue hi' | receivedBuffer hi' | receiveBlocked hi'
    | parked hi' =>
    cases hi.symm.trans hi'
    exact keeps_same (Function.update_of_ne hk ..) (hpc _) rfl
  | deposited hi' ht hp hc =>
    cases hi.symm.trans hi'
    exact keeps_same (Function.update_of_ne (target (.inl hp) ht hc) ..) (hpc _) rfl
  | enqueued hi' ht hp hc =>
    cases hi.symm.trans hi'
    exact keeps_same (Function.update_of_ne (target (.inr hp) ht hc) ..) (hpc _) rfl
  | @receivedSender _ _ _ j u _ hi' _ _ _ _ hu hst =>
    cases hi.symm.trans hi'
    have hkj : k ≠ j := by
      rintro rfl
      exact hbs u hu hst
    refine keeps_same ?_ (hpc _) rfl
    exact (Function.update_of_ne hk ..).trans (Function.update_of_ne hkj ..)
  | switched sp hi' ht hp hj hu hst => exact keeps_passed ht hp hj hu hst k
  | started hb | bootHalted hb => cases hi.symm.trans hb
  | died hi' =>
    cases hi.symm.trans hi'
    exact ⟨fun u hu => ⟨u, killed_other hk hu (hbs u hu), .refl u⟩, hpc .dead ▸ .here _,
      fun _ _ _ _ hc => by cases hc⟩
  | @succeeded _ t j u hi' ht hu hst =>
    cases hi.symm.trans hi'
    refine ⟨fun v hv => ?_, hpc .dead ▸ .here _, fun v id hv hblocked hc => ?_⟩
    · have hkept := killed_other (t := t) hk hv (hbs v hv)
      by_cases hkj : k = j
      · subst hkj
        cases hkept.symm.trans hu
        exact ⟨_, Scheduler.set_tasks_self .., Task.like_started hst⟩
      · exact ⟨v, (Function.update_of_ne hkj ..).trans hkept, .refl v⟩
    · cases hc
      cases (killed_other (t := t) hk hv (hbs v hv)).symm.trans hu
      cases hst.symm.trans hblocked
  | @created i' _ _ _ _ _ =>
    have hki : k ≠ i' := by
      rintro rfl
      exact hcreate _ _ _ _ rfl
    exact keeps_same (Function.update_of_ne hki ..) (update_pc_ne hki) rfl
  | revoked => cases hrevoke

/-- What a step adds to the history is about the task that takes it. -/
theorem Effect.events (he : m.Effect act m') (hi : m.cpu = .task i) :
    ∃ evs, m'.trace = evs ++ m.trace ∧ ∀ e ∈ evs, e.By i := by
  cases he with
  | entered | asyncEntered | receiveEntered | foundGone | retried | stayed | idled | revokedNothing
    | parked | receiveBlocked | switched | started | bootHalted | died | succeeded | created
    | revoked => exact ⟨[], rfl, List.forall_mem_nil _⟩
  | refused hi' | rejected hi' | gone hi' | consumed hi' | asyncRefused hi' | receivedQueue hi'
    | receivedBuffer hi' | receiveEmpty hi' =>
    cases hi.symm.trans hi'
    exact ⟨[_], rfl, by simp [Event.By]⟩
  | deposited hi' | enqueued hi' =>
    cases hi.symm.trans hi'
    exact ⟨[_, _], rfl, by simp [Event.By]⟩
  | receivedSender hi' =>
    cases hi.symm.trans hi'
    refine ⟨_ :: _, rfl, ?_⟩
    intro e he
    rcases List.mem_cons.mp he with rfl | he
    · exact rfl
    · split at he
      · rw [List.mem_singleton.mp he]
        trivial
      · cases he

theorem step_proceed (hi : m.cpu = .task i) (sp : StackPointer) :
    m.step (.proceed sp) = m.proceed i sp := by
  simp [step, hi]

/-- In the code of a task the kernel has nothing to do for it. -/
theorem proceed_idle {α : Prop} (hi : m.cpu = .task i) (hp : m.pc i = .user ∨ m.pc i = .dead)
    (hs : m.step (.proceed sp) = some m') : α := by
  rw [step_proceed hi, proceed] at hs
  rcases hp with hp | hp <;> (rw [hp] at hs; cases hs)

/-- What a blocked sender has parked is the message of its call. -/
theorem Rendezvous.parked_message (h : m.Rendezvous) (ht : m.sched.tasks i = some t) {id : TaskId}
    (hst : t.state = .blockedOnSend id) (hp : m.pc i = .sendWait a ∨ m.pc i = .sendCheck a) :
    t.ipcBuffer = some (a.message i) := by
  obtain ⟨b, hsend⟩ := h.sending i t id ht hst
  have hargs := hsend.pc
  have hba : b = a := by
    rcases hp with hp | hp <;> (rw [hp] at hargs; exact (Option.some.inj hargs).symm)
  rw [← hba]
  exact hsend.message

structure Wrote (m m' : Machine) (i : Fin maxTasks) (p : Pc) (tasks : Fin maxTasks → Option Task) :
    Prop where
  tasks : m'.sched.tasks = tasks
  pc : m'.pc = Function.update m.pc i p
  cpu : m'.cpu = m.cpu

section
variable {p : Pc} {tasks : Fin maxTasks → Option Task}

theorem Wrote.pc_self (h : m.Wrote m' i p tasks) : m'.pc i = p := by
  rw [h.pc, Function.update_self]

theorem Wrote.pc_other (h : m.Wrote m' i p tasks) (hk : k ≠ i) : m'.pc k = m.pc k := by
  rw [h.pc, Function.update_of_ne hk]

theorem Wrote.task (h : m.Wrote m' i p tasks) (hk : tasks k = some t) :
    m'.sched.tasks k = some t :=
  (congrFun h.tasks k).trans hk

theorem Wrote.keeps (h : m.Wrote m' i p tasks) (hk : k ≠ i) (ht : tasks k = m.sched.tasks k) :
    m.Keeps m' k :=
  keeps_same ((congrFun h.tasks k).trans ht) (h.pc_other hk) h.cpu

/-- A task that changes its own entry only. -/
theorem Wrote.keeps_others {v : Option Task}
    (h : m.Wrote m' i p (Function.update m.sched.tasks i v)) (hk : k ≠ i) : m.Keeps m' k :=
  h.keeps hk (Function.update_of_ne hk ..)

end

/-- The region of a send to a task that has not ended. -/
theorem step_send (hm : m.Wf) (hi : m.cpu = .task i) (hp : m.pc i = .send a)
    (hs : m.step (.proceed sp) = some m') (ht : m.sched.tasks i = some t)
    (hc : t.capTable.channel a.capIdx = some j.val) (hu : m.sched.tasks j = some u)
    (hst : u.state ≠ .terminated) :
    (u.state = .blockedOnReceive ∧
      m.Wrote m' i .user (Function.update m.sched.tasks j
        (some { u with ipcBuffer := some (a.message i), state := .ready })) ∧
      m'.trace =
        [.delivered (a.message i) j, .sendReturned i a.call a.capIdx (.ok ())] ++ m.trace) ∨
    m.Wrote m' i (.sendWait a) (Function.update m.sched.tasks i
      (some { t with state := .blockedOnSend j, ipcBuffer := some (a.message i) })) ∧
      m'.trace = m.trace := by
  simp only [step_proceed hi, proceed, hp, Option.some.injEq, proceedSend] at hs
  rcases Scheduler.sendRegion_cases hm.indexed ht a with ⟨hnone, _⟩ | ⟨id, hid, hrest⟩
  · cases hnone.symm.trans hc
  · cases hc.symm.trans hid
    rcases hrest with ⟨hgone, _⟩ | ⟨k, v, hk, hv, hrecv, heq⟩ | ⟨_, heq⟩
    · exact absurd (hgone u (by rw [hm.indexed.getTask, hu])) hst
    · cases Fin.ext hk
      cases hu.symm.trans hv
      simp only [heq] at hs
      subst hs
      exact .inl ⟨hrecv, ⟨rfl, rfl, rfl⟩, rfl⟩
    · simp only [heq] at hs
      subst hs
      exact .inr ⟨⟨rfl, rfl, rfl⟩, rfl⟩

/-- A round of `sys_receive_typed` of a task with an empty queue. -/
theorem step_receive (hm : m.Wf) (hi : m.cpu = .task i) (hp : m.pc i = .receive)
    (hs : m.step (.proceed sp) = some m') (ht : m.sched.tasks i = some t)
    (hq : t.msgQueue.contents = []) (hne : t.state ≠ .blockedOnSend i) :
    (∃ msg, t.ipcBuffer = some msg ∧
      m.Wrote m' i .user (Function.update m.sched.tasks i (some { t with ipcBuffer := none })) ∧
      m'.trace = [.receiveReturned i (.ok msg)] ++ m.trace) ∨
    (∃ j u, t.ipcBuffer = none ∧ j ≠ i ∧ m.sched.tasks j = some u ∧ u.state = .blockedOnSend i ∧
      m.Wrote m' i .user (Function.update (Function.update m.sched.tasks j
        (some { u with ipcBuffer := none, state := .ready })) i (some { t with state := .running })) ∧
      ∀ msg, u.ipcBuffer = some msg →
        m'.trace = [.receiveReturned i (.ok msg), .delivered msg i] ++ m.trace) ∨
    t.ipcBuffer = none ∧
      m.Wrote m' i .receiveWait
        (Function.update m.sched.tasks i (some { t with state := .blockedOnReceive })) ∧
      m'.trace = m.trace := by
  simp only [step_proceed hi, proceed, hp, Option.some.injEq, proceedReceive] at hs
  rcases Scheduler.receiveAttempt_cases hm.indexed ht with
    ⟨msg, queue, hcons, _⟩ | ⟨_, ⟨msg, hb, heq⟩ | ⟨hb, ⟨j, u, t', hu, hst, ht', heq⟩ | ⟨_, heq⟩⟩⟩
  · cases hq.symm.trans hcons
  · simp only [heq] at hs
    subst hs
    exact .inl ⟨msg, hb, ⟨rfl, rfl, rfl⟩, rfl⟩
  · have hj : j ≠ i := by
      rintro rfl
      cases hu.symm.trans ht
      exact hne hst
    rw [Scheduler.set_tasks, if_neg hj.symm] at ht'
    cases ht.symm.trans ht'
    simp only [heq] at hs
    subst hs
    refine .inr (.inl ⟨j, u, hb, hj, hu, hst, ⟨rfl, rfl, rfl⟩, fun msg hmsg => ?_⟩)
    rw [hmsg]
    rfl
  · simp only [heq, hm.indexed.modify ht] at hs
    subst hs
    exact .inr (.inr ⟨hb, ⟨rfl, rfl, rfl⟩, rfl⟩)

/-- A sender whose message was taken returns. -/
theorem step_check (hm : m.Wf) (hi : m.cpu = .task i) (hp : m.pc i = .sendCheck a)
    (hs : m.step (.proceed sp) = some m') (ht : m.sched.tasks i = some t)
    (hb : t.ipcBuffer = none) :
    m.Wrote m' i .user m.sched.tasks ∧
      m'.trace = [.sendReturned i a.call a.capIdx (.ok ())] ++ m.trace := by
  simp only [step_proceed hi, proceed, hp, Option.some.injEq, proceedCheck, hm.indexed.getTask, ht,
    hb, Option.isNone_none, if_true] at hs
  subst hs
  exact ⟨⟨rfl, rfl, rfl⟩, rfl⟩

/-- A task that waits gives up the processor. -/
theorem step_wait (hm : m.Wf) (hi : m.cpu = .task i)
    (hp : m.pc i = .receiveWait ∨ ∃ a, m.pc i = .sendWait a)
    (hs : m.step (.proceed sp) = some m') :
    ∃ p, Paused (m.pc i) p ∧ m' = (m.setPc i p).switchTo (m.sched.reschedule i) sp := by
  obtain ⟨hc, t, ht⟩ := hm.current i hi
  rcases hp with hp | ⟨a, hp⟩
  · simp only [step_proceed hi, proceed, hp, Option.some.injEq, Scheduler.yieldCpu_eq hc ht] at hs
    exact ⟨.receive, hp ▸ .receive, hs.symm⟩
  · simp only [step_proceed hi, proceed, hp, Option.some.injEq, Scheduler.yieldCpu_eq hc ht] at hs
    exact ⟨.sendCheck a, hp ▸ .send a, hs.symm⟩

theorem step_tick_eq (hm : m.Wf) (hi : m.cpu = .task i) (hs : m.step (.tick sp) = some m') :
    m' = (m.setPc i (m.pc i)).switchTo (m.sched.reschedule i) sp := by
  obtain ⟨hc, t, ht⟩ := hm.current i hi
  simp only [step, hi, Option.some.injEq, Scheduler.preemptReschedule_eq hc ht] at hs
  rw [setPc_self, ← hs]

/-- A task in its own code makes a call. -/
theorem enter_of_step (h : (if isUser (m.pc i) = true then m.enter i act else none) = some m') :
    m.pc i = .user ∧ m.enter i act = some m' := by
  split at h
  · rename_i huser
    exact ⟨isUser_iff.mp huser, h⟩
  · cases h

/-- `sys_send_typed` with arguments that pass its checks. -/
theorem step_call (hm : m.Wf) (hi : m.cpu = .task i) {capIdx : Nat} {tag version : UInt16}
    {payload : List UInt8} (hs : m.step (.sendTyped capIdx tag version payload) = some m')
    (ha : checkSend m.calls capIdx tag version payload = .ok a) :
    m.pc i = .user ∧ m.Wrote m' i (.send a) m.sched.tasks ∧ m'.calls = m.calls + 1 := by
  simp only [step, hi] at hs
  obtain ⟨hp, henter⟩ := enter_of_step hs
  simp only [enter, enterSend, beginSend, ha, (hm.current i hi).1, Option.some.injEq] at henter
  subst henter
  exact ⟨hp, ⟨rfl, rfl, rfl⟩, rfl⟩

/-- `sys_receive_typed` -/
theorem step_listen (hi : m.cpu = .task i) (hs : m.step .receiveTyped = some m') :
    m.pc i = .user ∧ m.Wrote m' i .receive m.sched.tasks := by
  simp only [step, hi] at hs
  obtain ⟨hp, henter⟩ := enter_of_step hs
  cases henter
  exact ⟨hp, rfl, rfl, rfl⟩

/-- `yield_cpu`, called by a task. -/
theorem step_yield (hm : m.Wf) (hi : m.cpu = .task i) (hs : m.step (.yield sp) = some m') :
    m' = (m.setPc i (m.pc i)).switchTo (m.sched.reschedule i) sp := by
  obtain ⟨hc, t, ht⟩ := hm.current i hi
  simp only [step, hi] at hs
  obtain ⟨_, henter⟩ := enter_of_step hs
  simp only [enter, Option.some.injEq, Scheduler.yieldCpu_eq hc ht] at henter
  rw [setPc_self, ← henter]

/-- A task that ends. -/
theorem step_terminate (hm : m.Wf) (hi : m.cpu = .task i) (ht : m.sched.tasks i = some t)
    (hs : m.step .terminate = some m') :
    m'.sched.tasks i = some { t with state := .terminated } ∧ m'.pc i = .dead := by
  simp only [step, hi, Option.some.injEq, Scheduler.terminateCurrentTask,
    Scheduler.wakeSenders_markTerminated (hm.current i hi).1 ht] at hs
  have hself : (m.sched.killed i t).tasks i = some { t with state := .terminated } := by
    simp [Scheduler.killed]
  rcases Scheduler.terminateLoop_cases (Scheduler.indexed_killed hm.indexed ht)
    (Scheduler.resumable_killed hm.resumable ht) _ with heq | ⟨j, u, hu, hst, heq⟩
  · rw [heq] at hs
    subst hs
    exact ⟨hself, Function.update_self ..⟩
  · have hji : i ≠ j := by
      rintro rfl
      cases hself.symm.trans hu
      cases hst
    rw [heq] at hs
    subst hs
    exact ⟨(Function.update_of_ne hji ..).trans hself, Function.update_self ..⟩

theorem running_some (hk : m.running = some k) : m.cpu = .task k := by
  unfold running at hk
  split at hk
  · rename_i hcpu
    rw [hcpu, Option.some.inj hk]
  · cases hk

theorem since_eq {evs : List Event} (h : m'.trace = evs ++ m.trace) : m.since m' = evs := by
  have hlen : m'.trace.length - m.trace.length = evs.length := by
    rw [h, List.length_append, Nat.add_sub_cancel]
  unfold since
  rw [hlen, h, List.take_left]

/-- The first entry into the scheduler starts a Ready task, if there is one. -/
theorem Sound.boot (h : m.Sound) (hb : m.cpu = .boot) (hs : m.step (.yield sp) = some m')
    (k : Fin maxTasks) : m.Keeps m' k := by
  simp only [Machine.step, hb, Option.some.injEq] at hs
  rcases Scheduler.yieldCpu_boot h.wf.indexed h.wf.resumable (h.wf.boot hb) with
    heq | ⟨j, u, hu, hst, heq⟩
  · rw [heq] at hs
    subst hs
    exact keeps_same rfl rfl rfl
  · simp only [switchTo, heq, hb] at hs
    subst hs
    exact keeps_started hu hst k

/-- The timer has no effect before that. -/
theorem Sound.boot_tick (h : m.Sound) (hb : m.cpu = .boot) (hs : m.step (.tick sp) = some m') :
    m' = m := by
  simp only [Machine.step, hb, Option.some.injEq,
    Scheduler.preemptReschedule_boot (h.wf.boot hb)] at hs
  exact hs.symm

theorem not_blocked_of_awake (h : t.Awake) : ¬ t.state.Blocked := by
  intro hb
  cases hst : t.state with
  | blockedOnSend id => exact h.not_blockedOnSend id hst
  | blockedOnReceive => exact h.not_blockedOnReceive hst
  | _ =>
    rw [hst] at hb
    cases hb

/-- A service that runs its own code opens the channel for a reply. -/
theorem Sound.openReply (h : m.Sound) {svc : Service} (ht : m.sched.tasks svc.task = some t)
    (ha : t.Awake) {sched : Scheduler} (hopen : m.sched.openReply svc i = some sched) :
    sched = m.sched.set svc.task (some (t.withReply (svc.replyCap i))) ∧
      ({ m with sched := sched } : Machine).Sound ∧
      (t.withReply (svc.replyCap i)).capTable.channel replySlot = some i.val := by
  have hsched : sched = m.sched.set svc.task (some (t.withReply (svc.replyCap i))) := by
    have hserving : m.sched.Serving svc := by
      change m.sched.getTask svc.task ≠ none
      rw [h.wf.indexed.getTask, ht]
      simp
    rw [Scheduler.openReply_some hserving i.isLt] at hopen
    rw [← Option.some.inj hopen]
    exact h.wf.indexed.modify ht _
  subst hsched
  refine ⟨rfl, ⟨h.wf.modified ht rfl rfl rfl rfl, ?_, h.sole.rewritten ht rfl rfl rfl⟩, ?_⟩
  · exact h.rendezvous.rewritten ht rfl (Function.update_eq_self svc.task _).symm rfl
      (not_blocked_of_awake ha)
  · simp [Task.withReply, CapTable.channel, CapTable.put, CapTable.get_val, Service.replyCap]

section
variable {party : Fin maxTasks → Bool}

theorem not_revoke_of_outside (h : act.Outside party) : act.isRevoke = false := by
  cases act with
  | revoke => exact h.elim
  | _ => rfl

/-- Only parties get channels to parties. -/
theorem Sound.outside_step (h : m.Sound) (hout : m.sched.Outside party) (hs : m.step act = some m')
    (hact : act.Outside party) : m'.sched.Outside party := by
  have he := step_effect h.wf hs
  by_cases hcreate : ∃ i ring3 stackBase cr3 table, act = .create i ring3 stackBase cr3 table
  · obtain ⟨i, ring3, stackBase, cr3, table, rfl⟩ := hcreate
    have hm' : m' = (m.setTask i (freshTask i ring3 stackBase cr3 table)).setPc i .user := by
      cases hcpu : m.cpu with
      | halted => simp [Machine.step, hcpu] at hs
      | boot | task =>
        simp only [Machine.step, hcpu] at hs
        exact (create_some hs).2
    have htable : (freshTask i ring3 stackBase cr3 table).capTable = table := by
      cases ring3 <;> rfl
    intro k slot p hk hch
    rw [hm', setPc_sched, setTask, Scheduler.channel_set, Function.update_apply] at hch
    split at hch
    · exact hact.2 slot p (htable ▸ hch)
    · exact hout k slot p hk hch
  · have hch := he.channel_eq (not_revoke_of_outside hact)
      (fun i ring3 stackBase cr3 table heq => hcreate ⟨i, ring3, stackBase, cr3, table, heq⟩)
    intro k slot p hk hp
    rw [hch] at hp
    exact hout k slot p hk hp

/-- What a party does with its own table is its own affair. -/
theorem outside_set (hout : m.sched.Outside party) (hi : party i = true) (t : Task) :
    (m.sched.set i (some t)).Outside party := by
  intro k slot p hk hch
  have hne : k ≠ i := by
    rintro rfl
    cases hk.symm.trans hi
  rw [Scheduler.channel_set, Function.update_of_ne hne] at hch
  exact hout k slot p hk hch

/-- Some of the tasks are parties. The others have no channel to a party. The parties block on
sends to one another only, and never so that no task could run. -/
structure Calm (m : Machine) (party : Fin maxTasks → Bool) : Prop where
  sound : m.Sound
  outside : m.sched.Outside party
  among : ∀ k t (j : Fin maxTasks), party k = true → m.sched.tasks k = some t →
    t.state = .blockedOnSend j.val → party j = true
  ready : ∀ k t id, party k = true → m.cpu = .task k → m.sched.tasks k = some t →
    t.state = .blockedOnSend id → ∃ j u, j ≠ k ∧ m.sched.tasks j = some u ∧ u.state = .ready

/-- Tasks that are no party do not disturb the parties. -/
theorem Calm.outsider (h : m.Calm party) (hi : m.cpu = .task i) (hp : party i = false)
    (hact : act.Outside party) (hs : m.step act = some m') (hk : party k = true) : m.Keeps m' k := by
  refine (step_effect h.sound.wf hs).keeps hi ?_ (not_revoke_of_outside hact) ?_ (fun a _ hch => ?_)
    (fun u hu hst => ?_)
  · rintro rfl
    cases hp.symm.trans hk
  · rintro ring3 stackBase cr3 table rfl
    cases hact.1.symm.trans hk
  · cases hk.symm.trans (h.outside i _ k hp hch)
  · cases hp.symm.trans (h.among k u i hk hu hst)

/-- A decision to give up the processor leaves the parties where they are. -/
theorem Calm.switch (h : m.Calm party) (hi : m.cpu = .task i) {p : Pc} (hp : Paused (m.pc i) p)
    (heq : m' = (m.setPc i p).switchTo (m.sched.reschedule i) sp) :
    (∀ k, party k = true → m.Keeps m' k) ∧ m'.trace = m.trace := by
  obtain ⟨_, t, ht⟩ := h.sound.wf.current i hi
  rcases Scheduler.reschedule_cases h.sound.wf.indexed h.sound.wf.resumable ht with
    ⟨hnone, hidle⟩ | ⟨j, u, hj, hu, hst, hsome⟩
  · have hm' : m' = m.setPc i p := by
      rw [heq, hnone]
      rfl
    subst hm'
    refine ⟨fun k hk => ?_, rfl⟩
    by_cases hki : k = i
    · subst hki
      refine keeps_stayed ht hp (fun id hblocked => ?_) k
      obtain ⟨j, u, hj, hu, hready⟩ := h.ready k t id hk hi ht hblocked
      exact hidle j u hj hu hready
    · exact keeps_same rfl (update_pc_ne hki) rfl
  · have hcpu : (m.setPc i p).cpu = .task i := hi
    have hm' : m' = (m.setPc i p).passed i t sp j u := by
      rw [heq]
      simp only [switchTo, hsome, hcpu, Scheduler.saveRsp_started hj]
      rfl
    subst hm'
    exact ⟨fun k _ => keeps_passed ht hp hj hu hst k, rfl⟩

end

end Machine

end Runix
