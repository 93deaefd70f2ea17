import Runix.Proofs.Rendezvous

namespace Runix.Machine

variable {m m' : Machine} {act : Action}

/-- Who is Running. The task on the processor is Running, or has blocked itself
and goes round its loop because nobody else is Ready. -/
structure Sole (m : Machine) : Prop where
  running : ∀ j u, m.sched.tasks j = some u → u.state = .running → m.cpu = .task j
  onCpu : ∀ i t, m.cpu = .task i → m.sched.tasks i = some t →
    t.state ≠ .ready ∧ t.state ≠ .terminated

theorem Sole.of_same (h : m.Sole) (hs : m'.sched.tasks = m.sched.tasks) (hc : m'.cpu = m.cpu) :
    m'.Sole :=
  ⟨fun j u hu => hc ▸ h.running j u (hs ▸ hu), fun i t hi ht => h.onCpu i t (hc ▸ hi) (hs ▸ ht)⟩

/-- One task is replaced while the processor stays where it is. -/
theorem Sole.replaced (h : m.Sole) {j : Fin maxTasks} {u' : Task}
    (hs : m'.sched.tasks = Function.update m.sched.tasks j (some u')) (hc : m'.cpu = m.cpu)
    (hrun : u'.state = .running → m.cpu = .task j)
    (hcpu : m.cpu = .task j → u'.state ≠ .ready ∧ u'.state ≠ .terminated) : m'.Sole := by
  refine ⟨fun k v hv hst => ?_, fun k v hk hv => ?_⟩
  · rw [hs, Function.update_apply] at hv
    split at hv
    · rename_i hkj
      cases hv
      rw [hc, hkj]
      exact hrun hst
    · rw [hc]
      exact h.running k v hv hst
  · rw [hs, Function.update_apply] at hv
    rw [hc] at hk
    split at hv
    · rename_i hkj
      cases hv
      exact hcpu (hkj ▸ hk)
    · exact h.onCpu k v hk hv

/-- Replacing a task by one in the same state. -/
theorem Sole.rewritten (h : m.Sole) {j : Fin maxTasks} {u u' : Task}
    (hu : m.sched.tasks j = some u)
    (hs : m'.sched.tasks = Function.update m.sched.tasks j (some u')) (hc : m'.cpu = m.cpu)
    (hst : u'.state = u.state) : m'.Sole :=
  h.replaced hs hc (fun hr => h.running j u hu (hst ▸ hr)) (fun hj => hst ▸ h.onCpu j u hj hu)

/-- Passing the processor to a task when nobody is Running. -/
theorem sole_started {s : Scheduler} {j : Fin maxTasks} {u : Task}
    (h : ∀ k v, s.tasks k = some v → v.state ≠ .running) (hs : m'.sched = s.started j u)
    (hc : m'.cpu = .task j) : m'.Sole := by
  refine ⟨fun k v hv hst => ?_, fun k v hk hv => ?_⟩
  · simp only [hs, Scheduler.started, Scheduler.set_tasks] at hv
    split at hv
    · rename_i hkj
      rw [hc, hkj]
    · exact absurd hst (h k v hv)
  · cases hc.symm.trans hk
    rw [hs] at hv
    cases (Scheduler.set_tasks_self ..).symm.trans hv
    exact ⟨by simp, by simp⟩

/-- Nobody is Running once the task on the processor has died. -/
theorem Sole.killed (h : m.Sole) {i : Fin maxTasks} {t : Task} (hi : m.cpu = .task i)
    (k : Fin maxTasks) (v : Task) (hv : (m.sched.killed i t).tasks k = some v) :
    v.state ≠ .running := by
  intro hst
  simp only [Scheduler.killed] at hv
  split at hv
  · cases hv
    cases hst
  · rename_i hki
    obtain ⟨u, hu, rfl⟩ := Option.map_eq_some_iff.mp hv
    unfold Task.woken at hst
    split at hst
    · cases hst
    · cases hi.symm.trans (h.running k u hu hst)
      exact hki rfl

theorem Effect.sole (he : m.Effect act m') (hw : m.Wf) (hv : m.Rendezvous) (h : m.Sole) :
    m'.Sole := by
  cases he with
  | refused | entered | asyncEntered | receiveEntered | foundGone | consumed | retried
    | asyncRefused | receiveEmpty | stayed | idled | revokedNothing => exact h.of_same rfl rfl
  | rejected _ ht | gone _ ht | receivedQueue _ ht | receivedBuffer _ ht =>
    exact h.rewritten ht rfl rfl rfl
  | revoked _ hu => exact h.rewritten hu rfl rfl rfl
  | @deposited i _ t a j u hi ht hp hc hu hst =>
    refine h.replaced rfl rfl (fun hr => by cases hr) (fun hj => ?_)
    cases hi.symm.trans hj
    have hpc := (hv.receiving i u hu hst).pc
    rw [hp] at hpc
    cases hpc
  | parked hi ht =>
    exact h.replaced rfl rfl (fun hr => by cases hr) (fun _ => by simp)
  | @enqueued i _ t a j u queue hi ht hp hc hu hst hq =>
    by_cases hbr : u.state = .blockedOnReceive
    · refine h.replaced rfl rfl (fun hr => ?_) (fun hj => ?_)
      · simp [hbr] at hr
      · cases hi.symm.trans hj
        have hpc := (hv.receiving i u hu hbr).pc
        rw [hp] at hpc
        cases hpc
    · exact h.rewritten hu rfl rfl (if_neg hbr)
  | @receivedSender i _ t j u t' hi ht hp hq hb hu hst ht' =>
    have h₁ : (m.setTask j { u with ipcBuffer := none, state := .ready }).Sole := by
      refine h.replaced rfl rfl (fun hr => by cases hr) (fun hj => ?_)
      cases hi.symm.trans hj
      obtain ⟨a, ha⟩ := hv.sending i u i hu hst
      have hpc := ha.pc
      rcases hp with hp | hp <;> (rw [hp] at hpc; cases hpc)
    exact h₁.replaced rfl rfl (fun _ => hi) (fun _ => by simp)
  | receiveBlocked hi ht =>
    exact h.replaced rfl rfl (fun hr => by cases hr) (fun _ => by simp)
  | @switched i _ t p j u sp hi ht hp hj hu hst =>
    refine sole_started (s := m.sched.set i (some { t.paused with rsp := sp })) (fun k v hv hr => ?_)
      rfl rfl
    rw [Scheduler.set_tasks] at hv
    split at hv
    · cases hv
      simp only [Task.paused] at hr
      split at hr
      · cases hr
      · rename_i hne
        exact hne hr
    · rename_i hki
      cases hi.symm.trans (h.running k v hv hr)
      exact hki rfl
  | started hb hu hst =>
    refine sole_started (fun k v hv hr => ?_) rfl rfl
    cases hb.symm.trans (h.running k v hv hr)
  | bootHalted hb =>
    refine ⟨fun k v hv hr => ?_, fun _ _ hk => by cases hk⟩
    cases hb.symm.trans (h.running k v hv hr)
  | died hi ht =>
    exact ⟨fun k v hv hr => absurd hr (h.killed hi k v hv), fun _ _ hk => by cases hk⟩
  | succeeded hi ht hu hst => exact sole_started (h.killed hi) rfl rfl
  | @created i _ _ _ _ t _ hfree hid hst hrsp hb hq =>
    refine h.replaced rfl rfl (fun hr => ?_) (fun hi => ?_)
    · cases hst.symm.trans hr
    · obtain ⟨_, u, hu⟩ := hw.current i hi
      exact absurd (hfree u hu) (h.onCpu i u hi hu).2

def CreatesInEmpty (m : Machine) : Action → Prop
  | .create i _ _ _ _ => m.sched.tasks i = none
  | _ => True

instance (m : Machine) : (a : Action) → Decidable (m.CreatesInEmpty a)
  | .create i _ _ _ _ => decidable_of_iff ((m.sched.tasks i).isNone = true) Option.isNone_iff_eq_none
  | .sendTyped .. | .sendAsync .. | .receiveTyped | .receiveAsync | .proceed _ | .yield _ | .tick _
  | .terminate | .revoke .. => .isTrue trivial

theorem killed_terminated {s : Scheduler} {i k : Fin maxTasks} {t v : Task}
    (hv : s.tasks k = some v) (hst : v.state = .terminated) :
    ∃ w, (s.killed i t).tasks k = some w ∧ w.state = .terminated := by
  by_cases hki : k = i
  · exact ⟨{ t with state := .terminated }, by simp [Scheduler.killed, hki], rfl⟩
  · exact ⟨v, by simp [Scheduler.killed, hki, hv, Task.woken, hst], hst⟩

/-- Replacing a task that had not terminated. -/
theorem update_terminated {s : Scheduler} {j k : Fin maxTasks} {u v : Task} (u' : Task)
    (hu : s.tasks j = some u) (hterm : u.state = .terminated → u'.state = .terminated)
    (hv : s.tasks k = some v) (hst : v.state = .terminated) :
    ∃ w, Function.update s.tasks j (some u') k = some w ∧ w.state = .terminated := by
  by_cases hkj : k = j
  · subst hkj
    cases hu.symm.trans hv
    exact ⟨u', Function.update_self .., hterm hst⟩
  · exact ⟨v, by rw [Function.update_of_ne hkj, hv], hst⟩

/-- Starting a Ready task revives nobody. -/
theorem started_terminated {s : Scheduler} {j k : Fin maxTasks} {u v : Task}
    (hu : s.tasks j = some u) (hr : u.state = .ready) (hv : s.tasks k = some v)
    (hst : v.state = .terminated) :
    ∃ w, (s.started j u).tasks k = some w ∧ w.state = .terminated :=
  update_terminated _ hu (fun h => by cases hr.symm.trans h) hv hst

/-- A terminated task stays terminated. -/
theorem Effect.terminated (he : m.Effect act m') (h : m.Sole) (hact : m.CreatesInEmpty act)
    {k : Fin maxTasks} {v : Task} (hv : m.sched.tasks k = some v) (hst : v.state = .terminated) :
    ∃ w, m'.sched.tasks k = some w ∧ w.state = .terminated := by
  have onCpu : ∀ {i : Fin maxTasks} {t : Task} {P : Prop}, m.cpu = .task i →
      m.sched.tasks i = some t → t.state = .terminated → P :=
    fun hi ht hterm => absurd hterm (h.onCpu _ _ hi ht).2
  cases he with
  | refused | entered | asyncEntered | receiveEntered | foundGone | consumed | retried
    | asyncRefused | receiveEmpty | stayed | idled | revokedNothing | bootHalted =>
    exact ⟨v, hv, hst⟩
  | rejected hi ht | gone hi ht | receivedQueue hi ht | receivedBuffer hi ht | parked hi ht
    | receiveBlocked hi ht => exact update_terminated _ ht (onCpu hi ht) hv hst
  | revoked _ hu => exact update_terminated _ hu id hv hst
  | deposited _ _ _ _ hu hbr =>
    exact update_terminated _ hu (fun hterm => by cases hbr.symm.trans hterm) hv hst
  | enqueued _ _ _ _ hu hne => exact update_terminated _ hu (fun hterm => absurd hterm hne) hv hst
  | @receivedSender i _ t j u t' hi ht hp hq hb hu hbs ht' =>
    obtain ⟨w, hw, hwst⟩ := update_terminated
      { u with ipcBuffer := none, state := .ready } hu (fun hterm => by cases hbs.symm.trans hterm) hv hst
    refine update_terminated (s := (m.setTask j { u with ipcBuffer := none, state := .ready }).sched)
      _ ht' (fun hterm => ?_) hw hwst
    rw [setTask_tasks] at ht'
    split at ht'
    · cases ht'
      cases hterm
    · cases ht.symm.trans ht'
      exact onCpu hi ht hterm
  | @switched i _ t p j u sp hi ht hp hj hu hr =>
    obtain ⟨w, hw, hwst⟩ := update_terminated { t.paused with rsp := sp } ht
      (onCpu hi ht) hv hst
    exact started_terminated (s := m.sched.set i (some { t.paused with rsp := sp }))
      (by rw [Scheduler.set_tasks, if_neg hj, hu]) hr hw hwst
  | started _ hu hr => exact started_terminated hu hr hv hst
  | died _ ht => exact killed_terminated hv hst
  | succeeded _ ht hu hr =>
    obtain ⟨w, hw, hwst⟩ := killed_terminated hv hst
    exact started_terminated hu hr hw hwst
  | @created i _ _ _ _ t _ hfree hid hst' hrsp hb hq =>
    have hki : k ≠ i := by
      rintro rfl
      cases hv.symm.trans hact
    exact ⟨v, by rw [setPc_sched, setTask_tasks, if_neg hki, hv], hst⟩

/-- The machine at the first entry of the scheduler: all tasks Ready, each in
the slot of its number with a primed stack, and none current. -/
structure AtBoot (m : Machine) : Prop where
  cpu : m.cpu = .boot
  current : m.sched.currentTaskId = none
  ready : ∀ i t, m.sched.tasks i = some t → t.state = .ready
  indexed : ∀ i t, m.sched.tasks i = some t → t.id = i.val
  primed : ∀ i t, m.sched.tasks i = some t → t.rsp ≠ 0

theorem AtBoot.wf (h : m.AtBoot) : m.Wf :=
  ⟨h.indexed, h.primed, fun _ => h.current, fun i hi => (by cases h.cpu.symm.trans hi),
    fun id hcur => (by cases h.current.symm.trans hcur)⟩

theorem AtBoot.unblocked (h : m.AtBoot) (i : Fin maxTasks) (t : Task)
    (ht : m.sched.tasks i = some t) : ¬ t.state.Blocked := by
  rw [h.ready i t ht]
  rintro ⟨⟩

theorem AtBoot.sole (h : m.AtBoot) : m.Sole :=
  ⟨fun j u hu hr => (by cases (h.ready j u hu).symm.trans hr),
    fun i t hi => (by cases h.cpu.symm.trans hi)⟩

def Ordinary (m : Machine) (a : Action) : Prop := a.isRevoke = false ∧ m.CreatesInEmpty a

instance (m : Machine) (a : Action) : Decidable (m.Ordinary a) := inferInstanceAs (Decidable (_ ∧ _))

structure Sound (m : Machine) : Prop where
  wf : m.Wf
  rendezvous : m.Rendezvous
  sole : m.Sole

theorem Sound.step (h : m.Sound) (hok : act.isRevoke = false) (hs : m.step act = some m') :
    m'.Sound := by
  have he := step_effect h.wf hs
  exact ⟨he.wf h.wf, he.rendezvous h.wf h.rendezvous (sparesParked_of_not_revoke m hok),
    he.sole h.wf h.rendezvous h.sole⟩

theorem AtBoot.sound (h : m.AtBoot) : m.Sound :=
  ⟨h.wf, rendezvous_of_unblocked h.unblocked, h.sole⟩

theorem run_sound {m₀ : Machine} {as : List Action} (h : m₀.Sound)
    (hr : Lib.Run (Lib.Guarded Ordinary (Lib.Steps Machine.step)) m₀ as m) : m.Sound :=
  hr.invariant h (fun _ _ _ hs hstep => hs.step hstep.1.1 hstep.2)

theorem run_terminated {m₀ : Machine} {as : List Action} (h : m₀.Sound)
    (hr : Lib.Run (Lib.Guarded Ordinary (Lib.Steps Machine.step)) m₀ as m) {k : Fin maxTasks}
    (hk : ∃ v, m₀.sched.tasks k = some v ∧ v.state = .terminated) :
    ∃ w, m.sched.tasks k = some w ∧ w.state = .terminated := by
  induction hr with
  | nil => exact hk
  | cons head _ ih =>
    obtain ⟨v, hv, hst⟩ := hk
    exact ih (h.step head.1.1 head.2)
      ((step_effect h.wf head.2).terminated h.sole head.1.2 hv hst)

/-- A task that executes its own code is Running. -/
theorem Sound.user_running (h : m.Sound) {i : Fin maxTasks} (hi : m.cpu = .task i)
    (hp : m.pc i = .user) : ∃ t, m.sched.tasks i = some t ∧ t.state = .running := by
  obtain ⟨_, t, ht⟩ := h.wf.current i hi
  refine ⟨t, ht, ?_⟩
  have hfree := h.rendezvous.free ht (by rw [hp]; rfl) (by rw [hp]; rfl)
  obtain ⟨hready, hterm⟩ := h.sole.onCpu i t hi ht
  cases hst : t.state with
  | running => rfl
  | ready => exact absurd hst hready
  | terminated => exact absurd hst hterm
  | blockedOnSend r => exact absurd (hst ▸ .send r) hfree
  | blockedOnReceive => exact absurd (hst ▸ .receive) hfree

/-- The scheduler state invariant of runs from boot. -/
theorem scheduler_invariant {m₀ : Machine} {as : List Action} (hb : m₀.AtBoot)
    (hr : Lib.Run (Lib.Guarded Ordinary (Lib.Steps Machine.step)) m₀ as m) :
    (∀ i j t u, m.sched.tasks i = some t → m.sched.tasks j = some u → t.state = .running →
      u.state = .running → i = j) ∧
    (∀ i t, m.sched.tasks i = some t → t.state = .running → m.sched.currentTaskId = some i.val) ∧
    (∀ id, m.sched.currentTaskId = some id → ∃ i t, i.val = id ∧ m.sched.tasks i = some t) ∧
    (∀ i t, m.sched.tasks i = some t → t.id = i.val) ∧
    (∀ i, m.cpu = .task i → m.pc i = .user →
      ∃ t, m.sched.tasks i = some t ∧ t.state = .running) ∧
    ∀ bs cs m₁ i, as = bs ++ cs →
      Lib.Run (Lib.Guarded Ordinary (Lib.Steps Machine.step)) m₀ bs m₁ →
      (∃ t, m₁.sched.tasks i = some t ∧ t.state = .terminated) →
      ∃ t, m.sched.tasks i = some t ∧ t.state = .terminated := by
  have h := run_sound hb.sound hr
  refine ⟨fun i j t u ht hu hst hst' => ?_,
    fun i t ht hst => (h.wf.current i (h.sole.running i t ht hst)).1, h.wf.occupied,
    h.wf.indexed, fun i hi hp => h.user_running hi hp, ?_⟩
  · cases (h.sole.running i t ht hst).symm.trans (h.sole.running j u hu hst')
    rfl
  · rintro bs cs m₁ i rfl hbs hterm
    obtain ⟨m₂, hbs', hcs⟩ := hr.split
    have hsame : m₁ = m₂ :=
      (hbs.mono (fun _ _ _ h => h.2)).unique (hbs'.mono (fun _ _ _ h => h.2))
    subst hsame
    exact run_terminated (run_sound hb.sound hbs) hcs hterm

theorem atBoot_ofList {ts : List Task} (hready : ∀ t ∈ ts, t.state = .ready)
    (hprimed : ∀ t ∈ ts, t.rsp ≠ 0) : (boot (Scheduler.ofList ts)).AtBoot where
  cpu := rfl
  current := rfl
  ready _ t ht := hready t (List.mem_of_find?_eq_some ht)
  indexed := Scheduler.indexed_ofList ts
  primed _ t ht := hprimed t (List.mem_of_find?_eq_some ht)

theorem atBoot_pair : (boot (Scheduler.ofList pair)).AtBoot :=
  atBoot_ofList (by decide) (by decide)

/-- The first task parks a message for the second, which terminates; the first
is woken and the only Running task. -/
theorem scheduler_invariant_survivor : ∃ m t,
    Lib.Run (Lib.Guarded Ordinary (Lib.Steps Machine.step)) (boot (Scheduler.ofList pair))
      [.yield ⟨1, by decide⟩, .sendTyped 0 0 0 [], .proceed ⟨1, by decide⟩,
        .proceed ⟨1, by decide⟩, .terminate] m ∧
    m.sched.tasks ⟨0, by decide⟩ = some t ∧ t.state = .running ∧
    m.sched.currentTaskId = some 0 := by
  have hstate : ((Lib.execute Machine.step (boot (Scheduler.ofList pair))
      [.yield ⟨1, by decide⟩, .sendTyped 0 0 0 [], .proceed ⟨1, by decide⟩,
        .proceed ⟨1, by decide⟩, .terminate]).bind
        (fun m => (m.sched.tasks ⟨0, by decide⟩).map Task.state)) = some .running := by
    decide
  obtain ⟨m, hm, ht⟩ := Option.bind_eq_some_iff.mp hstate
  obtain ⟨t, ht, hst⟩ := Option.map_eq_some_iff.mp ht
  have hr := (Lib.run_of_execute hm).guard Ordinary
    (by simp [Ordinary, Action.isRevoke, CreatesInEmpty])
  exact ⟨m, t, hr, ht, hst, (scheduler_invariant atBoot_pair hr).2.1 _ t ht hst⟩

end Runix.Machine
