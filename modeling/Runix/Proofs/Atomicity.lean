import Runix.Proofs.Exclusion

namespace Runix

namespace Preempt

variable (p : Preempt) (s : Scheduler) (locked : Bool)

theorem maybeFireAdversary_locked : p.maybeFireAdversary s true = (p, s) := by
  unfold maybeFireAdversary
  split <;> simp

/-- What lets a tick through. -/
def gate (p : Preempt) : Nat × Bool := (p.preemptCount, p.armed)

theorem maybeFireAdversary_gate : (p.maybeFireAdversary s locked).1.gate = p.gate := by
  unfold maybeFireAdversary
  split
  · rfl
  · split
    · rfl
    · split <;> rfl

theorem onTickShouldSwitch_gate : (p.onTickShouldSwitch s locked).2.1.gate = p.gate := by
  simp only [onTickShouldSwitch]
  split
  · rfl
  · split
    · rfl
    · split
      · exact maybeFireAdversary_gate _ s locked
      · rfl

/-- A tick inside a critical region, or with the lock taken, reaches neither
the adversary nor the scheduler. -/
theorem onTickShouldSwitch_deferred (h : p.preemptCount ≠ 0 ∨ locked = true) :
    ∃ switch p', p.onTickShouldSwitch s locked = (switch, p', s) ∧
      p'.pendingRevoke = p.pendingRevoke ∧ (switch = true → locked = true) := by
  have hcount : p.countTick.preemptCount = p.preemptCount := rfl
  simp only [onTickShouldSwitch]
  split
  · exact ⟨false, _, rfl, rfl, by simp⟩
  · split
    · exact ⟨false, _, rfl, rfl, by simp⟩
    · rename_i hc
      have hlocked : locked = true := by
        rcases h with h | h
        · rw [hcount] at hc
          exact absurd h hc
        · exact h
      subst hlocked
      rw [maybeFireAdversary_locked]
      split
      · exact ⟨true, _, rfl, rfl, by simp⟩
      · exact ⟨true, _, rfl, rfl, by simp⟩

end Preempt

namespace Core

variable {m m' : Core} {i : Fin maxTasks}

structure Inert (m m' : Core) : Prop where
  sched : m'.sched = m.sched
  lock : m'.lock = m.lock
  control : m'.control = m.control
  depth : m'.depth = m.depth
  cpu : m'.cpu = m.cpu
  count : m'.preempt.preemptCount = m.preempt.preemptCount
  pending : m'.preempt.pendingRevoke = m.preempt.pendingRevoke

theorem Inert.trans {m'' : Core} (h : m.Inert m') (h' : m'.Inert m'') : m.Inert m'' :=
  ⟨h'.sched.trans h.sched, h'.lock.trans h.lock, h'.control.trans h.control,
    h'.depth.trans h.depth, h'.cpu.trans h.cpu, h'.count.trans h.count,
    h'.pending.trans h.pending⟩

theorem timerIsr_control (sp : StackPointer) : (m.timerIsr sp).control = m.control := by
  unfold timerIsr
  split
  · rfl
  · exact switchTo_control

theorem timerIsr_lock (sp : StackPointer) : (m.timerIsr sp).lock = m.lock := by
  unfold timerIsr
  split
  · rfl
  · exact switchTo_lock

theorem timerIsr_depth (sp : StackPointer) : (m.timerIsr sp).depth = m.depth := by
  unfold timerIsr
  split
  · rfl
  · exact switchTo_depth

theorem timerIsr_gate (sp : StackPointer) : (m.timerIsr sp).preempt.gate = m.preempt.gate := by
  have hgate := m.preempt.onTickShouldSwitch_gate m.sched m.lock.isSome
  unfold timerIsr
  split
  · rename_i heq
    rw [heq] at hgate
    exact hgate
  · rename_i heq
    rw [heq] at hgate
    rw [switchTo_preempt]
    split
    · exact hgate
    · split
      · exact hgate
      · exact hgate

theorem timerIsr_count (sp : StackPointer) :
    (m.timerIsr sp).preempt.preemptCount = m.preempt.preemptCount :=
  congrArg Prod.fst (timerIsr_gate sp)

/-- A tick that meets an open region or a taken lock does nothing. -/
theorem timerIsr_deferred (sp : StackPointer)
    (h : m.preempt.preemptCount ≠ 0 ∨ m.lock.isSome = true) : m.Inert (m.timerIsr sp) := by
  obtain ⟨switch, p, heq, hpending, hlocked⟩ := m.preempt.onTickShouldSwitch_deferred m.sched _ h
  refine ⟨?_, timerIsr_lock sp, timerIsr_control sp, timerIsr_depth sp, ?_, timerIsr_count sp, ?_⟩
  all_goals
    unfold timerIsr
    rw [heq]
    cases switch with
    | false => first | rfl | exact hpending
    | true => simp [hlocked rfl, Scheduler.preemptReschedule, switchTo, Preempt.noteDeferredLocked, hpending]

theorem Exclusive.timerIsr (h : m.Exclusive) (sp : StackPointer) : (m.timerIsr sp).Exclusive := by
  by_cases hd : m.preempt.preemptCount ≠ 0 ∨ m.lock.isSome = true
  · have hin := timerIsr_deferred sp hd
    refine ⟨fun j => ?_, fun j hj => ?_, ?_, fun j kind a phase hp => ?_⟩
    · rw [hin.lock, hin.control]
      exact h.owner j
    · rw [hin.control] at hj
      rw [hin.cpu]
      exact h.running j hj
    · rw [hin.count, h.count]
      simp only [load, hin.control, hin.depth]
    · rw [hin.control] at hp
      rw [midway_congr hin.sched]
      exact h.midway j kind a phase hp
  · obtain ⟨hc, hl⟩ := not_or.mp hd
    have hzero : ∀ j, (m.control j).critical = false := by
      intro j
      have hle := h.load_le j
      rw [load] at hle
      cases hcrit : (m.control j).critical with
      | false => rfl
      | true =>
        rw [hcrit, Bool.toNat_true] at hle
        omega
    have hlock : m.lock = none := by simpa using hl
    refine h.switched hzero ?_ (fun j => ?_) (timerIsr_depth sp) (timerIsr_count sp)
    · rw [timerIsr_lock, hlock]
    · rw [timerIsr_control]
      refine ⟨hzero j, ?_⟩
      by_contra hlocked
      cases hlock.symm.trans ((h.owner j).mpr (Bool.not_eq_false _ ▸ hlocked))

theorem Exclusive.enter (h : m.Exclusive) (hi : m.cpu = .task i) (hp : m.control i = .user)
    {act : CoreAction} (hs : m.enter i act = some m') : m'.Exclusive := by
  have hlock := h.lock_eq hi
  have hcrit : (m.control i).critical = false := by rw [hp]; rfl
  have hload : m.load i = m.depth i := by
    rw [load, hcrit, Bool.toNat_false, Nat.add_zero]
  have hsame : m.control = Function.update m.control i .user := by
    rw [← hp, Function.update_eq_self]
  rw [hp] at hlock
  have hcall : ∀ (k : Nat) (op : LockedOp),
      (({ m with calls := k } : Core).goto i (.acquire op)).Exclusive := by
    intro k op
    exact h.outside hi hcrit rfl rfl rfl rfl hlock rfl
  have hsend : ∀ kind capIdx tag version payload,
      (m.enterSend i kind capIdx tag version payload).Exclusive := by
    intro kind capIdx tag version payload
    unfold enterSend
    split
    · exact h.outside hi hcrit rfl rfl hsame rfl hlock rfl
    · exact hcall _ _
  cases act with
  | sendTyped | sendAsync =>
    cases hs
    exact hsend ..
  | receiveTyped | receiveAsync | revoke =>
    cases hs
    exact hcall m.calls _
  | enterCritical =>
    cases hs
    refine h.own hi rfl hsame (fun j hj => Function.update_of_ne hj ..) hlock ?_ (by simp)
    simp only [hload, Preempt.enterCritical, Function.update_self, Control.critical,
      Bool.toNat_false]
    omega
  | exitCritical =>
    simp only [Core.enter] at hs
    split at hs
    · cases hs
    · rename_i hd
      cases hs
      have hle := h.load_le i
      refine h.own hi rfl hsame (fun j hj => Function.update_of_ne hj ..) hlock ?_ (by simp)
      simp only [hload, Preempt.exitCritical, Function.update_self, Control.critical,
        Bool.toNat_false]
      omega
  | enterIpcWindow | exitIpcWindow | setArmed | armAdversary | disarmAdversary =>
    cases hs
    exact h.outside hi hcrit rfl rfl hsame rfl hlock rfl
  | yield sp =>
    cases hs
    exact h.yieldCpu hi hcrit rfl rfl sp
  | terminate =>
    simp only [Core.enter, hlock] at hs
    cases hs
    refine h.switched (fun j => ?_) hlock (fun j => ?_) rfl rfl
    · by_cases hj : j = i
      · rw [hj, hcrit]
      · exact (h.others hi j hj).1
    · by_cases hj : j = i
      · subst hj
        simp [goto, Control.critical, Control.locked]
      · simp only [goto, Function.update_of_ne hj]
        exact h.others hi j hj
  | proceed | tick => cases hs

theorem Exclusive.step (h : m.Exclusive) {act : CoreAction} (hs : m.step act = some m') :
    m'.Exclusive := by
  unfold Core.step at hs
  split at hs
  · cases hs
  · cases hs
    exact h.timerIsr _
  · rename_i hb
    cases hs
    split
    · exact h
    · rename_i hfree
      have hidle : ∀ j, (m.control j).critical = false ∧ (m.control j).locked = false := by
        intro j
        constructor
        · by_contra hc
          cases hb.symm.trans (h.running j (.inl (Bool.not_eq_false _ ▸ hc)))
        · by_contra hl
          cases hb.symm.trans (h.running j (.inr (Bool.not_eq_false _ ▸ hl)))
      refine h.switched (fun j => (hidle j).1) ?_ (fun j => ?_) switchTo_depth ?_
      · rw [switchTo_lock]
        simpa using hfree
      · rw [switchTo_control]
        exact hidle j
      · rw [switchTo_preempt]
  · cases hs
  · rename_i hi
    exact h.proceed hi hs
  · rename_i hi _ _
    split at hs
    · rename_i hp
      exact h.enter hi hp hs
    · cases hs

structure Quiet (m : Core) : Prop where
  lock : m.lock = none
  control : ∀ i, m.control i = .user
  count : m.preempt.preemptCount = ∑ i, m.depth i

theorem Quiet.exclusive (h : m.Quiet) : m.Exclusive :=
  exclusive_of_idle h.lock (fun j => by rw [h.control]; rfl) (fun j => by rw [h.control]; rfl)
    h.count

/-- A validated capability is there. -/
theorem capability_of_resolve {s : Scheduler} {current target : TaskId} {capIdx : Nat}
    (h : s.resolveTargetLocked current capIdx = .ok target) :
    ∃ cap, s.capability current capIdx = some cap ∧ cap.resource = .ipcChannel target := by
  unfold Scheduler.resolveTargetLocked CapTable.channel at h
  split at h
  · cases h
  · rename_i t ht
    split at h
    · cases h
    · rename_i r hr
      cases h
      split at hr
      · rename_i cap hcap
        split at hr
        · rename_i hres
          cases hr
          exact ⟨cap, by simp [Scheduler.capability, ht, hcap], hres⟩
        · cases hr
      · cases hr

theorem Touched.capability {entry s : Scheduler} (h : Touched entry s) (current : TaskId)
    (capIdx : Nat) : s.capability current capIdx = entry.capability current capIdx := by
  obtain ⟨id, f, rfl, hid, hf⟩ := h
  exact Scheduler.capability_modify entry id hid hf current capIdx

theorem Midway.capability {kind : SendKind} {a : SendArgs} {phase : Phase} {entry : Scheduler}
    {target : TaskId} (h : m.Midway i kind a phase) (hv : phase.validated = some (entry, target)) :
    ∃ cap, entry.capability i a.capIdx = some cap ∧ cap.resource = .ipcChannel target ∧
      m.sched.capability i a.capIdx = some cap := by
  cases phase with
  | use e r =>
    cases hv
    obtain ⟨hs, hr⟩ := h
    obtain ⟨cap, hcap, hres⟩ := capability_of_resolve hr
    exact ⟨cap, hcap, hres, by rw [hs, hcap]⟩
  | wake e r | park e r =>
    cases hv
    obtain ⟨htouched, hr, _⟩ := h
    obtain ⟨cap, hcap, hres⟩ := capability_of_resolve hr
    exact ⟨cap, hcap, hres, by rw [htouched.capability, hcap]⟩
  | _ => cases hv

/-- Inside a region nothing but the next instruction of the sender does
anything. -/
theorem Exclusive.inert (h : m.Exclusive) {act : CoreAction} {kind : SendKind} {a : SendArgs}
    {phase : Phase} (hp : m.control i = .send kind a phase) (hl : phase.locked = true)
    (hs : m.step act = some m') (hact : ∀ sp, act ≠ .proceed sp) : m.Inert m' := by
  have hlocked : (m.control i).locked = true := by rw [hp]; exact hl
  have hi := h.running i (.inr hlocked)
  have hlock := (h.owner i).mpr hlocked
  unfold Core.step at hs
  rw [hi] at hs
  split at hs
  · cases hs
  · cases hs
    exact timerIsr_deferred _ (.inr (by simp [hlock]))
  · simp_all
  · simp_all
  · rename_i sp _
    exact absurd rfl (hact sp)
  · rename_i heq _ _
    cases heq
    rw [hp] at hs
    cases hs

theorem Exclusive.inert_run (h : m.Exclusive) {kind : SendKind} {a : SendArgs} {phase : Phase}
    (hp : m.control i = .send kind a phase) (hl : phase.locked = true) {bs : List CoreAction}
    (hr : Lib.Run (Lib.Steps Core.step) m bs m') (hbs : ∀ b ∈ bs, ∀ sp, b ≠ .proceed sp) :
    m.Inert m' := by
  induction hr with
  | nil => exact ⟨rfl, rfl, rfl, rfl, rfl, rfl, rfl⟩
  | cons head _ ih =>
    have hin := h.inert hp hl head (hbs _ List.mem_cons_self)
    exact hin.trans (ih (h.step head) (by rw [hin.control, hp])
      (fun b hb => hbs b (List.mem_cons_of_mem _ hb)))

/-- The send region is atomic: from the validation to the release of the lock
the sender is the executing task; until its next instruction no tick, task or
adversary changes anything; the slot holds the capability that was validated;
and what the lock is released on is the result of the indivisible region on
the validated scheduler. -/
theorem send_atomic {m₀ : Core} {as : List CoreAction} (h0 : m₀.Quiet)
    (hr : Lib.Run (Lib.Steps Core.step) m₀ as m) {kind : SendKind} {a : SendArgs} {phase : Phase}
    (hp : m.control i = .send kind a phase) (hl : phase.locked = true) :
    m.cpu = .task i ∧
    (∀ bs m', Lib.Run (Lib.Steps Core.step) m bs m' → (∀ b ∈ bs, ∀ sp, b ≠ .proceed sp) →
      m.Inert m') ∧
    (∀ entry target, phase.validated = some (entry, target) →
      ∃ cap, entry.capability i a.capIdx = some cap ∧ cap.resource = .ipcChannel target ∧
        m.sched.capability i a.capIdx = some cap) ∧
    (∀ entry target, phase = .use entry target → m.sched = entry) ∧
    ∀ entry result, phase = .release entry result → (m.sched, result) = entry.region kind i a := by
  have hex : m.Exclusive := hr.invariant h0.exclusive (fun _ _ _ hs hstep => hs.step hstep)
  have hlocked : (m.control i).locked = true := by rw [hp]; exact hl
  have hmid := hex.midway i kind a phase hp
  refine ⟨hex.running i (.inr hlocked), fun bs m' hrun hbs => ?_,
    fun entry target hv => hmid.capability hv, fun entry target he => ?_,
    fun entry result he => ?_⟩
  · exact hex.inert_run hp hl hrun hbs
  · subst he
    exact hmid.1
  · subst he
    exact hmid

theorem quiet_boot (s : Scheduler) : (boot s).Quiet :=
  ⟨rfl, fun _ => rfl, by simp [boot, Preempt.new]⟩

/-- With preemption armed and the adversary aimed at the slot, the first task
has validated its send to the second when a tick arrives. -/
theorem send_atomic_tick : ∃ m a entry cap,
    Lib.Run (Lib.Steps Core.step) (boot (Scheduler.ofList Machine.pair))
      [.yield ⟨1, by decide⟩, .setArmed true, .armAdversary 0 0, .sendTyped 0 0 0 [],
        .proceed ⟨1, by decide⟩, .proceed ⟨1, by decide⟩, .proceed ⟨1, by decide⟩,
        .proceed ⟨1, by decide⟩, .proceed ⟨1, by decide⟩, .proceed ⟨1, by decide⟩,
        .proceed ⟨1, by decide⟩, .tick ⟨1, by decide⟩] m ∧
    m.control ⟨0, by decide⟩ = .send .typed a (.use entry 1) ∧
    m.cpu = .task ⟨0, by decide⟩ ∧ m.sched.capability 0 a.capIdx = some cap ∧
    cap.resource = .ipcChannel 1 := by
  obtain ⟨m, a, entry, hr, hp⟩ : ∃ m a entry,
      Lib.Run (Lib.Steps Core.step) (boot (Scheduler.ofList Machine.pair))
        [.yield ⟨1, by decide⟩, .setArmed true, .armAdversary 0 0, .sendTyped 0 0 0 [],
          .proceed ⟨1, by decide⟩, .proceed ⟨1, by decide⟩, .proceed ⟨1, by decide⟩,
          .proceed ⟨1, by decide⟩, .proceed ⟨1, by decide⟩, .proceed ⟨1, by decide⟩,
          .proceed ⟨1, by decide⟩, .tick ⟨1, by decide⟩] m ∧
      m.control ⟨0, by decide⟩ = .send .typed a (.use entry 1) :=
    ⟨_, _, _, Lib.run_of_execute rfl, rfl⟩
  obtain ⟨hcpu, _, hcap, _⟩ := send_atomic (quiet_boot _) hr hp rfl
  obtain ⟨cap, _, hres, hnow⟩ := hcap entry 1 rfl
  exact ⟨m, a, entry, cap, hr, hp, hcpu, hnow, hres⟩

end Core

end Runix
