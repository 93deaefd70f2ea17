import Runix.Preempt
import Runix.Proofs.Rendezvous
import Mathlib.Algebra.BigOperators.Fin
import Mathlib.Algebra.Order.BigOperators.Group.Finset

namespace Runix

namespace Phase

def critical : Phase → Bool
  | .enter => false
  | _ => true

def locked : Phase → Bool
  | .validate | .clear .. | .use .. | .wake .. | .park .. | .release .. => true
  | _ => false

def validated : Phase → Option (Scheduler × TaskId)
  | .use entry target | .wake entry target | .park entry target => some (entry, target)
  | _ => none

end Phase

namespace Control

def critical : Control → Bool
  | .send _ _ phase => phase.critical
  | _ => false

def locked : Control → Bool
  | .send _ _ phase => phase.locked
  | .holding _ | .releasing _ => true
  | _ => false

end Control

theorem Exit.control_critical (e : Exit) : e.control.critical = false := by
  cases e <;> rfl

theorem Exit.control_locked (e : Exit) : e.control.locked = false := by
  cases e <;> rfl

namespace Scheduler

def region (s : Scheduler) (kind : SendKind) (current : TaskId) (a : SendArgs) :
    Scheduler × Except IpcError SendStep :=
  match kind with
  | .typed => s.sendRegion current a
  | .async => ((s.sendAsyncRegion current a).1, (s.sendAsyncRegion current a).2.map .delivered)

def capability (s : Scheduler) (current : TaskId) (capIdx : Nat) : Option Capability :=
  (s.getTask current).bind (fun t => t.capTable.get capIdx)

/-- Changes that keep the capabilities of every task. -/
theorem capability_modify (s : Scheduler) (id : TaskId) {f : Task → Task}
    (hid : ∀ t, (f t).id = t.id) (hf : ∀ t, (f t).capTable = t.capTable) (current : TaskId)
    (capIdx : Nat) : (s.modify id f).capability current capIdx = s.capability current capIdx := by
  unfold capability
  by_cases hc : current = id
  · subst hc
    rw [getTask_modify_self s current hid]
    cases s.getTask current with
    | none => rfl
    | some t => simp [hf]
  · rw [getTask_modify_ne s hc]

end Scheduler

namespace Core

variable {m m' : Core} {i : Fin maxTasks}

def Touched (entry s : Scheduler) : Prop :=
  ∃ id, ∃ f : Task → Task, s = entry.modify id f ∧ (∀ t, (f t).id = t.id) ∧
    ∀ t, (f t).capTable = t.capTable

/-- In the middle of a region the scheduler is the one that was validated, up
to the half of the region that has been carried out; the rest of the region
completes it. -/
def Midway (m : Core) (i : Fin maxTasks) (kind : SendKind) (a : SendArgs) : Phase → Prop
  | .clear entry e => m.sched = entry ∧
      (m.sched.modify i (fun sender => { sender with ipcBuffer := none }), .error e) =
        entry.region kind i a
  | .use entry target => m.sched = entry ∧ entry.resolveTargetLocked i a.capIdx = .ok target
  | .wake entry target => Touched entry m.sched ∧
      entry.resolveTargetLocked i a.capIdx = .ok target ∧
      (m.sched.modify target (fun t => { t with state := wakeState kind t.state }),
        .ok (.delivered target)) = entry.region kind i a
  | .park entry target => Touched entry m.sched ∧
      entry.resolveTargetLocked i a.capIdx = .ok target ∧
      (m.sched.modify i (fun sender => { sender with ipcBuffer := some (a.message i) }),
        .ok .blocked) = entry.region kind i a
  | .release entry result => (m.sched, result) = entry.region kind i a
  | _ => True

def load (m : Core) (i : Fin maxTasks) : Nat := m.depth i + (m.control i).critical.toNat

/-- Mutual exclusion on the core: only the executing task is in a critical
region or holds the lock, and the preempt count is the number of open
regions. -/
structure Exclusive (m : Core) : Prop where
  owner : ∀ i, m.lock = some i ↔ (m.control i).locked = true
  running : ∀ i, (m.control i).critical = true ∨ (m.control i).locked = true → m.cpu = .task i
  count : m.preempt.preemptCount = ∑ i, m.load i
  midway : ∀ i kind a phase, m.control i = .send kind a phase → m.Midway i kind a phase

theorem midway_unlocked {kind : SendKind} {a : SendArgs} {phase : Phase}
    (h : phase.locked = false) : m.Midway i kind a phase := by
  cases phase <;> trivial

theorem midway_congr (hs : m'.sched = m.sched) {kind : SendKind} {a : SendArgs} {phase : Phase} :
    m'.Midway i kind a phase = m.Midway i kind a phase := by
  unfold Midway
  rw [hs]

theorem sum_change {n : Nat} {f g : Fin n → Nat} (i : Fin n) (h : ∀ j, j ≠ i → g j = f j) :
    ∑ j, g j + f i = ∑ j, f j + g i := by
  have hf := Finset.add_sum_erase Finset.univ f (Finset.mem_univ i)
  have hg' := Finset.add_sum_erase Finset.univ g (Finset.mem_univ i)
  have hrest : ∑ j ∈ Finset.univ.erase i, g j = ∑ j ∈ Finset.univ.erase i, f j :=
    Finset.sum_congr rfl (fun j hj => h j (Finset.ne_of_mem_erase hj))
  omega

/-- The other tasks are outside all regions while task `i` executes. -/
theorem Exclusive.others (h : m.Exclusive) (hi : m.cpu = .task i) (j : Fin maxTasks) (hj : j ≠ i) :
    (m.control j).critical = false ∧ (m.control j).locked = false := by
  constructor
  · by_contra hc
    cases hi.symm.trans (h.running j (.inl (Bool.not_eq_false _ ▸ hc)))
    exact hj rfl
  · by_contra hl
    cases hi.symm.trans (h.running j (.inr (Bool.not_eq_false _ ▸ hl)))
    exact hj rfl

/-- The executing task does something and keeps the processor. -/
theorem Exclusive.own (h : m.Exclusive) (hi : m.cpu = .task i) {c : Control}
    (hcpu : m'.cpu = m.cpu) (hctl : m'.control = Function.update m.control i c)
    (hdepth : ∀ j, j ≠ i → m'.depth j = m.depth j)
    (hlock : m'.lock = if c.locked then some i else none)
    (hcount : m'.preempt.preemptCount + m.load i =
      m.preempt.preemptCount + (m'.depth i + c.critical.toNat))
    (hmid : ∀ kind a phase, c = .send kind a phase → m'.Midway i kind a phase) :
    m'.Exclusive := by
  have hself : m'.control i = c := by
    rw [hctl, Function.update_self]
  have hother : ∀ j, j ≠ i → m'.control j = m.control j := by
    intro j hj
    rw [hctl, Function.update_of_ne hj]
  have hidle := h.others hi
  refine ⟨fun j => ?_, fun j hj => ?_, ?_, fun j kind a phase hp => ?_⟩
  · rw [hlock]
    by_cases hji : j = i
    · subst hji
      rw [hself]
      cases c.locked <;> simp
    · rw [hother j hji, (hidle j hji).2]
      cases c.locked <;> simp [Ne.symm hji]
  · rw [hcpu]
    by_cases hji : j = i
    · rw [hji, hi]
    · rw [hother j hji, (hidle j hji).1, (hidle j hji).2] at hj
      simp at hj
  · have hload : ∀ j, j ≠ i → m'.load j = m.load j := by
      intro j hj
      rw [load, load, hother j hj, hdepth j hj]
    have hsum := sum_change i hload
    have hi' : m'.load i = m'.depth i + c.critical.toNat := by
      rw [load, hself]
    have := h.count
    omega
  · by_cases hji : j = i
    · subst hji
      exact hmid kind a phase (hself.symm.trans hp)
    · rw [hother j hji] at hp
      have hunlocked := (hidle j hji).2
      rw [hp] at hunlocked
      exact midway_unlocked hunlocked

/-- Nobody is in a region or holds the lock. -/
theorem exclusive_of_idle (hlock : m.lock = none) (hc : ∀ j, (m.control j).critical = false)
    (hl : ∀ j, (m.control j).locked = false)
    (hcount : m.preempt.preemptCount = ∑ j, m.depth j) : m.Exclusive := by
  refine ⟨fun j => ?_, fun j hj => ?_, ?_, fun j kind a phase hp => ?_⟩
  · rw [hlock, hl]
    simp
  · rw [hc, hl] at hj
    simp at hj
  · rw [hcount]
    apply Finset.sum_congr rfl
    intro j _
    rw [load, hc, Bool.toNat_false, Nat.add_zero]
  · have hunlocked := hl j
    rw [hp] at hunlocked
    exact midway_unlocked hunlocked

theorem Exclusive.load_le (h : m.Exclusive) (i : Fin maxTasks) :
    m.load i ≤ m.preempt.preemptCount := by
  rw [h.count]
  exact Finset.single_le_sum (f := m.load) (fun j _ => Nat.zero_le _) (Finset.mem_univ i)

/-- While task `i` executes, the lock is free or its own. -/
theorem Exclusive.lock_eq (h : m.Exclusive) (hi : m.cpu = .task i) :
    m.lock = if (m.control i).locked then some i else none := by
  cases hl : m.lock with
  | none =>
    have hfree : (m.control i).locked = false := by
      by_contra hlocked
      cases hl.symm.trans ((h.owner i).mpr (Bool.not_eq_false _ ▸ hlocked))
    rw [hfree]
    rfl
  | some j =>
    have hlocked := (h.owner j).mp hl
    cases hi.symm.trans (h.running j (.inr hlocked))
    rw [hlocked]
    rfl

/-- A validated send carries out the first half of its region. -/
theorem use_midway (kind : SendKind) {a : SendArgs} {target : TaskId}
    (hr : m.sched.resolveTargetLocked i a.capIdx = .ok target) :
    ∃ s phase, m.use i kind a m.sched target = ({ m with sched := s } : Core).advance i kind a phase ∧
      phase.locked = true ∧ phase.critical = true ∧
      ({ m with sched := s } : Core).Midway i kind a phase := by
  cases kind with
  | typed =>
    simp only [use]
    cases hst : (m.sched.getTask target).map Task.state with
    | none =>
      refine ⟨m.sched, _, rfl, rfl, rfl, ?_⟩
      simp [Midway, Scheduler.region, Scheduler.sendRegion, hr, hst]
    | some st =>
      cases st with
      | terminated =>
        refine ⟨m.sched, _, rfl, rfl, rfl, ?_⟩
        simp [Midway, Scheduler.region, Scheduler.sendRegion, hr, hst]
      | blockedOnReceive =>
        refine ⟨_, _, rfl, rfl, rfl, ⟨target, _, rfl, fun _ => rfl, fun _ => rfl⟩, hr, ?_⟩
        simp only [Scheduler.region, Scheduler.sendRegion, hr, hst, wakeState]
        rw [Scheduler.modify_modify]
        intro t
        rfl
      | ready | running | blockedOnSend =>
        refine ⟨_, _, rfl, rfl, rfl, ⟨i, _, rfl, fun _ => rfl, fun _ => rfl⟩, hr, ?_⟩
        simp only [Scheduler.region, Scheduler.sendRegion, hr, hst]
        rw [Scheduler.modify_modify]
        intro t
        rfl
  | async =>
    simp only [use]
    cases hu : m.sched.getTask target with
    | none =>
      refine ⟨m.sched, _, rfl, rfl, rfl, ?_⟩
      simp [Midway, Scheduler.region, Scheduler.sendAsyncRegion, hr, hu, Except.map]
    | some u =>
      simp only
      by_cases hst : u.state = .terminated
      · rw [if_pos hst]
        refine ⟨m.sched, _, rfl, rfl, rfl, ?_⟩
        simp [Midway, Scheduler.region, Scheduler.sendAsyncRegion, hr, hu, hst, Except.map]
      · rw [if_neg hst]
        cases hq : u.msgQueue.enqueue (a.message i) with
        | none =>
          refine ⟨m.sched, _, rfl, rfl, rfl, ?_⟩
          simp [Midway, Scheduler.region, Scheduler.sendAsyncRegion, hr, hu, hst, hq, Except.map]
        | some queue =>
          refine ⟨_, _, rfl, rfl, rfl, ⟨target, _, rfl, fun _ => rfl, fun _ => rfl⟩, hr, ?_⟩
          simp only [Scheduler.region, Scheduler.sendAsyncRegion, hr, hu, if_neg hst, hq, wakeState,
            Except.map]
          rw [Scheduler.modify_modify]
          intro t
          rfl

section Own
variable {kind : SendKind} {a : SendArgs} {phase : Phase}

theorem load_send (hp : m.control i = .send kind a phase) :
    m.load i = m.depth i + phase.critical.toNat := by
  rw [load, hp]
  rfl

/-- A send attempt moves from one phase to another. -/
theorem Exclusive.moves (h : m.Exclusive) (hi : m.cpu = .task i)
    (hp : m.control i = .send kind a phase) {next : Phase} (hcpu : m'.cpu = m.cpu)
    (hctl : m'.control = Function.update m.control i (.send kind a next))
    (hdepth : m'.depth = m.depth) (hlock : m'.lock = if next.locked then some i else none)
    (hcount : m'.preempt.preemptCount + phase.critical.toNat =
      m.preempt.preemptCount + next.critical.toNat)
    (hmid : m'.Midway i kind a next) : m'.Exclusive := by
  refine h.own hi hcpu hctl (fun j _ => by rw [hdepth]) hlock ?_ ?_
  · have hnext : (Control.send kind a next).critical = next.critical := rfl
    rw [hdepth, load_send hp, hnext]
    omega
  · intro kind' a' phase' he
    cases he
    exact hmid

theorem Exclusive.proceedSend (h : m.Exclusive) (hi : m.cpu = .task i)
    (hp : m.control i = .send kind a phase) : (m.proceedSend i kind a phase).Exclusive := by
  have hlock := h.lock_eq hi
  have hmid := h.midway i kind a phase hp
  rw [hp] at hlock
  cases phase with
  | enter =>
    cases kind with
    | typed => exact h.moves hi hp rfl rfl rfl hlock rfl trivial
    | async => exact h.moves hi hp rfl rfl rfl hlock rfl trivial
  | window => exact h.moves hi hp rfl rfl rfl hlock rfl trivial
  | acquire =>
    simp only [Core.proceedSend]
    split
    · exact h
    · exact h.moves hi hp rfl rfl rfl rfl rfl trivial
  | validate =>
    simp only [Core.proceedSend]
    cases hr : m.sched.resolveTargetLocked i a.capIdx with
    | ok target => exact h.moves hi hp rfl rfl rfl hlock rfl ⟨rfl, hr⟩
    | error e =>
      cases kind with
      | typed =>
        refine h.moves hi hp rfl rfl rfl hlock rfl ⟨rfl, ?_⟩
        simp [advance, goto, Scheduler.region, Scheduler.sendRegion, hr]
      | async =>
        refine h.moves hi hp rfl rfl rfl hlock rfl ?_
        simp [Midway, advance, goto, Scheduler.region, Scheduler.sendAsyncRegion, hr, Except.map]
  | clear entry e => exact h.moves hi hp rfl rfl rfl hlock rfl hmid.2
  | use entry target =>
    obtain ⟨hentry, hr⟩ := hmid
    subst hentry
    obtain ⟨s, next, heq, hlocked, hcrit, hmid⟩ := use_midway kind hr
    simp only [Core.proceedSend, heq]
    refine h.moves hi hp rfl rfl rfl ?_ ?_ ?_
    · rw [hlocked]
      exact hlock
    · rw [hcrit]
      rfl
    · cases next <;> exact hmid
  | wake entry target => exact h.moves hi hp rfl rfl rfl hlock rfl hmid.2.2
  | park entry target => exact h.moves hi hp rfl rfl rfl hlock rfl hmid.2.2
  | release entry result =>
    cases kind with
    | typed => exact h.moves hi hp rfl rfl rfl rfl rfl trivial
    | async => exact h.moves hi hp rfl rfl rfl rfl rfl trivial
  | closeWindow result => exact h.moves hi hp rfl rfl rfl hlock rfl trivial
  | leave result =>
    have hafter : (afterRegion kind a result).critical = false ∧
        (afterRegion kind a result).locked = false := by
      unfold afterRegion
      split <;> exact ⟨rfl, rfl⟩
    have hload : m.load i = m.depth i + 1 := load_send hp
    have hcount := h.load_le i
    refine h.own hi (c := afterRegion kind a result) rfl rfl (fun _ _ => rfl) ?_ ?_ ?_
    · rw [hafter.2]
      exact hlock
    · have hpred : ((m.proceedSend i kind a (.leave result)).preempt.preemptCount) =
          m.preempt.preemptCount - 1 := rfl
      have hdepth : (m.proceedSend i kind a (.leave result)).depth i = m.depth i := rfl
      rw [hafter.1, hload, hpred, hdepth, Bool.toNat_false]
      omega
    · intro kind' a' phase' he
      have hunlocked := hafter.2
      rw [he] at hunlocked
      exact midway_unlocked hunlocked

end Own

/-- The executing task moves between places outside the send regions. -/
theorem Exclusive.outside (h : m.Exclusive) (hi : m.cpu = .task i) {c : Control}
    (hp : (m.control i).critical = false) (hc : c.critical = false) (hcpu : m'.cpu = m.cpu)
    (hctl : m'.control = Function.update m.control i c) (hdepth : m'.depth = m.depth)
    (hlock : m'.lock = if c.locked then some i else none)
    (hcount : m'.preempt.preemptCount = m.preempt.preemptCount) : m'.Exclusive := by
  refine h.own hi hcpu hctl (fun j _ => by rw [hdepth]) hlock ?_ ?_
  · rw [hcount, hdepth, load, hp, hc]
  · intro kind a phase he
    rw [he] at hc
    cases phase with
    | enter => trivial
    | _ => cases hc

theorem Exclusive.perform (h : m.Exclusive) (hi : m.cpu = .task i) {op : LockedOp}
    (hp : m.control i = .holding op) : (m.perform i op).Exclusive := by
  have hlock := h.lock_eq hi
  have hcrit : (m.control i).critical = false := by rw [hp]; rfl
  rw [hp] at hlock
  cases op with
  | identify next => exact h.outside hi hcrit rfl rfl rfl rfl hlock rfl
  | clearBuffer => exact h.outside hi hcrit rfl rfl rfl rfl hlock rfl
  | revoke task capIdx => exact h.outside hi hcrit rfl rfl rfl rfl hlock rfl
  | checkBuffer a =>
    simp only [Core.perform]
    split
    · exact h.outside hi hcrit rfl rfl rfl rfl hlock rfl
    · exact h.outside hi hcrit rfl rfl rfl rfl hlock rfl
  | receive block =>
    simp only [Core.perform]
    split
    · exact h.outside hi hcrit rfl rfl rfl rfl hlock rfl
    · split
      · exact h.outside hi hcrit rfl rfl rfl rfl hlock rfl
      · exact h.outside hi hcrit rfl rfl rfl rfl hlock rfl

section Switch
variable {decision : Scheduler × Option Switch} {sp : StackPointer}

theorem switchTo_control : (m.switchTo decision sp).control = m.control := by
  unfold switchTo
  split
  · rfl
  · split <;> rfl

theorem switchTo_lock : (m.switchTo decision sp).lock = m.lock := by
  unfold switchTo
  split
  · rfl
  · split <;> rfl

theorem switchTo_preempt : (m.switchTo decision sp).preempt = m.preempt := by
  unfold switchTo
  split
  · rfl
  · split <;> rfl

theorem switchTo_depth : (m.switchTo decision sp).depth = m.depth := by
  unfold switchTo
  split
  · rfl
  · split <;> rfl

end Switch

/-- When nobody is in a region and the lock is free, anything may happen to
the scheduler and the processor. -/
theorem Exclusive.switched (h : m.Exclusive) (hc : ∀ j, (m.control j).critical = false)
    (hlock : m'.lock = none)
    (hctl : ∀ j, (m'.control j).critical = false ∧ (m'.control j).locked = false)
    (hdepth : m'.depth = m.depth)
    (hcount : m'.preempt.preemptCount = m.preempt.preemptCount) : m'.Exclusive := by
  refine exclusive_of_idle hlock (fun j => (hctl j).1) (fun j => (hctl j).2) ?_
  rw [hcount, hdepth, h.count]
  apply Finset.sum_congr rfl
  intro j _
  rw [load, hc, Bool.toNat_false, Nat.add_zero]

theorem Exclusive.yieldCpu (h : m.Exclusive) (hi : m.cpu = .task i) {resume : Control}
    (hp : (m.control i).critical = false) (hc : resume.critical = false)
    (hl : resume.locked = false) (sp : StackPointer) : (m.yieldCpu i resume sp).Exclusive := by
  unfold Core.yieldCpu
  split
  · exact h
  · rename_i hfree
    have hlock : m.lock = none := by simpa using hfree
    refine h.switched (fun j => ?_) ?_ (fun j => ?_) ?_ ?_
    · by_cases hj : j = i
      · rw [hj, hp]
      · exact (h.others hi j hj).1
    · rw [switchTo_lock]
      exact hlock
    · rw [switchTo_control, goto]
      by_cases hj : j = i
      · subst hj
        simp [hc, hl]
      · simp only [Function.update_of_ne hj]
        exact h.others hi j hj
    · rw [switchTo_depth]
      rfl
    · rw [switchTo_preempt]
      rfl

theorem Exclusive.proceed (h : m.Exclusive) (hi : m.cpu = .task i) {sp : StackPointer}
    (hs : m.proceed i sp = some m') : m'.Exclusive := by
  have hlock := h.lock_eq hi
  unfold Core.proceed at hs
  cases hp : m.control i with
  | user | dead => simp [hp] at hs
  | send kind a phase =>
    simp only [hp, Option.some.injEq] at hs
    subst hs
    exact h.proceedSend hi hp
  | acquire op =>
    simp only [hp, Option.some.injEq] at hs
    subst hs
    split
    · exact h
    · exact h.outside hi (by rw [hp]; rfl) rfl rfl rfl rfl rfl rfl
  | holding op =>
    simp only [hp, Option.some.injEq] at hs
    subst hs
    exact h.perform hi hp
  | releasing next =>
    simp only [hp, Option.some.injEq] at hs
    subst hs
    refine h.outside hi (by rw [hp]; rfl) next.control_critical rfl rfl rfl ?_ rfl
    rw [next.control_locked]
    rfl
  | sendWait a =>
    simp only [hp, Option.some.injEq] at hs
    subst hs
    exact h.yieldCpu hi (by rw [hp]; rfl) rfl rfl sp
  | receiveWait =>
    simp only [hp, Option.some.injEq] at hs
    subst hs
    exact h.yieldCpu hi (by rw [hp]; rfl) rfl rfl sp

end Core

end Runix
