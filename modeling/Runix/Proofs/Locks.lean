import Runix.Locks
import Runix.Proofs.Atomicity

namespace Runix

/-- The rest of a routine, by the lock it holds and the regions it has to close. A
routine holds one lock at a time and takes no second one. -/
inductive Bracketed : Option DriverLock → Nat → List Instr → Prop where
  | done : Bracketed none 0 []
  | acquire {l : DriverLock} {d : Nat} {rest : List Instr} (next : Bracketed (some l) d rest) :
      Bracketed none d (.acquire l :: rest)
  | release {l : DriverLock} {d : Nat} {rest : List Instr} (next : Bracketed none d rest) :
      Bracketed (some l) d (.release l :: rest)
  | enter {d : Nat} {rest : List Instr} (next : Bracketed none (d + 1) rest) :
      Bracketed none d (.enterCritical :: rest)
  | exit {d : Nat} {rest : List Instr} (next : Bracketed none d rest) :
      Bracketed none (d + 1) (.exitCritical :: rest)

theorem Routine.bracketed (r : Routine) : Bracketed none 0 r.code := by
  cases r with
  | print redirected =>
    cases redirected with
    | true => exact .enter (.acquire (.release (.exit .done)))
    | false => exact .enter (.acquire (.release (.acquire (.release (.exit .done)))))
  | serialAccess | keyboardRead | setRedirect => exact .acquire (.release .done)

namespace Core

variable {m m' : Core} {i : Fin maxTasks}

theorem timerIsr_disarmed (sp : StackPointer) (h : m.preempt.armed = false) :
    (m.timerIsr sp).cpu = m.cpu := by
  simp [timerIsr, Preempt.onTickShouldSwitch, Preempt.countTick, h]

theorem step_tick {sp : StackPointer} (hs : m.step (.tick sp) = some m') : m' = m.timerIsr sp := by
  unfold step at hs
  cases hcpu : m.cpu with
  | halted =>
    rw [hcpu] at hs
    cases hs
  | boot | task =>
    rw [hcpu] at hs
    cases hs
    rfl

theorem yieldCpu_depth (i : Fin maxTasks) (resume : Control) (sp : StackPointer) :
    (m.yieldCpu i resume sp).depth = m.depth := by
  unfold yieldCpu
  split
  · rfl
  · exact switchTo_depth

theorem proceedSend_frame (i : Fin maxTasks) (kind : SendKind) (a : SendArgs) (phase : Phase) :
    (m.proceedSend i kind a phase).depth = m.depth ∧
      (m.proceedSend i kind a phase).cpu = m.cpu := by
  cases phase with
  | acquire =>
    simp only [proceedSend]
    split <;> exact ⟨rfl, rfl⟩
  | validate =>
    simp only [proceedSend]
    split <;> exact ⟨rfl, rfl⟩
  | use entry target =>
    cases kind with
    | typed =>
      simp only [proceedSend, use]
      split <;> exact ⟨rfl, rfl⟩
    | async =>
      simp only [proceedSend, use]
      split
      · exact ⟨rfl, rfl⟩
      · split
        · exact ⟨rfl, rfl⟩
        · split <;> exact ⟨rfl, rfl⟩
  | _ => exact ⟨rfl, rfl⟩

theorem perform_frame (i : Fin maxTasks) (op : LockedOp) :
    (m.perform i op).depth = m.depth ∧ (m.perform i op).cpu = m.cpu := by
  cases op with
  | checkBuffer a =>
    simp only [perform]
    split <;> exact ⟨rfl, rfl⟩
  | receive block =>
    simp only [perform]
    split
    · exact ⟨rfl, rfl⟩
    · split <;> exact ⟨rfl, rfl⟩
  | _ => exact ⟨rfl, rfl⟩

theorem proceed_depth {sp : StackPointer} (hs : m.proceed i sp = some m') : m'.depth = m.depth := by
  unfold proceed at hs
  split at hs
  · cases hs
  · cases hs
  · cases hs
    exact (proceedSend_frame ..).1
  · cases hs
    split <;> rfl
  · cases hs
    exact (perform_frame ..).1
  · cases hs
    rfl
  · cases hs
    exact yieldCpu_depth ..
  · cases hs
    exact yieldCpu_depth ..

theorem enter_depth {act : CoreAction} (hs : m.enter i act = some m') (j : Fin maxTasks)
    (hj : j ≠ i) : m'.depth j = m.depth j := by
  cases act with
  | sendTyped | sendAsync =>
    cases hs
    unfold enterSend
    split <;> rfl
  | enterCritical =>
    cases hs
    exact Function.update_of_ne hj ..
  | exitCritical =>
    simp only [enter] at hs
    split at hs
    · cases hs
    · cases hs
      exact Function.update_of_ne hj ..
  | yield sp =>
    cases hs
    rw [yieldCpu_depth]
  | terminate =>
    simp only [enter] at hs
    split at hs <;> cases hs <;> rfl
  | proceed | tick => cases hs
  | _ =>
    cases hs
    rfl

/-- Only the executing task opens and closes regions of its own. -/
theorem step_depth {act : CoreAction} (hs : m.step act = some m') (j : Fin maxTasks)
    (hj : m.cpu ≠ .task j) : m'.depth j = m.depth j := by
  unfold step at hs
  split at hs
  · cases hs
  · cases hs
    rw [timerIsr_depth]
  · cases hs
    split
    · rfl
    · rw [switchTo_depth]
  · cases hs
  · rw [proceed_depth hs]
  · rename_i hi _ _
    split at hs
    · refine enter_depth hs j ?_
      rintro rfl
      exact hj hi
    · cases hs

end Core

def Control.waits : Control → Bool
  | .sendWait _ | .receiveWait => true
  | _ => false

def CoreAction.isTick : CoreAction → Bool
  | .tick _ => true
  | _ => false

namespace Core

variable {m m' : Core} {i : Fin maxTasks}

/-- The executing task gives the processor away. -/
def surrenders (m : Core) : CoreAction → Bool
  | .yield _ | .terminate => true
  | .proceed _ =>
    match m.cpu with
    | .task i => (m.control i).waits
    | _ => false
  | _ => false

theorem yieldCpu_gate (i : Fin maxTasks) (resume : Control) (sp : StackPointer) :
    (m.yieldCpu i resume sp).preempt = m.preempt ∧ (m.yieldCpu i resume sp).lock = m.lock := by
  unfold yieldCpu
  split
  · exact ⟨rfl, rfl⟩
  · exact ⟨switchTo_preempt, switchTo_lock⟩

theorem enter_leaves {act : CoreAction} (hs : m.enter i act = some m') :
    m'.cpu = m.cpu ∨
      m.surrenders act = true ∧ m'.preempt = m.preempt ∧ m'.lock = m.lock := by
  cases act with
  | sendTyped | sendAsync =>
    cases hs
    left
    unfold enterSend
    split <;> rfl
  | exitCritical =>
    simp only [enter] at hs
    split at hs
    · cases hs
    · cases hs
      exact .inl rfl
  | yield sp =>
    cases hs
    exact .inr ⟨rfl, yieldCpu_gate ..⟩
  | terminate =>
    simp only [enter] at hs
    split at hs <;> cases hs <;> exact .inr ⟨rfl, rfl, rfl⟩
  | proceed | tick => cases hs
  | _ =>
    cases hs
    exact .inl rfl

/-- A step keeps the processor, or gives it away and leaves what stops a tick. -/
theorem step_leaves {act : CoreAction} (hs : m.step act = some m') (htick : act.isTick = false) :
    m'.cpu = m.cpu ∨
      m.surrenders act = true ∧ m'.preempt = m.preempt ∧ m'.lock = m.lock := by
  unfold step at hs
  split at hs
  · cases hs
  · cases htick
  · cases hs
    right
    split
    · exact ⟨rfl, rfl, rfl⟩
    · exact ⟨rfl, switchTo_preempt, switchTo_lock⟩
  · cases hs
  · rename_i i sp hi
    unfold proceed at hs
    split at hs
    · cases hs
    · cases hs
    · cases hs
      exact .inl (proceedSend_frame ..).2
    · cases hs
      left
      split <;> rfl
    · cases hs
      exact .inl (perform_frame ..).2
    · cases hs
      exact .inl rfl
    all_goals
      rename_i hctl
      cases hs
      exact .inr ⟨by simp [surrenders, hi, hctl, Control.waits], yieldCpu_gate ..⟩
  · split at hs
    · exact enter_leaves hs
    · cases hs

theorem preemptible_congr (hp : m'.preempt.gate = m.preempt.gate) (hl : m'.lock = m.lock) :
    m'.preemptible = m.preemptible := by
  obtain ⟨hcount, harmed⟩ := Prod.mk.inj hp
  rw [preemptible, hcount, harmed, hl, preemptible]

/-- A tick takes the processor away only if it can. -/
theorem timerIsr_kept (sp : StackPointer) (h : m.preemptible = false) :
    (m.timerIsr sp).cpu = m.cpu := by
  by_cases hd : m.preempt.preemptCount ≠ 0 ∨ m.lock.isSome = true
  · exact (timerIsr_deferred sp hd).cpu
  · obtain ⟨hcount, hlock⟩ := not_or.mp hd
    refine timerIsr_disarmed sp ?_
    simpa [preemptible, not_not.mp hcount, Option.not_isSome_iff_eq_none.mp hlock] using h

section Regions
variable (h : m.Exclusive) (hi : m.cpu = .task i)
include h hi

theorem Exclusive.openRegion : (m.openRegion i).Exclusive := by
  refine h.own hi rfl (Function.update_eq_self i m.control).symm
    (fun j hj => Function.update_of_ne hj ..) (h.lock_eq hi) ?_ (fun kind a phase hp => ?_)
  · simp only [Core.openRegion, Preempt.enterCritical, Function.update_self, load]
    omega
  · have hsched : (m.openRegion i).sched = m.sched := rfl
    rw [midway_congr hsched]
    exact h.midway i kind a phase hp

theorem Exclusive.closeRegion (hd : 0 < m.depth i) : (m.closeRegion i).Exclusive := by
  have hle := h.load_le i
  refine h.own hi rfl (Function.update_eq_self i m.control).symm
    (fun j hj => Function.update_of_ne hj ..) (h.lock_eq hi) ?_ (fun kind a phase hp => ?_)
  · simp only [Core.closeRegion, Preempt.exitCritical, Function.update_self, load] at hle ⊢
    omega
  · have hsched : (m.closeRegion i).sched = m.sched := rfl
    rw [midway_congr hsched]
    exact h.midway i kind a phase hp

end Regions

end Core

namespace Board

variable {b b' b₀ : Board} {i j : Fin maxTasks} {l : DriverLock} {rest : List Instr}

/-- A task is where its code says: what it holds is what its code gives back, and
the regions its code closes are open. -/
def Placed (b : Board) (i : Fin maxTasks) : Prop :=
  ∃ held d, Bracketed held d (b.code i) ∧ (∀ l, b.owner l = some i ↔ held = some l) ∧
    d ≤ b.core.depth i

/-- The serial port and the target of the output are held by the executing task only. The
keyboard buffer may be held by another one; whoever then waits for it can be preempted, and the
handler finds it free. -/
structure Ordered (b : Board) : Prop where
  exclusive : b.core.Exclusive
  placed : ∀ i, b.Placed i
  running : ∀ l j, l ≠ .kbdBuffer → b.owner l = some j → b.core.cpu = .task j
  reads : ∀ i, .acquire .kbdBuffer ∉ (b.code i).tail
  patient : ∀ i rest, b.core.cpu = .task i → b.code i = .acquire .kbdBuffer :: rest →
    b.owner .kbdBuffer ≠ none → b.core.preemptible = true
  handler : b.handler = true → b.owner .kbdBuffer = none

/-- A tick that takes the processor away meets neither the serial port nor the target of the
output locked, and a key is not pressed while the keyboard buffer is. While another task has
the buffer, nobody starts to read it, or gives the processor away, where ticks are deferred. -/
def Spaced (b : Board) : BoardAction → Prop
  | .core act =>
    (act.isTick = true → b.core.preemptible = true →
      b.owner .serial1 = none ∧ b.owner .redirectTarget = none) ∧
    (b.core.surrenders act = true → b.core.preemptible = true ∨ b.owner .kbdBuffer = none)
  | .call .keyboardRead => b.core.preemptible = true ∨ b.owner .kbdBuffer = none
  | .key => b.owner .kbdBuffer = none
  | _ => True

theorem Placed.congr (h : b.Placed i) (hcode : b'.code i = b.code i)
    (howner : ∀ l, b'.owner l = some i ↔ b.owner l = some i)
    (hdepth : b'.core.depth i = b.core.depth i) : b'.Placed i := by
  obtain ⟨held, d, hcode', hheld, hd⟩ := h
  refine ⟨held, d, by rwa [hcode], fun l => (howner l).trans (hheld l), by rwa [hdepth]⟩

/-- A task in no routine holds nothing. -/
theorem Placed.free (h : b.Placed i) (hcode : b.code i = []) (l : DriverLock) :
    b.owner l ≠ some i := by
  obtain ⟨held, d, hdis, hheld, _⟩ := h
  rw [hcode] at hdis
  cases hdis
  intro howner
  cases (hheld l).mp howner

theorem Placed.waiting (h : b.Placed i) {l' : DriverLock} (hcode : b.code i = .acquire l' :: rest)
    (l : DriverLock) : b.owner l ≠ some i := by
  obtain ⟨held, d, hdis, hheld, _⟩ := h
  rw [hcode] at hdis
  cases hdis
  intro howner
  cases (hheld l).mp howner

/-- Between two routines of the executing task only the keyboard buffer can be locked. -/
theorem Ordered.unowned (h : b.Ordered) (hidle : b.idle = true) (hl : l ≠ .kbdBuffer) :
    b.owner l = none := by
  cases hown : b.owner l with
  | none => rfl
  | some j =>
    have hcpu := h.running l j hl hown
    simp only [idle, hcpu, List.isEmpty_iff] at hidle
    exact absurd hown ((h.placed j).free hidle l)

/-- A lock the executing task waits for is free, unless it is the keyboard buffer. -/
theorem Ordered.available (h : b.Ordered) (hi : b.core.cpu = .task i)
    (hcode : b.code i = .acquire l :: rest) (hl : l ≠ .kbdBuffer) : b.owner l = none := by
  cases hown : b.owner l with
  | none => rfl
  | some j =>
    cases hi.symm.trans (h.running l j hl hown)
    exact absurd hown ((h.placed i).waiting hcode l)

/-- The core moves and the locks stay where they are. -/
theorem Ordered.core (h : b.Ordered) {core : Core} (hex : core.Exclusive)
    (hdepth : ∀ j, core.depth j = b.core.depth j ∨ b.code j = [])
    (hcpu : core.cpu = b.core.cpu ∨ ∀ l, l ≠ .kbdBuffer → b.owner l = none)
    (hpatient : ∀ i rest, core.cpu = .task i → b.code i = .acquire .kbdBuffer :: rest →
      b.owner .kbdBuffer ≠ none → core.preemptible = true) :
    ({ b with core := core } : Board).Ordered := by
  refine ⟨hex, fun j => ?_, fun l j hl hown => ?_, h.reads, hpatient, h.handler⟩
  · cases hdepth j with
    | inl hd => exact (h.placed j).congr rfl (fun _ => Iff.rfl) hd
    | inr hcode =>
      have hfree := (h.placed j).free hcode
      refine ⟨none, 0, ?_, fun l => ?_, Nat.zero_le _⟩
      · rw [show ({ b with core := core } : Board).code j = [] from hcode]
        exact .done
      · exact ⟨fun hown => absurd hown (hfree l), fun hnone => by cases hnone⟩
  · cases hcpu with
    | inl hsame => exact hsame.trans (h.running l j hl hown)
    | inr hnone => cases (hnone l hl).symm.trans hown

theorem Ordered.tick (h : b.Ordered) (sp : StackPointer) (hg : b.Spaced (.core (.tick sp))) :
    ({ b with core := b.core.timerIsr sp } : Board).Ordered := by
  have hsame := Core.preemptible_congr (Core.timerIsr_gate (m := b.core) sp) (Core.timerIsr_lock sp)
  refine h.core (h.exclusive.timerIsr sp) (fun j => .inl (by rw [Core.timerIsr_depth])) ?_
    (fun i rest hi hcode htaken => ?_)
  · cases hp : b.core.preemptible with
    | false => exact .inl (Core.timerIsr_kept sp hp)
    | true =>
      obtain ⟨hserial, hredirect⟩ := hg.1 rfl hp
      refine .inr (fun l hl => ?_)
      cases l with
      | serial1 => exact hserial
      | redirectTarget => exact hredirect
      | kbdBuffer => exact absurd rfl hl
  · cases hp : b.core.preemptible with
    | false =>
      rw [Core.timerIsr_kept sp hp] at hi
      cases hp.symm.trans (h.patient i rest hi hcode htaken)
    | true => exact hsame.trans hp

theorem Ordered.coreStep (h : b.Ordered) {act : CoreAction} {core : Core}
    (hs : b.core.step act = some core) (hidle : b.idle = true) (htick : act.isTick = false)
    (hg : b.Spaced (.core act)) : ({ b with core := core } : Board).Ordered := by
  refine h.core (h.exclusive.step hs) (fun j => ?_) (.inr (fun l => h.unowned hidle))
    (fun i rest hi hcode htaken => ?_)
  · by_cases hj : b.core.cpu = .task j
    · right
      simpa [idle, hj] using hidle
    · exact .inl (Core.step_depth hs j hj)
  · rcases Core.step_leaves hs htick with hsame | ⟨hleaves, hpreempt, hlock⟩
    · rw [hsame] at hi
      simp [idle, hi, hcode] at hidle
    · rw [Core.preemptible_congr (congrArg Preempt.gate hpreempt) hlock]
      exact (hg.2 hleaves).resolve_right htaken

/-- Tasks that neither had the lock nor get it see no change. -/
theorem setOwner_other {l' : DriverLock} {o : Option (Fin maxTasks)} (hold : b.owner l ≠ some j)
    (ho : o ≠ some j) :
    ((b.setOwner l o).setCode i rest).owner l' = some j ↔ b.owner l' = some j := by
  by_cases hl : l' = l
  · subst hl
    simp [setOwner, setCode, hold, ho]
  · simp [setOwner, setCode, Function.update_of_ne hl]

section Execute
variable (h : b.Ordered) (hi : b.core.cpu = .task i)
include h hi

/-- The executing task moves on in its code, and the other tasks see nothing of it. -/
theorem Ordered.own {held : Option DriverLock} {d : Nat} (hdis : Bracketed held d rest)
    (hex : b'.core.Exclusive) (hcpu : b'.core.cpu = b.core.cpu)
    (hcode : b'.code = Function.update b.code i rest)
    (hself : ∀ l, b'.owner l = some i ↔ held = some l)
    (hother : ∀ l j, j ≠ i → (b'.owner l = some j ↔ b.owner l = some j))
    (hd : d ≤ b'.core.depth i) (hdepth : ∀ j, j ≠ i → b'.core.depth j = b.core.depth j)
    (hreads : .acquire .kbdBuffer ∉ rest.tail)
    (hpatient : ∀ rest', rest = .acquire .kbdBuffer :: rest' → b'.owner .kbdBuffer ≠ none →
      b'.core.preemptible = true)
    (hh : b'.handler = false) : b'.Ordered := by
  refine ⟨hex, fun j => ?_, fun l j hl hown => ?_, fun j => ?_, fun j rest' hj hcode' htaken => ?_,
    fun hrun => ?_⟩
  · by_cases hj : j = i
    · subst hj
      exact ⟨held, d, by rwa [hcode, Function.update_self], hself, hd⟩
    · exact (h.placed j).congr (by rw [hcode, Function.update_of_ne hj])
        (fun l => hother l j hj) (hdepth j hj)
  · by_cases hj : j = i
    · exact hcpu.trans (hj ▸ hi)
    · exact hcpu.trans (h.running l j hl ((hother l j hj).mp hown))
  · by_cases hj : j = i
    · rwa [hcode, hj, Function.update_self]
    · rw [hcode, Function.update_of_ne hj]
      exact h.reads j
  · cases (hcpu.trans hi).symm.trans hj
    rw [hcode, Function.update_self] at hcode'
    exact hpatient rest' hcode' htaken
  · rw [hh] at hrun
    cases hrun

theorem Ordered.execute (hh : b.handler = false) {instr : Instr}
    (hcode : b.code i = instr :: rest) : (b.execute i rest instr).Ordered := by
  obtain ⟨held, d, hdis, hheld, hd⟩ := h.placed i
  have hreads := h.reads i
  rw [hcode] at hdis hreads
  have htail : .acquire .kbdBuffer ∉ rest.tail := fun hmem => hreads (List.mem_of_mem_tail hmem)
  have hpatient : ∀ b' : Board, ∀ rest', rest = .acquire .kbdBuffer :: rest' →
      b'.owner .kbdBuffer ≠ none → b'.core.preemptible = true := by
    rintro _ rest' rfl
    exact absurd List.mem_cons_self hreads
  cases hdis with
  | @acquire l _ _ next =>
    cases hown : b.owner l with
    | some j =>
      rw [Board.execute, hown]
      exact h
    | none =>
      simp only [Board.execute, hown, Option.isSome_none, Bool.false_eq_true, if_false]
      refine h.own hi next h.exclusive rfl rfl (fun l' => ?_) (fun l' j hj => ?_) hd (fun _ _ => rfl)
        htail (hpatient _) hh
      · by_cases hl : l' = l
        · subst hl
          simp [setOwner, setCode]
        · simpa [setOwner, setCode, Function.update_of_ne hl, Ne.symm hl] using hheld l'
      · exact setOwner_other (by simp [hown]) (by simpa using Ne.symm hj)
  | @release l _ _ next =>
    have hmine := (hheld l).mpr rfl
    refine h.own hi next h.exclusive rfl rfl (fun l' => ?_) (fun l' j hj => ?_) hd (fun _ _ => rfl)
      htail (hpatient _) hh
    · by_cases hl : l' = l
      · subst hl
        simp [Board.execute, setOwner, setCode]
      · simpa [Board.execute, setOwner, setCode, Function.update_of_ne hl, Ne.symm hl] using hheld l'
    · exact setOwner_other (by simpa [hmine] using Ne.symm hj) nofun
  | enter next =>
    refine h.own hi next (h.exclusive.openRegion hi) rfl rfl hheld (fun _ _ _ => Iff.rfl) ?_
      (fun j hj => Function.update_of_ne hj ..) htail (hpatient _) hh
    simpa [Board.execute, Core.openRegion] using hd
  | exit next =>
    refine h.own hi next (h.exclusive.closeRegion hi (by omega)) rfl rfl hheld
      (fun _ _ _ => Iff.rfl) ?_ (fun j hj => Function.update_of_ne hj ..) htail (hpatient _) hh
    simp only [Board.execute, Core.closeRegion, Function.update_self]
    omega

theorem Ordered.call (hh : b.handler = false) (hcode : b.code i = []) {r : Routine}
    (hg : b.Spaced (.call r)) : (b.setCode i r.code).Ordered := by
  have hfree := (h.placed i).free hcode
  refine h.own hi r.bracketed h.exclusive rfl rfl (fun l => ?_) (fun _ _ _ => Iff.rfl)
    (Nat.zero_le _) (fun _ _ => rfl) ?_ (fun rest' hrest htaken => ?_) hh
  · exact ⟨fun hown => absurd hown (hfree l), nofun⟩
  · rcases r with ⟨⟨⟩⟩ | _ | _ | _ <;> decide
  · cases r with
    | keyboardRead => exact hg.resolve_right htaken
    | print | serialAccess | setRedirect => cases hrest

end Execute

theorem Ordered.step (h : b.Ordered) {act : BoardAction} (hg : b.Spaced act)
    (hs : b.step act = some b') : b'.Ordered := by
  unfold Board.step at hs
  split at hs
  · rename_i sp
    split at hs
    · cases hs
    · obtain ⟨core, hcore, rfl⟩ := Option.map_eq_some_iff.mp hs
      rw [Core.step_tick hcore]
      exact h.tick sp hg
  · rename_i act hact
    split at hs
    · cases hs
    · rename_i hfree
      obtain ⟨core, hcore, rfl⟩ := Option.map_eq_some_iff.mp hs
      simp only [Bool.or_eq_true, not_or, Bool.not_eq_true, Bool.not_eq_false'] at hfree
      refine h.coreStep hcore hfree.2 ?_ hg
      cases act with
      | tick sp => exact absurd rfl (hact sp)
      | _ => rfl
  · split at hs
    · rename_i hi
      split at hs
      · cases hs
      · rename_i hfree
        cases hs
        simp only [Bool.or_eq_true, not_or, Bool.not_eq_true, Bool.not_eq_false', List.isEmpty_iff] at hfree
        exact h.call hi hfree.1.1 hfree.1.2 hg
    · cases hs
  · split at hs
    · rename_i hi
      split at hs
      · rename_i hh hcode
        cases hs
        exact h.execute hi hh hcode
      · cases hs
    · cases hs
  · split at hs
    · cases hs
    · cases hs
      exact ⟨h.exclusive, h.placed, h.running, h.reads, h.patient, fun _ => hg⟩
  · split at hs
    · rename_i hh
      cases hs
      rw [h.handler hh]
      exact ⟨h.exclusive, h.placed, h.running, h.reads, h.patient, nofun⟩
    · cases hs

/-- No context of a board in order spins on a lock that is taken. -/
theorem Ordered.live (h : b.Ordered) : ¬ b.Deadlocked := by
  intro hdead
  cases hdead with
  | handler j running taken => cases (h.handler running).symm.trans taken
  | task i j l running spins taken kept =>
    unfold wants at spins
    split at spins
    · rename_i l' rest hcode
      cases spins
      by_cases hl : l' = .kbdBuffer
      · subst hl
        rcases kept with rfl | hkept
        · exact (h.placed j).waiting hcode _ taken
        · have hpatient := h.patient i rest running hcode (by rw [show b.owner .kbdBuffer = _ from taken]; simp)
          cases hkept.symm.trans hpatient
      · cases (h.available running hcode hl).symm.trans taken
    · cases spins
    · have hlock := h.exclusive.lock_eq running
      split at spins
      all_goals
        rename_i hctl
        cases spins
      all_goals
        rw [hctl] at hlock
        cases hlock.symm.trans taken

structure Quiet (b : Board) : Prop where
  core : b.core.Quiet
  owner : ∀ l, b.owner l = none
  code : ∀ i, b.code i = []
  handler : b.handler = false

theorem Quiet.ordered (h : b.Quiet) : b.Ordered := by
  refine ⟨h.core.exclusive, fun i => ⟨none, 0, ?_, fun l => ?_, Nat.zero_le _⟩,
    fun l j _ hown => ?_, fun i => ?_, fun i rest _ hcode => ?_, fun hh => ?_⟩
  · rw [h.code]
    exact .done
  · rw [h.owner]
    exact ⟨nofun, nofun⟩
  · cases (h.owner l).symm.trans hown
  · rw [h.code]
    exact List.not_mem_nil
  · cases (h.code i).symm.trans hcode
  · cases h.handler.symm.trans hh

/-- As long as no switch meets the locks of the output held, no key an open keyboard buffer, and
nobody waits for the buffer where ticks are deferred, nobody ever spins on a lock whose holder
cannot run. -/
theorem no_deadlock {as : List BoardAction} (h0 : b₀.Quiet)
    (hr : Lib.Run (Lib.Guarded Spaced (Lib.Steps Board.step)) b₀ as b) : ¬ b.Deadlocked := by
  have hord : b.Ordered :=
    hr.invariant h0.ordered (fun _ _ _ hs hstep => hs.step hstep.1 hstep.2)
  exact hord.live

theorem quiet_boot (s : Scheduler) : (boot s).Quiet :=
  ⟨Core.quiet_boot s, fun _ => rfl, fun _ => rfl, rfl⟩

instance (b : Board) : (act : BoardAction) → Decidable (b.Spaced act)
  | .core _ => inferInstanceAs (Decidable (_ ∧ _))
  | .call .keyboardRead => inferInstanceAs (Decidable (_ ∨ _))
  | .key => inferInstanceAs (Decidable (_ = _))
  | .call (.print _) | .call .serialAccess | .call .setRedirect | .proceed | .handle =>
    .isTrue trivial

/-- The first task loses the processor while it reads the keyboard. The second prints, with a tick
in its region, and waits for the keyboard buffer; the first takes a key and gives the buffer
back. -/
def shared : List BoardAction :=
  [.core (.yield ⟨1, Nat.one_ne_zero⟩), .core (.setArmed true), .call .keyboardRead, .proceed,
    .core (.tick ⟨1, Nat.one_ne_zero⟩), .call (.print false), .proceed, .proceed,
    .core (.tick ⟨1, Nat.one_ne_zero⟩), .proceed, .proceed, .proceed, .proceed,
    .call .keyboardRead, .proceed, .core (.tick ⟨1, Nat.one_ne_zero⟩), .proceed, .key, .handle,
    .core (.tick ⟨1, Nat.one_ne_zero⟩), .proceed]

theorem no_deadlock_pair : ∃ b,
    Lib.Run (Lib.Guarded Spaced (Lib.Steps Board.step)) (boot (Scheduler.ofList Machine.pair))
      shared b ∧
    b.owner .kbdBuffer = some ⟨1, by decide⟩ ∧ ¬ b.Deadlocked := by
  obtain ⟨b, hr, hown⟩ : ∃ b,
      Lib.Run (Lib.Guarded Spaced (Lib.Steps Board.step)) (boot (Scheduler.ofList Machine.pair))
        shared b ∧ b.owner .kbdBuffer = some ⟨1, by decide⟩ :=
    ⟨_, Lib.guarded_of_execute rfl (by decide +kernel), rfl⟩
  exact ⟨b, hr, hown, no_deadlock (quiet_boot _) hr⟩

/-- A key is pressed while a task reads the keyboard buffer; and a task that has lost
the processor while it held the port leaves the next one to print spinning in its
region. -/
theorem lock_discipline_fails :
    (∃ b, Lib.Run (Lib.Steps Board.step) (boot (Scheduler.ofList Machine.pair))
      [.core (.yield ⟨1, by decide⟩), .core (.setArmed true), .call .keyboardRead, .proceed,
        .key] b ∧ b.handler = true ∧ b.owner .kbdBuffer = some ⟨0, by decide⟩ ∧ b.Deadlocked) ∧
    ∃ b, Lib.Run (Lib.Steps Board.step) (boot (Scheduler.ofList Machine.pair))
      [.core (.yield ⟨1, by decide⟩), .core (.setArmed true), .call .serialAccess, .proceed,
        .core (.tick ⟨1, by decide⟩), .call (.print false), .proceed, .proceed, .proceed] b ∧
      b.core.cpu = .task ⟨1, by decide⟩ ∧ b.wants ⟨1, by decide⟩ = some (.driver .serial1) ∧
      b.owner .serial1 = some ⟨0, by decide⟩ ∧ b.core.preempt.preemptCount = 1 ∧ b.Deadlocked := by
  constructor
  · exact ⟨_, Lib.run_of_execute rfl, rfl, rfl, .handler ⟨0, by decide⟩ rfl rfl⟩
  · exact ⟨_, Lib.run_of_execute rfl, rfl, rfl, rfl, rfl,
      .task ⟨1, by decide⟩ ⟨0, by decide⟩ (.driver .serial1) rfl rfl rfl (.inr rfl)⟩

end Board

end Runix
