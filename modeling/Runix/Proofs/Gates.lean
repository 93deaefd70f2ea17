import Runix.Gates
import Runix.Proofs.Exclusion
import Runix.Proofs.Propagation

namespace Runix

namespace Gate

def caller : Gate → Option TaskId
  | .writeCheck c .. | .write c .. | .revokeCheck c .. | .revoke c .. => some c
  | _ => none

def checked : Gate → Bool
  | .write .. | .revoke .. => true
  | _ => false

def removes : Gate → Bool
  | .revoke .. => true
  | _ => false

end Gate

namespace Scheduler

def HoldsSerial (s : Scheduler) (i : TaskId) (capIdx : Nat) : Prop :=
  ∃ cap, s.capability i capIdx = some cap ∧ cap.resource = .serial

def HoldsGrant (s : Scheduler) (i target : TaskId) : Prop :=
  ∃ slot cap, s.capability i slot = some cap ∧ cap.grant = true ∧ cap.resource = .ipcChannel target

end Scheduler

namespace Kernel

variable {k : Kernel}

theorem hasSerialCap_iff {task : TaskId} {capIdx : Nat} :
    k.hasSerialCap task capIdx = true ↔ k.sched.HoldsSerial task capIdx := by
  unfold hasSerialCap Scheduler.HoldsSerial Scheduler.capability
  cases k.sched.getTask task with
  | none => simp
  | some t => cases hc : t.capTable.get capIdx <;> simp [hc]

theorem currentHasGrantCapTo_iff {i : TaskId} (hcur : k.sched.currentTaskId = some i)
    {target : TaskId} : k.currentHasGrantCapTo target = true ↔ k.sched.HoldsGrant i target := by
  unfold currentHasGrantCapTo Scheduler.HoldsGrant Scheduler.capability
  cases ht : k.sched.getTask i with
  | none => simp [hcur, ht]
  | some t =>
    simp only [hcur, ht, List.any_eq_true, List.mem_finRange, true_and, Option.bind_some]
    constructor
    · rintro ⟨j, hj⟩
      split at hj
      · rename_i cap hcap
        obtain ⟨hgrant, hres⟩ := Bool.and_eq_true_iff.mp hj
        exact ⟨j, cap, by rw [CapTable.get_val, hcap], hgrant, of_decide_eq_true hres⟩
      · cases hj
    · rintro ⟨slot, cap, hget, hgrant, hres⟩
      obtain ⟨hslot, hcap⟩ := CapTable.get_eq_some.mp hget
      exact ⟨⟨slot, hslot⟩, by simp [hcap, hgrant, hres]⟩

theorem dispatchCapRevoke_locked (caller target capIdx : Nat) :
    k.dispatchCapRevoke caller target capIdx =
      if k.currentHasGrantCapTo target then k.revokeLocked caller target capIdx else (k, genericError) := by
  unfold dispatchCapRevoke revokeLocked
  cases k.currentHasGrantCapTo target <;> rfl

end Kernel

namespace Machine

variable {m m' : Machine}

/-- Tasks change in what the scheduler does not look at. -/
theorem Wf.mapped (h : m.Wf) (hc : m'.cpu = m.cpu)
    (hcur : m'.sched.currentTaskId = m.sched.currentTaskId) {f : Fin maxTasks → Task → Task}
    (ht : ∀ i, m'.sched.tasks i = (m.sched.tasks i).map (f i)) (hid : ∀ i t, (f i t).id = t.id)
    (hrsp : ∀ i t, (f i t).rsp = t.rsp) : m'.Wf := by
  have hocc : ∀ i t, m.sched.tasks i = some t → m'.sched.tasks i = some (f i t) := by
    intro i t hi
    rw [ht, hi, Option.map_some]
  refine ⟨fun i t hi => ?_, fun i t hi => ?_, fun hb => ?_, fun i hi => ?_, fun id hi => ?_⟩
  · rw [ht] at hi
    obtain ⟨u, hu, rfl⟩ := Option.map_eq_some_iff.mp hi
    rw [hid]
    exact h.indexed i u hu
  · rw [ht] at hi
    obtain ⟨u, hu, rfl⟩ := Option.map_eq_some_iff.mp hi
    rw [hrsp]
    exact h.resumable i u hu
  · rw [hcur]
    exact h.boot (hc ▸ hb)
  · obtain ⟨hi', t, ht'⟩ := h.current i (hc ▸ hi)
    exact ⟨hcur.trans hi', _, hocc i t ht'⟩
  · obtain ⟨i, t, hval, ht'⟩ := h.occupied id (hcur ▸ hi)
    exact ⟨i, _, hval, hocc i t ht'⟩

end Machine

def Kernel.Originals (k : Kernel) : Prop :=
  ∀ (i : Fin maxTasks) (j : Fin maxCaps),
    ((k.sched.tasks i).bind (fun t => t.capTable.slots j)).all (fun c => c.origin.isNone) = true

instance (k : Kernel) : Decidable k.Originals :=
  inferInstanceAs (Decidable (∀ (_ : Fin maxTasks) (_ : Fin maxCaps), _ = true))

/-- Nothing is derived from a capability where all of them are original ones. -/
theorem Kernel.propagateRevocation_originals {k : Kernel}
    (h : k.Originals) (rootId : Nat) : k.propagateRevocation rootId = k := by
  have hvisit : ∀ (w : Kernel.Propagation) (p : Slot), w.sched = k.sched → w.visit p.1 p.2 = w := by
    intro w p hw
    have hp := h p.1 p.2
    unfold Kernel.Propagation.visit
    rw [hw]
    split
    · rfl
    · rename_i task htask
      split
      · rfl
      · rename_i cap hcap
        rw [htask, Option.bind_some, hcap, Option.all_some, Option.isNone_iff_eq_none] at hp
        rw [hp]
  have hfold : ∀ (ps : List Slot) (w : Kernel.Propagation), w.sched = k.sched →
      ps.foldl (fun w p => w.visit p.1 p.2) w = w := by
    intro ps w hw
    induction ps with
    | nil => rfl
    | cons p ps ih => rw [List.foldl_cons, hvisit w p hw, ih]
  rw [Kernel.propagateRevocation, Kernel.revokedIdsCap, Kernel.Propagation.loop,
    Kernel.Propagation.pass, hfold _ _ rfl]
  rfl

namespace Gates

variable {g g' g₀ : Gates} {i : Fin maxTasks}

@[simp] theorem view_sched : g.view.sched = g.machine.sched := rfl

@[simp] theorem goto_self (next : Gate) : (g.goto i next).gate i = next := Function.update_self ..

@[simp] theorem goto_goto (next last : Gate) : (g.goto i next).goto i last = g.goto i last := by
  simp [goto]

@[simp] theorem goto_view (next : Gate) : (g.goto i next).view = g.view := rfl

theorem goto_install (next : Gate) (k : Kernel) :
    (g.goto i next).install k = (g.install k).goto i next := rfl

theorem goto_other (next : Gate) {j : Fin maxTasks} (hj : j ≠ i) :
    (g.goto i next).gate j = g.gate j := Function.update_of_ne hj ..

theorem revokeLocked_wf (h : g.machine.Wf) (caller target capIdx : Nat) :
    (g.install (g.view.revokeLocked caller target capIdx).1).machine.Wf := by
  unfold Kernel.revokeLocked
  cases ht : g.view.sched.getTask target with
  | none => exact h
  | some t =>
    cases hget : t.capTable.get capIdx with
    | none =>
      simp only [CapTable.kernelRevoke, hget]
      exact h
    | some cap =>
      obtain ⟨_, hlt, htask⟩ := Scheduler.getTask_some ht
      simp only [CapTable.kernelRevoke, hget]
      rw [Scheduler.modify_some ht hlt]
      have hone : ({ g.machine with
          sched := g.view.sched.set ⟨target, hlt⟩
            (some { t with capTable := t.capTable.clear capIdx }) } : Machine).Wf :=
        h.modified htask rfl rfl rfl rfl
      generalize hk : Kernel.record _ _ _ _ _ _ = k
      have hsched : k.sched = g.view.sched.set ⟨target, hlt⟩
          (some { t with capTable := t.capTable.clear capIdx }) := by
        rw [← hk]
        rfl
      obtain ⟨w, ps, heq, hps, _⟩ := k.propagateRevocation_emptied cap.id
      rw [heq]
      refine hone.mapped rfl ?_ (f := fun i u => u.stripped i ps) (fun i => ?_) (fun _ _ => rfl)
        (fun _ _ => rfl)
      · exact hps.current.trans (by rw [hsched])
      · exact (hps.tasks i).trans (by rw [hsched])

def Licensed (g : Gates) (i : Fin maxTasks) : Prop :=
  match g.gate i with
  | .write _ capIdx _ => g.machine.sched.HoldsSerial i capIdx
  | .revoke _ target _ => g.machine.sched.HoldsGrant i target
  | _ => True

structure Sound (g : Gates) : Prop where
  wf : g.machine.Wf
  caller : ∀ i id, (g.gate i).caller = some id → id = i.val
  licensed : ∀ i, g.Licensed i

/-- Nothing is taken from a task that is between its check and the use, and no other task is when
a `sys_cap_revoke` removes a capability with all that is derived from it. -/
def Unbroken (g : Gates) : GateAction → Prop
  | .machine (.revoke task _) => ∀ j, (g.gate j).checked = true → task ≠ j.val
  | .proceed => ∀ i, g.machine.cpu = .task i → (g.gate i).removes = true →
      ∀ j, (g.gate j).checked = true → j = i
  | _ => True

theorem licensed_of_unchecked (h : (g.gate i).checked = false) : g.Licensed i := by
  unfold Licensed
  cases hg : g.gate i with
  | write | revoke =>
    rw [hg] at h
    cases h
  | _ => trivial

theorem capability_of_table {s s' : Scheduler} (hs : s.Indexed) (hs' : s'.Indexed)
    (h : s'.table i = s.table i) : s'.capability i = s.capability i := by
  funext slot
  have htable : ∀ {s : Scheduler}, s.Indexed →
      s.capability i slot = (s.table i).bind (fun t => t.get slot) := by
    intro s hs
    rw [Scheduler.capability, hs.getTask, Scheduler.table, Option.bind_map]
    rfl
  rw [htable hs', h, htable hs]

theorem Licensed.frame (h : g.Licensed i) (hwf : g.machine.Wf) (hwf' : g'.machine.Wf)
    (hgate : g'.gate i = g.gate i) (htable : g'.machine.sched.table i = g.machine.sched.table i) :
    g'.Licensed i := by
  have hcap := capability_of_table hwf.indexed hwf'.indexed htable
  unfold Licensed at h ⊢
  rw [hgate]
  cases hg : g.gate i with
  | write | revoke =>
    rw [hg] at h
    simp only [Scheduler.HoldsSerial, Scheduler.HoldsGrant, hcap]
    exact h
  | _ => trivial

/-- A task moves on in its call. -/
theorem Sound.goto (h : g.Sound) {next : Gate} (hcaller : ∀ id, next.caller = some id → id = i.val)
    (hlicensed : (g.goto i next).Licensed i) : (g.goto i next).Sound := by
  refine ⟨h.wf, fun j id hid => ?_, fun j => ?_⟩
  · by_cases hji : j = i
    · subst hji
      rw [goto_self] at hid
      exact hcaller id hid
    · rw [goto_other next hji] at hid
      exact h.caller j id hid
  · by_cases hji : j = i
    · exact hji ▸ hlicensed
    · exact (h.licensed j).frame h.wf h.wf (goto_other next hji) rfl

theorem Sound.leave (h : g.Sound) : (g.goto i .user).Sound :=
  h.goto (fun _ hid => by cases hid) (licensed_of_unchecked (by rw [goto_self]; rfl))

/-- The executing task removes a capability, when no other task has a check behind it. -/
theorem Sound.removed (h : g.Sound) {k : Kernel} (hwf : (g.install k).machine.Wf)
    (hother : ∀ j, (g.gate j).checked = true → j = i) : ((g.install k).goto i .user).Sound := by
  refine ⟨hwf, fun j id hid => ?_, fun j => licensed_of_unchecked ?_⟩
  · by_cases hji : j = i
    · subst hji
      rw [goto_self] at hid
      cases hid
    · rw [goto_other _ hji] at hid
      exact h.caller j id hid
  · by_cases hji : j = i
    · subst hji
      rw [goto_self]
      rfl
    · rw [goto_other _ hji]
      exact Bool.eq_false_iff.mpr (fun hc => hji (hother j hc))

theorem Sound.advance (h : g.Sound) (hi : g.machine.cpu = .task i) (hg : g.Unbroken .proceed)
    (hs : g.advance i = some g') : g'.Sound := by
  have hcur : g.view.sched.currentTaskId = some i.val := (h.wf.current i hi).1
  unfold Gates.advance at hs
  cases hgate : g.gate i with
  | user =>
    rw [hgate] at hs
    cases hs
  | writeIdentify capIdx message | revokeIdentify target capIdx =>
    simp only [hgate, hcur] at hs
    cases hs
    refine h.goto (fun id hid => ?_) (licensed_of_unchecked ?_)
    · exact (Option.some.inj hid).symm
    · rw [goto_self]
      rfl
  | writeCheck caller capIdx message =>
    have hself : caller = i.val := h.caller i caller (by rw [hgate]; rfl)
    simp only [hgate] at hs
    cases hs
    split
    · rename_i hcheck
      refine h.goto (fun id hid => ?_) ?_
      · exact (Option.some.inj hid).symm.trans hself
      · have hholds := Kernel.hasSerialCap_iff.mp hcheck
        rw [hself] at hholds
        rw [Licensed, goto_self]
        exact hholds
    · exact h.leave
  | write caller capIdx message =>
    simp only [hgate] at hs
    cases hs
    have hprinted : (g.install (g.view.print message)).Sound := ⟨h.wf, h.caller, h.licensed⟩
    exact hprinted.leave
  | revokeCheck caller target capIdx =>
    have hself : caller = i.val := h.caller i caller (by rw [hgate]; rfl)
    simp only [hgate] at hs
    cases hs
    split
    · rename_i hcheck
      refine h.goto (fun id hid => ?_) ?_
      · exact (Option.some.inj hid).symm.trans hself
      · have hholds := (Kernel.currentHasGrantCapTo_iff hcur).mp hcheck
        rw [Licensed, goto_self]
        exact hholds
    · exact h.leave
  | revoke caller target capIdx =>
    simp only [hgate] at hs
    cases hs
    exact h.removed (revokeLocked_wf h.wf caller target capIdx)
      (hg i hi (by rw [hgate]; rfl))

theorem clean_or (gate : Fin maxTasks → Gate) (act : Action) (j : Fin maxTasks) :
    clean gate act j = .user ∨ clean gate act j = gate j ∧
      ∀ ring3 stackBase cr3 capTable, act ≠ .create j ring3 stackBase cr3 capTable := by
  unfold clean
  split
  · rename_i i ring3 stackBase cr3 capTable
    rw [Function.update_apply]
    split
    · exact .inl rfl
    · rename_i hji
      refine .inr ⟨rfl, fun _ _ _ _ heq => ?_⟩
      cases heq
      exact hji rfl
  · rename_i hact
    exact .inr ⟨rfl, fun _ _ _ _ heq => hact _ _ _ _ _ heq⟩

theorem Sound.enter (h : g.Sound) {next : Gate} (hcaller : next.caller = none)
    (hchecked : next.checked = false) (hs : g.enter next = some g') : g'.Sound := by
  unfold Gates.enter at hs
  split at hs
  · split at hs
    · cases hs
      refine h.goto (fun id hid => ?_) (licensed_of_unchecked ?_)
      · rw [hcaller] at hid
        cases hid
      · rw [goto_self]
        exact hchecked
    · cases hs
  · cases hs

/-- The machine takes a step. Tasks that are about to use a capability keep it. -/
theorem Sound.machine (h : g.Sound) {act : Action} (hg : g.Unbroken (.machine act)) {m : Machine}
    (hm : g.machine.step act = some m) :
    Sound { g with machine := m, gate := clean g.gate act } := by
  have hwf := Machine.step_wf h.wf hm
  refine ⟨hwf, fun j id hid => ?_, fun j => ?_⟩
  · rcases clean_or g.gate act j with heq | ⟨heq, _⟩
    · simp only [heq] at hid
      cases hid
    · simp only [heq] at hid
      exact h.caller j id hid
  · rcases clean_or g.gate act j with heq | ⟨heq, hcreate⟩
    · exact licensed_of_unchecked (by simp only [heq]; rfl)
    · cases hchecked : (g.gate j).checked with
      | false => exact licensed_of_unchecked (by simp only [heq, hchecked])
      | true =>
        refine (h.licensed j).frame h.wf hwf heq ((Machine.step_effect h.wf hm).table_eq j ?_ hcreate)
        rintro capIdx rfl
        exact hg j hchecked rfl

theorem Sound.step (h : g.Sound) {act : GateAction} (hg : g.Unbroken act)
    (hs : g.step act = some g') : g'.Sound := by
  unfold Gates.step at hs
  split at hs
  · obtain ⟨m, hm, rfl⟩ := Option.map_eq_some_iff.mp hs
    exact h.machine hg hm
  · split at hs
    · obtain ⟨m, hm, rfl⟩ := Option.map_eq_some_iff.mp hs
      exact h.machine hg hm
    · cases hs
  · exact h.enter rfl rfl hs
  · exact h.enter rfl rfl hs
  · split at hs
    · rename_i i hi
      exact h.advance hi hg hs
    · cases hs

section Uninterrupted
variable (hi : g.machine.cpu = .task i)
include hi

/-- One section, and then the rest of the call. -/
theorem advance_run {next : Gate} {g₁ : Gates} (hadv : (g.goto i next).advance i = some g₁) {n : Nat}
    (hr : Lib.Run (Lib.Steps Gates.step) g₁ (List.replicate n .proceed) g') :
    Lib.Run (Lib.Steps Gates.step) (g.goto i next) (List.replicate (n + 1) .proceed) g' := by
  refine .cons (?_ : (g.goto i next).step .proceed = some g₁) hr
  have hcpu : (g.goto i next).machine.cpu = .task i := hi
  simp only [Gates.step, hcpu, hadv]

variable (hgate : g.gate i = .user) (hpc : g.machine.pc i = .user)
include hgate hpc

theorem enter_run {act : GateAction} {next : Gate} (hact : g.step act = g.enter next) {n : Nat}
    (hr : Lib.Run (Lib.Steps Gates.step) (g.goto i next) (List.replicate n .proceed) g') :
    Lib.Run (Lib.Steps Gates.step) g (act :: List.replicate n .proceed) g' := by
  refine .cons (?_ : g.step act = some (g.goto i next)) hr
  rw [hact]
  simp [Gates.enter, idle, hi, hgate, hpc, Machine.isUser]

variable (h : g.machine.Wf)
include h

/-- Without a tick in between, the sections of `sys_serial_write` do what the call
does at once. -/
theorem serialWrite_uninterrupted (capIdx : Nat) (message : List UInt8) :
    ∃ n g', Lib.Run (Lib.Steps Gates.step) g
        (.serialWrite capIdx message :: List.replicate n .proceed) g' ∧ g'.gate i = .user ∧
      g'.view = (g.view.sysSerialWrite capIdx message).1 := by
  have hcur : g.view.sched.currentTaskId = some i.val := (h.current i hi).1
  have hfirst : (g.goto i (.writeIdentify capIdx message)).advance i =
      some (g.goto i (.writeCheck i capIdx message)) := by
    simp only [Gates.advance, goto_self, goto_view, hcur, goto_goto]
  cases hcheck : g.view.hasSerialCap i capIdx with
  | false =>
    have hsecond : (g.goto i (.writeCheck i capIdx message)).advance i = some (g.goto i .user) := by
      simp [Gates.advance, hcheck]
    refine ⟨2, g.goto i .user, ?_, goto_self .user, ?_⟩
    · exact enter_run hi hgate hpc rfl (advance_run hi hfirst (advance_run hi hsecond (.nil _)))
    · simp only [Kernel.sysSerialWrite, hcur, hcheck, Bool.false_eq_true, if_false, goto_view]
  | true =>
    have hsecond : (g.goto i (.writeCheck i capIdx message)).advance i =
        some (g.goto i (.write i capIdx message)) := by
      simp [Gates.advance, hcheck]
    refine ⟨3, (g.install (g.view.print message)).goto i .user, ?_, goto_self .user, ?_⟩
    · refine enter_run hi hgate hpc rfl (advance_run hi hfirst (advance_run hi hsecond
        (advance_run hi ?_ (.nil _))))
      simp [Gates.advance, goto_install]
    · simp only [Kernel.sysSerialWrite, hcur, hcheck, if_true]
      rfl

theorem capRevoke_uninterrupted (target capIdx : Nat) :
    ∃ n g', Lib.Run (Lib.Steps Gates.step) g
        (.capRevoke target capIdx :: List.replicate n .proceed) g' ∧ g'.gate i = .user ∧
      g'.view = (g.view.sysCapRevoke target capIdx).1 := by
  have hcur : g.view.sched.currentTaskId = some i.val := (h.current i hi).1
  have hfirst : (g.goto i (.revokeIdentify target capIdx)).advance i =
      some (g.goto i (.revokeCheck i target capIdx)) := by
    simp only [Gates.advance, goto_self, goto_view, hcur, goto_goto]
  cases hcheck : g.view.currentHasGrantCapTo target with
  | false =>
    have hsecond : (g.goto i (.revokeCheck i target capIdx)).advance i = some (g.goto i .user) := by
      simp [Gates.advance, hcheck]
    refine ⟨2, g.goto i .user, ?_, goto_self .user, ?_⟩
    · exact enter_run hi hgate hpc rfl (advance_run hi hfirst (advance_run hi hsecond (.nil _)))
    · simp only [Kernel.sysCapRevoke, hcur, Kernel.dispatchCapRevoke_locked, hcheck, Bool.false_eq_true,
        if_false, goto_view]
  | true =>
    have hsecond : (g.goto i (.revokeCheck i target capIdx)).advance i =
        some (g.goto i (.revoke i target capIdx)) := by
      simp [Gates.advance, hcheck]
    refine ⟨3, (g.install (g.view.revokeLocked i target capIdx).1).goto i .user, ?_, goto_self .user, ?_⟩
    · refine enter_run hi hgate hpc rfl (advance_run hi hfirst (advance_run hi hsecond
        (advance_run hi ?_ (.nil _))))
      simp [Gates.advance, goto_install]
    · simp only [Kernel.sysCapRevoke, hcur, Kernel.dispatchCapRevoke_locked, hcheck, if_true]
      rfl

end Uninterrupted

structure Quiet (g : Gates) : Prop where
  wf : g.machine.Wf
  gate : ∀ i, g.gate i = .user

theorem Quiet.sound (h : g.Quiet) : g.Sound := by
  refine ⟨h.wf, fun i id hid => ?_, fun i => licensed_of_unchecked ?_⟩
  · rw [h.gate] at hid
    cases hid
  · rw [h.gate]
    rfl

/-- As long as nothing is revoked between a check and its use, a task that is about to
write still holds the port it named, and one that is about to revoke a channel to the
target that it may grant. -/
theorem use_validated {as : List GateAction} (h0 : g₀.Quiet)
    (hr : Lib.Run (Lib.Guarded Unbroken (Lib.Steps Gates.step)) g₀ as g) :
    (∀ caller capIdx message, g.gate i = .write caller capIdx message →
      caller = i.val ∧ g.machine.sched.HoldsSerial caller capIdx) ∧
    (∀ caller target capIdx, g.gate i = .revoke caller target capIdx →
      caller = i.val ∧ g.machine.sched.HoldsGrant caller target) := by
  have hsound : g.Sound :=
    hr.invariant h0.sound (fun _ _ _ hs hstep => hs.step hstep.1 hstep.2)
  have hlicensed := hsound.licensed i
  constructor
  · intro caller capIdx message hgate
    have hself : caller = i.val := hsound.caller i caller (by rw [hgate]; rfl)
    rw [Licensed, hgate] at hlicensed
    exact ⟨hself, hself ▸ hlicensed⟩
  · intro caller target capIdx hgate
    have hself : caller = i.val := hsound.caller i caller (by rw [hgate]; rfl)
    rw [Licensed, hgate] at hlicensed
    exact ⟨hself, hself ▸ hlicensed⟩

theorem not_holdsSerial {task : TaskId} {capIdx : Nat} (h : g.view.hasSerialCap task capIdx = false) :
    ¬ g.machine.sched.HoldsSerial task capIdx := by
  intro hholds
  cases h.symm.trans (Kernel.hasSerialCap_iff.mpr hholds)

theorem not_holdsGrant {task target : TaskId} (hcur : g.view.sched.currentTaskId = some task)
    (h : g.view.currentHasGrantCapTo target = false) : ¬ g.machine.sched.HoldsGrant task target := by
  intro hholds
  cases h.symm.trans ((Kernel.currentHasGrantCapTo_iff hcur).mpr hholds)

/-- Two tasks. Each holds the serial port, and a channel to the other that it may grant. -/
def gatedPair : List Task :=
  [Task.new 0 0 0 (CapTable.ofList
      [⟨.ipcChannel 1, true, true, true, false, 1, none⟩, ⟨.serial, true, true, false, false, 2, none⟩]),
    Task.new 0 0 1 (CapTable.ofList
      [⟨.serial, true, true, false, false, 3, none⟩, ⟨.ipcChannel 0, true, true, true, false, 4, none⟩])]

def gatedKernel : Kernel := .ofTasks gatedPair 5 none

theorem quiet_gated : (boot gatedKernel).Quiet :=
  ⟨Machine.wf_boot (by decide), fun _ => rfl⟩

/-- A tick after the check does no harm by itself: the other task writes in between. -/
theorem use_validated_tick : ∃ g,
    Lib.Run (Lib.Guarded Unbroken (Lib.Steps Gates.step)) (boot gatedKernel)
      [.machine (.yield ⟨1, by decide⟩), .capRevoke 1 0, .proceed, .proceed,
        .machine (.tick ⟨1, by decide⟩), .serialWrite 0 [33], .proceed, .proceed, .proceed,
        .machine (.tick ⟨1, by decide⟩)] g ∧
    g.kernel.serial = [33] ∧ g.machine.cpu = .task ⟨0, by decide⟩ ∧
    g.gate ⟨0, by decide⟩ = .revoke 0 1 0 ∧ g.machine.sched.HoldsGrant 0 1 := by
  obtain ⟨g, hr, hserial, hcpu, hgate⟩ : ∃ g,
      Lib.Run (Lib.Guarded Unbroken (Lib.Steps Gates.step)) (boot gatedKernel)
        [.machine (.yield ⟨1, by decide⟩), .capRevoke 1 0, .proceed, .proceed,
          .machine (.tick ⟨1, by decide⟩), .serialWrite 0 [33], .proceed, .proceed, .proceed,
          .machine (.tick ⟨1, by decide⟩)] g ∧
      g.kernel.serial = [33] ∧ g.machine.cpu = .task ⟨0, by decide⟩ ∧
      g.gate ⟨0, by decide⟩ = .revoke 0 1 0 := by
    refine ⟨_, .cons ⟨trivial, rfl⟩ (.cons ⟨trivial, rfl⟩ (.cons ⟨?_, rfl⟩ (.cons ⟨?_, rfl⟩
      (.cons ⟨trivial, rfl⟩ (.cons ⟨trivial, rfl⟩ (.cons ⟨?_, rfl⟩ (.cons ⟨?_, rfl⟩
      (.cons ⟨?_, rfl⟩ (.cons ⟨trivial, rfl⟩ (.nil _)))))))))), rfl, rfl, rfl⟩
    all_goals
      intro i hi hremoves
      cases hi
      cases hremoves
  exact ⟨g, hr, hserial, hcpu, hgate, ((use_validated quiet_gated hr).2 0 1 0 hgate).2⟩

/-- The first task is between its check and the use, and the second, which has passed its own, is
about to take a capability from it. -/
def overtaken (call : GateAction) (slot : Nat) : List GateAction :=
  [.machine (.yield ⟨1, Nat.one_ne_zero⟩), call, .proceed, .proceed,
    .machine (.tick ⟨1, Nat.one_ne_zero⟩), .capRevoke 0 slot, .proceed, .proceed]

theorem overtaken_run {call : GateAction} {slot id : Nat} {g g' : Gates} {k : Kernel}
    (hexec : Lib.execute Gates.step (boot gatedKernel) (overtaken call slot) = some g)
    (hcpu : g.machine.cpu = .task ⟨1, by decide⟩)
    (hgate : g.gate ⟨1, by decide⟩ = .revoke 1 0 slot)
    (hrevoke : (g.view.revokeLocked 1 0 slot).1 = k.propagateRevocation id) (hk : k.Originals)
    (htick : ((g.install k).goto ⟨1, by decide⟩ .user).step (.machine (.tick ⟨1, by decide⟩)) =
      some g') :
    Lib.Run (Lib.Steps Gates.step) (boot gatedKernel)
      (overtaken call slot ++ [.proceed, .machine (.tick ⟨1, by decide⟩)]) g' := by
  refine (Lib.run_of_execute hexec).append (.cons ?_ (.cons htick (.nil _)))
  rw [Kernel.propagateRevocation_originals hk] at hrevoke
  simp only [Lib.Steps, Gates.step, hcpu, Gates.advance, hgate, hrevoke]

/-- The second task takes the port, or the channel, from the first one after the first
has passed its check; the first writes, and revokes, all the same. -/
theorem use_after_revocation :
    (∃ g g', Lib.Run (Lib.Steps Gates.step) (boot gatedKernel)
        (overtaken (.serialWrite 1 [72, 105]) 1 ++ [.proceed, .machine (.tick ⟨1, by decide⟩)]) g ∧
      g.machine.cpu = .task ⟨0, by decide⟩ ∧ g.gate ⟨0, by decide⟩ = .write 0 1 [72, 105] ∧
      ¬ g.machine.sched.HoldsSerial 0 1 ∧
      g.step .proceed = some g' ∧ g'.kernel.serial = [72, 105]) ∧
    ∃ g g', Lib.Run (Lib.Steps Gates.step) (boot gatedKernel)
        (overtaken (.capRevoke 1 0) 0 ++ [.proceed, .machine (.tick ⟨1, by decide⟩)]) g ∧
      g.machine.cpu = .task ⟨0, by decide⟩ ∧ g.gate ⟨0, by decide⟩ = .revoke 0 1 0 ∧
      ¬ g.machine.sched.HoldsGrant 0 1 ∧
      g.step .proceed = some g' ∧ (g.view.revokeLocked 0 1 0).2 = 0 := by
  constructor
  · exact ⟨_, _, overtaken_run rfl rfl rfl rfl (by decide +kernel) rfl, rfl, rfl, not_holdsSerial rfl,
      rfl, rfl⟩
  · exact ⟨_, _, overtaken_run rfl rfl rfl rfl (by decide +kernel) rfl, rfl, rfl,
      not_holdsGrant rfl rfl, rfl, rfl⟩

end Gates

end Runix
