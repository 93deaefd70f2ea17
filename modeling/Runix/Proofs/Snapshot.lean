import Runix.Snapshot
import Runix.Proofs.Provenance

namespace Runix

variable {s s₀ s₁ s₂ : Scheduler} {snap : SystemSnapshot}

namespace SystemSnapshot

def overlay (snap : SystemSnapshot) (s : Scheduler) (i : Fin maxTasks) : Option Task :=
  match snap.tasks i, s.tasks i with
  | some cp, some t => some (cp.install t)
  | _, live => live

def both (snap : SystemSnapshot) (s : Scheduler) (i : Fin maxTasks) : Bool :=
  (snap.tasks i).isSome && (s.tasks i).isSome

theorem overlay_congr {s' : Scheduler} {i : Fin maxTasks} (h : s'.tasks i = s.tasks i) :
    snap.overlay s' i = snap.overlay s i := by
  unfold overlay
  rw [h]

def Indexed (snap : SystemSnapshot) : Prop := ∀ i cp, snap.tasks i = some cp → cp.id = i

/-- One round of the loop changes no slot but its own. -/
theorem restoreLoop_cons (hn : snap.Indexed) (hs : s.Indexed) (i : Fin maxTasks)
    (is : List (Fin maxTasks)) (restored : Nat) : snap.restoreLoop (i :: is) s restored =
      snap.restoreLoop is (s.set i (snap.overlay s i))
        (restored + if snap.both s i then 1 else 0) := by
  cases hcp : snap.tasks i with
  | none =>
    have hsame : s.set i (snap.overlay s i) = s := by
      rw [overlay, hcp]
      simp [Scheduler.set]
    simp [restoreLoop, hcp, both, hsame]
  | some cp =>
    have hid := hn i cp hcp
    cases ht : s.tasks i with
    | none =>
      have hsame : s.set i (snap.overlay s i) = s := by
        rw [overlay, hcp, ht]
        simp [Scheduler.set, ← ht]
      simp [restoreLoop, hcp, hid, hs.getTask, ht, both, hsame]
    | some t => simp [restoreLoop, hcp, hid, hs.getTask, ht, both, hs.modify ht, overlay]

theorem indexed_overlay (hs : s.Indexed) (i : Fin maxTasks) :
    (s.set i (snap.overlay s i)).Indexed := by
  intro k t ht
  rw [Scheduler.set_tasks] at ht
  split at ht
  · rename_i hk
    subst hk
    unfold overlay at ht
    split at ht
    · rename_i cp t' _ ht'
      cases ht
      exact hs k t' ht'
    · exact hs k t ht
  · exact hs k t ht

/-- The loop overlays the slots of its list, and counts those that are in both. -/
theorem restoreLoop_eq (hn : snap.Indexed) (is : List (Fin maxTasks)) :
    ∀ s restored, s.Indexed → is.Nodup → snap.restoreLoop is s restored =
      (⟨fun k => if k ∈ is then snap.overlay s k else s.tasks k, s.currentTaskId⟩,
        restored + is.countP (snap.both s)) := by
  induction is with
  | nil =>
    intro s restored _ _
    simp [restoreLoop]
  | cons i is ih =>
    intro s restored hs hnodup
    obtain ⟨hi, his⟩ := List.nodup_cons.mp hnodup
    rw [restoreLoop_cons hn hs, ih _ _ (indexed_overlay hs i) his]
    have hrest : ∀ k, k ≠ i → (s.set i (snap.overlay s i)).tasks k = s.tasks k :=
      fun k hk => by rw [Scheduler.set_tasks, if_neg hk]
    have hne : ∀ k ∈ is, k ≠ i := fun k hk he => hi (he ▸ hk)
    have hover : ∀ k, k ≠ i → snap.overlay (s.set i (snap.overlay s i)) k = snap.overlay s k :=
      fun k hk => overlay_congr (hrest k hk)
    have hcount : is.countP (snap.both (s.set i (snap.overlay s i))) = is.countP (snap.both s) := by
      refine List.countP_congr (fun k hk => ?_)
      rw [both, both, hrest k (hne k hk)]
    refine Prod.ext (Scheduler.ext (funext fun k => ?_) rfl) ?_
    · by_cases hk : k = i
      · subst hk
        simp [hi]
      · simp only [List.mem_cons, hk, false_or, hrest k hk, hover k hk]
    · simp only [hcount, List.countP_cons]
      omega

end SystemSnapshot

def Scheduler.OriginsBounded (s : Scheduler) : Prop :=
  ∀ i t k c o, s.tasks i = some t → t.capTable.slots k = some c → c.origin = some o →
    o < 2 ^ 64 - 1

theorem not_overflows (h : s.OriginsBounded) (current : Option TaskId) (checksum : Nat)
    (valid : Bool) :
    (⟨fun i => (s.tasks i).map Task.checkpoint, current, checksum, valid⟩ : SystemSnapshot).overflows
      = false := by
  simp only [SystemSnapshot.overflows, List.any_eq_false, Option.any_eq_true, Option.map_eq_some_iff,
    List.any_eq_true, decide_eq_true_eq]
  rintro i _ ⟨_, ⟨t, ht, rfl⟩, k, _, c, hc, o, ho, hle⟩
  have := h i t k c o ht hc ho
  omega

/-- What a capture stores: a checkpoint of every task, and a tag that a later check
accepts. -/
theorem capture_some (h : capture s = some snap) :
    snap.tasks = (fun i => (s.tasks i).map Task.checkpoint) ∧ snap.current = s.currentTaskId ∧
      snap.valid = true ∧ snap.checksumOf = some snap.checksum := by
  unfold capture at h
  obtain ⟨checksum, hsum, rfl⟩ := Option.map_eq_some_iff.mp h
  exact ⟨rfl, rfl, rfl, hsum⟩

theorem capture_eq (h : s.OriginsBounded) : ∃ snap, capture s = some snap := by
  simp [capture, SystemSnapshot.checksumOf, not_overflows h]

theorem capture_indexed (hs : s.Indexed) (h : capture s = some snap) : snap.Indexed := by
  intro i cp hcp
  rw [(capture_some h).1] at hcp
  obtain ⟨t, ht, rfl⟩ := Option.map_eq_some_iff.mp hcp
  exact hs i t ht

def Scheduler.rolledBack (s₀ s₁ : Scheduler) : Scheduler :=
  ⟨fun i =>
    match s₀.tasks i, s₁.tasks i with
    | some t₀, some t₁ => some (t₀.checkpoint.install t₁)
    | _, live => live, s₁.currentTaskId⟩

def Scheduler.common (s₀ s₁ : Scheduler) : Nat :=
  (List.finRange maxTasks).countP (fun i => (s₀.tasks i).isSome && (s₁.tasks i).isSome)

/-- A restore of an untampered snapshot succeeds. -/
theorem restore_capture (h₀ : s₀.Indexed) (h₁ : s₁.Indexed) (hc : capture s₀ = some snap) :
    restore snap s₁ = some (s₀.rolledBack s₁, .ok (s₀.common s₁)) := by
  obtain ⟨htasks, _, hvalid, hsum⟩ := capture_some hc
  have hloop := SystemSnapshot.restoreLoop_eq (capture_indexed h₀ hc) (List.finRange maxTasks) s₁ 0
    h₁ (List.nodup_finRange _)
  have hback : (⟨fun k => if k ∈ List.finRange maxTasks then snap.overlay s₁ k else s₁.tasks k,
      s₁.currentTaskId⟩ : Scheduler) = s₀.rolledBack s₁ := by
    refine Scheduler.ext (funext fun i => ?_) rfl
    simp only [List.mem_finRange, if_true, SystemSnapshot.overlay, htasks, Scheduler.rolledBack]
    cases s₀.tasks i <;> cases s₁.tasks i <;> rfl
  have hcount : (List.finRange maxTasks).countP (snap.both s₁) = s₀.common s₁ := by
    refine List.countP_congr (fun i _ => ?_)
    simp [SystemSnapshot.both, htasks]
  rw [hback, hcount] at hloop
  simp [restore, hvalid, hsum, hloop]

theorem rolledBack_some {i : Fin maxTasks} {t₀ t₁ : Task} (h₀ : s₀.tasks i = some t₀)
    (h₁ : s₁.tasks i = some t₁) :
    (s₀.rolledBack s₁).tasks i = some (t₀.checkpoint.install t₁) := by
  simp [Scheduler.rolledBack, h₀, h₁]

theorem rolledBack_live {i : Fin maxTasks} (h : s₀.tasks i = none ∨ s₁.tasks i = none) :
    (s₀.rolledBack s₁).tasks i = s₁.tasks i := by
  rcases h with h | h
  · simp [Scheduler.rolledBack, h]
  · cases h₀ : s₀.tasks i <;> simp [Scheduler.rolledBack, h, h₀]

/-- The checksum depends on the checkpoints and the current task alone. -/
theorem capture_congr (h : capture s = some snap)
    (htasks : ∀ i, (s₂.tasks i).map Task.checkpoint = (s.tasks i).map Task.checkpoint)
    (hcur : s₂.currentTaskId = s.currentTaskId) : capture s₂ = some snap := by
  have heq : (fun i => (s₂.tasks i).map Task.checkpoint) =
      fun i => (s.tasks i).map Task.checkpoint := funext htasks
  rwa [capture, heq, hcur]

/-- Checkpoint round trip. -/
theorem checkpoint_round_trip (h₀ : s₀.Indexed) (h₁ : s₁.Indexed) (ho : s₀.OriginsBounded) :
    ∃ snap s₂, capture s₀ = some snap ∧ restore snap s₁ = some (s₂, .ok (s₀.common s₁)) ∧
      (∀ i t₀ t₁, s₀.tasks i = some t₀ → s₁.tasks i = some t₁ → ∃ t, s₂.tasks i = some t ∧
        (t.state = t₀.state ∧ t.capTable = t₀.capTable ∧ t.ipcBuffer = t₀.ipcBuffer ∧
          t.msgQueue = t₀.msgQueue) ∧
        t.id = t₁.id ∧ t.rsp = t₁.rsp ∧ t.kstackTop = t₁.kstackTop ∧ t.cr3 = t₁.cr3 ∧
          t.faultRegisters = t₁.faultRegisters) ∧
      (∀ i, s₀.tasks i = none ∨ s₁.tasks i = none → s₂.tasks i = s₁.tasks i) ∧
      s₂.currentTaskId = s₁.currentTaskId ∧
      ((∀ i, (s₁.tasks i).isSome = (s₀.tasks i).isSome) → s₁.currentTaskId = s₀.currentTaskId →
        ∃ snap', capture s₂ = some snap' ∧ snap'.info = snap.info) := by
  obtain ⟨snap, hc⟩ := capture_eq ho
  refine ⟨snap, _, hc, restore_capture h₀ h₁ hc, fun i t₀ t₁ ht₀ ht₁ => ?_,
    fun i hi => rolledBack_live hi, rfl, fun hsame hcur => ⟨snap, ?_, rfl⟩⟩
  · exact ⟨_, rolledBack_some ht₀ ht₁, ⟨rfl, rfl, rfl, rfl⟩, rfl, rfl, rfl, rfl, rfl⟩
  · refine capture_congr hc (fun i => ?_) hcur
    have hi := hsame i
    cases ht₀ : s₀.tasks i with
    | none =>
      have ht₁ : s₁.tasks i = none := by simpa [ht₀] using hi
      rw [rolledBack_live (.inl ht₀), ht₁]
    | some t₀ =>
      obtain ⟨t₁, ht₁⟩ := Option.isSome_iff_exists.mp (hi.trans (by rw [ht₀]; rfl))
      have hid : t₁.id = t₀.id := (h₁ i t₁ ht₁).trans (h₀ i t₀ ht₀).symm
      rw [rolledBack_some ht₀ ht₁]
      simp [Task.checkpoint, TaskCheckpoint.install, hid]

def savedPair : List Task :=
  [Task.new 0 0 0 (CapTable.ofList [⟨.ipcChannel 1, true, true, true, false, 1, none⟩]),
    Task.new 0 0 1 (CapTable.ofList [⟨.serial, true, false, false, false, 2, some 1⟩])]

theorem savedPair_origins : (Scheduler.ofList savedPair).OriginsBounded := by
  intro i t k c o ht hc ho
  have hmem := List.mem_of_find?_eq_some ht
  simp only [savedPair, List.mem_cons, List.not_mem_nil, or_false] at hmem
  rcases hmem with rfl | rfl
  all_goals
    have hslot := List.mem_of_getElem? hc
    simp only [List.mem_cons, List.not_mem_nil, or_false] at hslot
    subst hslot
    cases ho
    try decide

/-- The state of a system with both tasks is restored into one with the second
alone. -/
theorem checkpoint_round_trip_pair : ∃ snap s₂,
    capture (Scheduler.ofList savedPair) = some snap ∧
    restore snap (Scheduler.ofList [Task.new 0 0 1 CapTable.new]) = some (s₂, .ok 1) ∧
    (∃ t, s₂.tasks ⟨1, by decide⟩ = some t ∧
      t.capTable = CapTable.ofList [⟨.serial, true, false, false, false, 2, some 1⟩]) ∧
    s₂.tasks ⟨0, by decide⟩ = none := by
  obtain ⟨snap, s₂, hc, hr, hboth, hlive, _⟩ := checkpoint_round_trip
    (Scheduler.indexed_ofList savedPair) (Scheduler.indexed_ofList [Task.new 0 0 1 CapTable.new])
    savedPair_origins
  have hcommon : (Scheduler.ofList savedPair).common
      (Scheduler.ofList [Task.new 0 0 1 CapTable.new]) = 1 := by decide
  rw [hcommon] at hr
  obtain ⟨t, ht, ⟨_, hcaps, _⟩, _⟩ := hboth ⟨1, by decide⟩ _ _ rfl rfl
  exact ⟨snap, s₂, hc, hr, ⟨t, ht, hcaps⟩, hlive ⟨0, by decide⟩ (.inr rfl)⟩

structure Scheduler.SoleRunning (s : Scheduler) : Prop where
  only : ∀ i t, s.tasks i = some t → t.state = .running → s.currentTaskId = some i.val
  current : ∀ id, s.currentTaskId = some id → ∃ t, s.getTask id = some t ∧ t.state = .running

theorem rolledBack_indexed (s₀ : Scheduler) (h : s₁.Indexed) : (s₀.rolledBack s₁).Indexed := by
  intro i t ht
  cases ht₀ : s₀.tasks i with
  | none => exact h i t (by rw [← ht, rolledBack_live (.inl ht₀)])
  | some t₀ =>
    cases ht₁ : s₁.tasks i with
    | none =>
      rw [rolledBack_live (.inr ht₁), ht₁] at ht
      cases ht
    | some t₁ =>
      cases (rolledBack_some ht₀ ht₁).symm.trans ht
      exact h i t₁ ht₁

/-- A restore keeps the scheduler's context and revives nobody exactly if each
task that is in both states was captured Running when it is the current one now,
not captured Running when it is not, and captured Terminated when it has
terminated. -/
theorem restore_keeps_context {n : Nat} (h₀ : s₀.Indexed) (h₁ : s₁.Indexed)
    (hc : capture s₀ = some snap) (hsole : s₁.SoleRunning)
    (hr : restore snap s₁ = some (s₂, .ok n)) :
    (s₂.SoleRunning ∧ ∀ i t₁, s₁.tasks i = some t₁ → t₁.state = .terminated →
      ∃ t₂, s₂.tasks i = some t₂ ∧ t₂.state = .terminated) ↔
    ∀ i t₀ t₁, s₀.tasks i = some t₀ → s₁.tasks i = some t₁ →
      (t₀.state = .running ↔ s₁.currentTaskId = some i.val) ∧
      (t₁.state = .terminated → t₀.state = .terminated) := by
  have hback := restore_capture h₀ h₁ hc
  rw [hr] at hback
  cases hback
  constructor
  · rintro ⟨hsole₂, hterm⟩ i t₀ t₁ ht₀ ht₁
    have ht := rolledBack_some ht₀ ht₁
    refine ⟨⟨fun hrun => hsole₂.only i _ ht hrun, fun hcur => ?_⟩, fun hdead => ?_⟩
    · obtain ⟨t, hget, hrun⟩ := hsole₂.current i hcur
      rw [(rolledBack_indexed s₀ h₁).getTask, ht] at hget
      cases hget
      exact hrun
    · obtain ⟨t₂, ht₂, hdead₂⟩ := hterm i t₁ ht₁ hdead
      cases ht.symm.trans ht₂
      exact hdead₂
  · intro hcond
    refine ⟨⟨fun i t ht hrun => ?_, fun id hcur => ?_⟩, fun i t₁ ht₁ hdead => ?_⟩
    · cases ht₀ : s₀.tasks i with
      | none =>
        rw [rolledBack_live (.inl ht₀)] at ht
        exact hsole.only i t ht hrun
      | some t₀ =>
        cases ht₁ : s₁.tasks i with
        | none =>
          rw [rolledBack_live (.inr ht₁), ht₁] at ht
          cases ht
        | some t₁ =>
          cases (rolledBack_some ht₀ ht₁).symm.trans ht
          exact (hcond i t₀ t₁ ht₀ ht₁).1.mp hrun
    · obtain ⟨t₁, hget, hrun⟩ := hsole.current id hcur
      obtain ⟨_, hlt, ht₁⟩ := Scheduler.getTask_some hget
      have hget₂ := (rolledBack_indexed s₀ h₁).getTask ⟨id, hlt⟩
      cases ht₀ : s₀.tasks ⟨id, hlt⟩ with
      | none =>
        rw [rolledBack_live (.inl ht₀), ht₁] at hget₂
        exact ⟨t₁, hget₂, hrun⟩
      | some t₀ =>
        rw [rolledBack_some ht₀ ht₁] at hget₂
        exact ⟨_, hget₂, (hcond ⟨id, hlt⟩ t₀ t₁ ht₀ ht₁).1.mpr hcur⟩
    · cases ht₀ : s₀.tasks i with
      | none => exact ⟨t₁, (rolledBack_live (.inl ht₀)).trans ht₁, hdead⟩
      | some t₀ => exact ⟨_, rolledBack_some ht₀ ht₁, (hcond i t₀ t₁ ht₀ ht₁).2 hdead⟩

/-- In a run from boot the invariant holds whenever a task executes its own code. -/
theorem Machine.Sound.soleRunning {m : Machine} (h : m.Sound) {i : Fin maxTasks}
    (hi : m.cpu = .task i) (hp : m.pc i = .user) : m.sched.SoleRunning where
  only j t ht hrun := (h.wf.current j (h.sole.running j t ht hrun)).1
  current id hid := by
    obtain ⟨t, ht, hrun⟩ := h.user_running hi hp
    cases (h.wf.current i hi).1.symm.trans hid
    exact ⟨t, (h.wf.indexed.getTask i).trans ht, hrun⟩

namespace Machine

def started : List Action := [.yield ⟨1, Nat.one_ne_zero⟩]

def exited : List Action := [.yield ⟨1, Nat.one_ne_zero⟩, .terminate, .yield ⟨1, Nat.one_ne_zero⟩]

def answered : List Action :=
  [.yield ⟨1, Nat.one_ne_zero⟩, .yield ⟨1, Nat.one_ne_zero⟩, .sendAsync 0 0 0 [],
    .proceed ⟨1, Nat.one_ne_zero⟩, .yield ⟨1, Nat.one_ne_zero⟩]

/-- The first task captures, the third puts a message into the queue of the second, and the first
restores. -/
theorem restore_keeps_context_undone : ∃ m₀ m₁ snap,
    Lib.Run (Lib.Guarded Ordinary (Lib.Steps Machine.step)) (boot (Scheduler.ofList watched))
      started m₀ ∧
    capture m₀.sched = some snap ∧
    Lib.Run (Lib.Guarded Ordinary (Lib.Steps Machine.step)) m₀ answered m₁ ∧
    (m₁.sched.queued ⟨1, by decide⟩).length = 1 ∧
    restore snap m₁.sched = some (m₀.sched.rolledBack m₁.sched, .ok 3) ∧
    (m₀.sched.rolledBack m₁.sched).queued ⟨1, by decide⟩ = [] ∧
    (m₀.sched.rolledBack m₁.sched).SoleRunning := by
  obtain ⟨m₀, m₁, snap, hr₀, hc, hr₁, hq, hempty, hcommon, hcpu₀, hpc₀, hcpu₁, hpc₁, hlive⟩ :
      ∃ m₀ m₁ snap,
        Lib.Run (Lib.Guarded Ordinary (Lib.Steps Machine.step)) (boot (Scheduler.ofList watched))
          started m₀ ∧
        capture m₀.sched = some snap ∧
        Lib.Run (Lib.Guarded Ordinary (Lib.Steps Machine.step)) m₀ answered m₁ ∧
        (m₁.sched.queued ⟨1, by decide⟩).length = 1 ∧
        (m₀.sched.rolledBack m₁.sched).queued ⟨1, by decide⟩ = [] ∧
        m₀.sched.common m₁.sched = 3 ∧ m₀.cpu = .task ⟨0, by decide⟩ ∧
        m₀.pc ⟨0, by decide⟩ = .user ∧ m₁.cpu = .task ⟨0, by decide⟩ ∧
        m₁.pc ⟨0, by decide⟩ = .user ∧
        ∀ i, (m₁.sched.tasks i).all (fun t => t.state ≠ .terminated) = true :=
    ⟨_, _, _, Lib.guarded_of_execute rfl (by decide), rfl, Lib.guarded_of_execute rfl (by decide),
      rfl, rfl, by decide, rfl, rfl, rfl, rfl, by decide⟩
  have hsound₀ := run_sound unused_watched.atBoot.sound hr₀
  have hsound₁ := run_sound hsound₀ hr₁
  have hback := restore_capture hsound₀.wf.indexed hsound₁.wf.indexed hc
  rw [hcommon] at hback
  have hsole₀ := hsound₀.soleRunning hcpu₀ hpc₀
  have hcur : m₁.sched.currentTaskId = m₀.sched.currentTaskId :=
    (hsound₁.wf.current _ hcpu₁).1.trans (hsound₀.wf.current _ hcpu₀).1.symm
  refine ⟨m₀, m₁, snap, hr₀, hc, hr₁, hq, hback, hempty, ((restore_keeps_context
    hsound₀.wf.indexed hsound₁.wf.indexed hc (hsound₁.soleRunning hcpu₁ hpc₁) hback).mpr
      (fun i t₀ t₁ ht₀ ht₁ => ?_)).1⟩
  refine ⟨⟨fun hrun => hcur.trans (hsole₀.only i t₀ ht₀ hrun), fun hnow => ?_⟩, fun hdead => ?_⟩
  · obtain ⟨t, hget, hrun⟩ := hsole₀.current i (hcur.symm.trans hnow)
    cases ht₀.symm.trans ((hsound₀.wf.indexed.getTask i).symm.trans hget)
    exact hrun
  · have hall := hlive i
    simp [ht₁, hdead] at hall

/-- The first task captures, the second terminates, and the first restores. The
second is Ready again, and the next yield resumes its abandoned stack. -/
theorem terminated_task_revived : ∃ m₀ m₁ m₂ snap s₂ n t₁ t₂,
    Lib.Run (Lib.Guarded Ordinary (Lib.Steps Machine.step)) (boot (Scheduler.ofList watched))
      started m₀ ∧
    capture m₀.sched = some snap ∧
    Lib.Run (Lib.Guarded Ordinary (Lib.Steps Machine.step)) m₀ exited m₁ ∧
    m₁.sched.SoleRunning ∧ restore snap m₁.sched = some (s₂, .ok n) ∧
    m₁.sched.tasks ⟨1, by decide⟩ = some t₁ ∧ t₁.state = .terminated ∧
    m₁.pc ⟨1, by decide⟩ = .dead ∧
    s₂.tasks ⟨1, by decide⟩ = some t₂ ∧ t₂.state = .ready ∧
    ({ m₁ with sched := s₂ } : Machine).step (.yield ⟨1, Nat.one_ne_zero⟩) = some m₂ ∧
    m₂.cpu = .task ⟨1, by decide⟩ := by
  obtain ⟨m₀, m₁, m₂, snap, t₀, t₁, hr₀, hc, hr₁, hcpu, hpc, ht₀, hst₀, ht₁, hst₁, hdead, hyield⟩ :
      ∃ m₀ m₁ m₂ snap t₀ t₁,
        Lib.Run (Lib.Guarded Ordinary (Lib.Steps Machine.step)) (boot (Scheduler.ofList watched))
          started m₀ ∧
        capture m₀.sched = some snap ∧
        Lib.Run (Lib.Guarded Ordinary (Lib.Steps Machine.step)) m₀ exited m₁ ∧
        m₁.cpu = .task ⟨0, by decide⟩ ∧ m₁.pc ⟨0, by decide⟩ = .user ∧
        m₀.sched.tasks ⟨1, by decide⟩ = some t₀ ∧ t₀.state = .ready ∧
        m₁.sched.tasks ⟨1, by decide⟩ = some t₁ ∧ t₁.state = .terminated ∧
        m₁.pc ⟨1, by decide⟩ = .dead ∧
        ({ m₁ with sched := m₀.sched.rolledBack m₁.sched } : Machine).step
          (.yield ⟨1, Nat.one_ne_zero⟩) = some m₂ ∧ m₂.cpu = .task ⟨1, by decide⟩ :=
    ⟨_, _, _, _, _, _, Lib.guarded_of_execute rfl (by decide), rfl,
      Lib.guarded_of_execute rfl (by decide), rfl, rfl, rfl, rfl, rfl, rfl, rfl, rfl, rfl⟩
  have hsound₀ := run_sound unused_watched.atBoot.sound hr₀
  have hsound₁ := run_sound hsound₀ hr₁
  exact ⟨m₀, m₁, m₂, snap, _, _, t₁, _, hr₀, hc, hr₁, hsound₁.soleRunning hcpu hpc,
    restore_capture hsound₀.wf.indexed hsound₁.wf.indexed hc, ht₁, hst₁, hdead,
    rolledBack_some ht₀ ht₁, hst₀, hyield⟩

end Machine

end Runix
