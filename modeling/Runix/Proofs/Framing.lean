import Runix.Lib.Table
import Runix.Proofs.Propagation

namespace Runix

def CapTable.fill (t : CapTable) (i : Fin maxCaps) (c : Capability) : CapTable :=
  ⟨Function.update t.slots i (some c)⟩

theorem CapTable.freeSlot_isLeast {t : CapTable} {i : Fin maxCaps} (h : t.freeSlot = some i) :
    IsLeast {j | t.slots j = none} i := by
  obtain ⟨_, hbefore⟩ := Lib.find_finRange.mp h
  refine ⟨freeSlot_some h, fun j hj => ?_⟩
  by_contra hlt
  exact hbefore j (not_le.mp hlt) (Option.isNone_iff_eq_none.mpr hj)

/-- An insertion that succeeds fills the lowest free slot. -/
theorem CapTable.insert_some {t table : CapTable} {n n' : Nat} {c : Capability} {i : Fin maxCaps}
    (h : t.insert n c = (some (i, table), n')) :
    IsLeast {j | t.slots j = none} i ∧ table = t.fill i { c with id := n } := by
  unfold insert at h
  cases hfree : t.freeSlot with
  | none =>
    simp only [hfree] at h
    cases h
  | some j =>
    simp only [hfree] at h
    cases h
    exact ⟨freeSlot_isLeast hfree, rfl⟩

@[simp] theorem Task.stripped_nil (t : Task) (i : Fin maxTasks) : t.stripped i [] = t := by
  simp [stripped]

theorem Task.stripped_singleton (t : Task) (p : Slot) :
    { t with capTable := t.capTable.clear p.2 } = t.stripped p.1 [p] := by
  have hsnoc := t.stripped_snoc p []
  rwa [Task.stripped_nil, List.nil_append] at hsnoc

theorem Task.stripped_stripped (t : Task) (i : Fin maxTasks) (ps qs : List Slot) :
    (t.stripped i ps).stripped i qs = t.stripped i (ps ++ qs) := by
  have hslots : ((t.stripped i ps).stripped i qs).capTable.slots =
      (t.stripped i (ps ++ qs)).capTable.slots := by
    funext j
    by_cases hp : (i, j) ∈ ps <;> by_cases hq : (i, j) ∈ qs <;> simp [stripped, hp, hq]
  exact congrArg (fun slots => { t with capTable := ⟨slots⟩ }) hslots

namespace Scheduler

def Installs (s : Scheduler) (target : TaskId) (c : Capability) (s' : Scheduler) : Prop :=
  ∃ task i, ∃ hlt : target < maxTasks, s.getTask target = some task ∧
    IsLeast {j | task.capTable.slots j = none} i ∧
    s' = s.set ⟨target, hlt⟩ (some { task with capTable := task.capTable.fill i c })

/-- The one change is that a slot and those of the capabilities derived from its own
become empty. -/
def Withdraws (s : Scheduler) (p : Slot) (s' : Scheduler) : Prop :=
  ∃ ps : List Slot, IsLeast {R | capLineage.Family s.store p R} {q | q ∈ ps} ∧
    (∀ q ∈ ps, s.store q ≠ none) ∧
    (∀ i, s'.tasks i = (s.tasks i).map (fun t => t.stripped i ps)) ∧
    s'.currentTaskId = s.currentTaskId

/-- The changes are a fresh task in the lowest empty slot from 2 on, and a channel to it,
with grant, in the table of task 1. -/
def Spawns (s : Scheduler) (id : Fin maxTasks) (s' : Scheduler) : Prop :=
  IsLeast {i : Fin maxTasks | 2 ≤ i.val ∧ s.tasks i = none} id ∧
    ∃ task c, task.id = id.val ∧ task.capTable = CapTable.new ∧
      c.resource = .ipcChannel id ∧ c.grant = true ∧ (s.set id (some task)).Installs 1 c s'

theorem installs_of_insert {s : Scheduler} {target : TaskId} {task : Task} {table : CapTable}
    {n n' : Nat} {c : Capability} {i : Fin maxCaps} (ht : s.getTask target = some task)
    (h : task.capTable.insert n c = (some (i, table), n')) :
    s.Installs target { c with id := n } (s.modify target (fun t => { t with capTable := table })) := by
  obtain ⟨hlt, _, hmod⟩ := Kernel.getTask_modify ht (fun t => { t with capTable := table })
  obtain ⟨hleast, htable⟩ := CapTable.insert_some h
  exact ⟨task, i, hlt, ht, hleast, hmod.trans (by rw [htable])⟩

/-- A task that was created and taken back. -/
theorem set_set_none {s : Scheduler} {i : Fin maxTasks} (h : s.tasks i = none) (t : Option Task) :
    (s.set i t).set i none = s := by
  apply Scheduler.ext
  · funext j
    by_cases hj : j = i
    · rw [hj, set_tasks_self, h]
    · simp only [set_tasks, if_neg hj]
  · rfl

end Scheduler

namespace Kernel
variable {k k' : Kernel} {r : UInt64}

def Undisturbed (k k' : Kernel) : Prop :=
  k' = { k with nextCapId := k'.nextCapId, memory := k'.memory }

theorem grant_framed {caller src target : Nat} {rights : RightsMask}
    (h : k.dispatchCapGrant caller src target rights = (k', r)) :
    (r = genericError ∧ k.Undisturbed k') ∨ (r = 0 ∧ ∃ c, k.sched.Installs target c k'.sched) := by
  unfold dispatchCapGrant at h
  split at h
  · cases h
    exact .inl ⟨rfl, rfl⟩
  · split at h
    · cases h
      exact .inl ⟨rfl, rfl⟩
    · rename_i task ht
      split at h
      · rename_i hins
        cases h
        exact .inr ⟨rfl, _, Scheduler.installs_of_insert ht hins⟩
      · cases h
        exact .inl ⟨rfl, rfl⟩

theorem Revokes.emptied_tasks {target capIdx : Nat} {p : Slot} {c : Capability}
    (h : k.Revokes target capIdx p c) (i : Fin maxTasks) :
    (k.emptied target capIdx).sched.tasks i = (k.sched.tasks i).map (fun t => t.stripped i [p]) := by
  obtain ⟨t, ht⟩ := Option.isSome_iff_exists.mp h.found
  obtain ⟨a, j⟩ := p
  obtain rfl : a.val = target := h.task
  obtain rfl : j.val = capIdx := h.slot
  obtain ⟨_, hslot, hmod⟩ := getTask_modify ht (fun t => { t with capTable := t.capTable.clear j })
  change (k.sched.modify a _).tasks i = _
  rw [hmod, Scheduler.set_tasks]
  split
  · rename_i hi
    rw [hi, hslot]
    exact congrArg some (t.stripped_singleton (a, j))
  · rename_i hi
    have hother : ∀ u : Task, u.stripped i [(a, j)] = u := by
      intro u
      exact (u.stripped_other hi []).trans (u.stripped_nil i)
    simp only [hother, Option.map_id']

theorem revoke_framed {caller target capIdx : Nat}
    (h : k.dispatchCapRevoke caller target capIdx = (k', r)) :
    (r = genericError ∧ k.Undisturbed k') ∨
    (r = 0 ∧ ∃ p : Slot, p.1.val = target ∧ p.2.val = capIdx ∧ k.sched.Withdraws p k'.sched) := by
  rcases k.dispatchCapRevoke_cases caller target capIdx with ⟨heq, _⟩ | ⟨p, c, hrev, heq⟩
  · cases heq.symm.trans h
    exact .inl ⟨rfl, rfl⟩
  · obtain ⟨hk, hr⟩ := Prod.mk.inj (heq.symm.trans h)
    refine .inr ⟨hr.symm, p, hrev.task, hrev.slot, ?_⟩
    obtain ⟨w, ps, hw, hps, hleast, _⟩ := ((k.emptied target capIdx).record .revoke caller target
      c.resource capIdx).propagateRevocation_emptied c.id
    have hstore : ((k.emptied target capIdx).record .revoke caller target c.resource
        capIdx).sched.store = Function.update k.sched.store p none := hrev.emptied_store
    have hfamily := Lib.Lineage.Inherits.family hrev.holds (hstore ▸ hleast)
    have hset : {q | q ∈ p :: ps} = insert p {q | q ∈ ps} := by
      ext q
      exact List.mem_cons
    rw [← hk, hw]
    refine ⟨p :: ps, ?_, fun q hq => ?_, fun i => ?_, ?_⟩
    · rw [hset]
      exact hfamily
    · rcases List.mem_cons.mp hq with rfl | hq
      · rw [hrev.holds]
        exact Option.some_ne_none c
      · intro hnone
        refine hps.held q hq ?_
        rw [hstore, Function.update_apply, hnone, ite_self]
    · rw [hps.tasks i]
      change ((k.emptied target capIdx).sched.tasks i).map _ = _
      rw [hrev.emptied_tasks, Option.map_map]
      congr 1
      funext t
      exact t.stripped_stripped i [p] ps
    · exact hps.current.trans (Scheduler.modify_currentTaskId ..)

/-- The slot that the search of `dispatch_spawn_task` finds. -/
theorem spawnSlot_isLeast {id : Fin maxTasks} (h : (List.finRange maxTasks).find? (fun i =>
    decide (2 ≤ i.val) && (k.sched.tasks i).isNone) = some id) :
    IsLeast {i : Fin maxTasks | 2 ≤ i.val ∧ k.sched.tasks i = none} id := by
  obtain ⟨hfree, hbefore⟩ := Lib.find_finRange.mp h
  simp only [Bool.and_eq_true, decide_eq_true_eq, Option.isNone_iff_eq_none] at hfree hbefore
  refine ⟨hfree, fun i hi => ?_⟩
  by_contra hlt
  exact hbefore i (not_le.mp hlt) hi

theorem spawn_framed {blobType : Nat} (h : k.dispatchSpawnTask blobType = some (k', r)) :
    (r = genericError ∧ k.Undisturbed k') ∨
    ∃ id : Fin maxTasks, r = UInt64.ofNat id ∧ k'.audit = k.audit ∧ k.sched.Spawns id k'.sched := by
  unfold dispatchSpawnTask at h
  split at h
  · cases h
    exact .inl ⟨rfl, rfl⟩
  · rename_i id hid
    have hleast := spawnSlot_isLeast hid
    have hback := fun t => Scheduler.set_set_none hleast.1.2 t
    split at h
    · split at h
      · cases h
      · simp only at h
        split at h
        · cases h
          exact .inl ⟨rfl, by simp only [Undisturbed, hback]⟩
        · rename_i init hinit
          split at h
          · rename_i hins
            cases h
            exact .inr ⟨id, rfl, rfl, hleast, _, _, rfl, rfl, rfl, rfl,
              Scheduler.installs_of_insert hinit hins⟩
          · cases h
            exact .inl ⟨rfl, by simp only [Undisturbed, hback]⟩
    · cases h
      exact .inl ⟨rfl, rfl⟩

theorem ofNat_ne_genericError (id : Fin maxTasks) : UInt64.ofNat id ≠ genericError := by
  intro h
  have hval := congrArg UInt64.toNat h
  have hlt := id.isLt
  simp only [genericError, maxTasks, UInt64.toNat_ofNat', UInt64.reduceToNat] at hval hlt
  omega

/-- A capability call that fails leaves every task, table, state, buffer and the audit
log as they were. One that succeeds makes the one change it is for. -/
theorem capCalls_atomic (k : Kernel) (caller : TaskId) :
    (∀ src target rights k' r, k.dispatchCapGrant caller src target rights = (k', r) →
      (r = genericError → k.Undisturbed k') ∧
      (r ≠ genericError → r = 0 ∧ ∃ c, k.sched.Installs target c k'.sched)) ∧
    (∀ target capIdx k' r, k.dispatchCapRevoke caller target capIdx = (k', r) →
      (r = genericError → k.Undisturbed k') ∧
      (r ≠ genericError → r = 0 ∧ ∃ p : Slot, p.1.val = target ∧ p.2.val = capIdx ∧
        k.sched.Withdraws p k'.sched)) ∧
    ∀ blobType k' r, k.dispatchSpawnTask blobType = some (k', r) →
      (r = genericError → k.Undisturbed k') ∧
      (r ≠ genericError → ∃ id : Fin maxTasks, r = UInt64.ofNat id ∧ k'.audit = k.audit ∧
        k.sched.Spawns id k'.sched) := by
  refine ⟨?_, ?_, ?_⟩
  · intro src target rights k' r h
    rcases grant_framed h with ⟨rfl, hsame⟩ | ⟨rfl, hone⟩
    · exact ⟨fun _ => hsame, fun hne => absurd rfl hne⟩
    · exact ⟨fun he => absurd he (by decide), fun _ => ⟨rfl, hone⟩⟩
  · intro target capIdx k' r h
    rcases revoke_framed h with ⟨rfl, hsame⟩ | ⟨rfl, hone⟩
    · exact ⟨fun _ => hsame, fun hne => absurd rfl hne⟩
    · exact ⟨fun he => absurd he (by decide), fun _ => ⟨rfl, hone⟩⟩
  · intro blobType k' r h
    rcases spawn_framed h with ⟨rfl, hsame⟩ | ⟨id, rfl, hone⟩
    · exact ⟨fun _ => hsame, fun hne => absurd rfl hne⟩
    · exact ⟨fun he => absurd he (ofNat_ne_genericError id), fun _ => ⟨id, rfl, hone⟩⟩

def serialPair : Kernel :=
  .ofTasks [Task.new 0 0 0 (CapTable.ofList [⟨.serial, false, true, true, false, 1, none⟩,
      ⟨.ipcChannel 1, false, true, true, false, 2, none⟩]),
    Task.new 0 0 1 (CapTable.ofList [⟨.serial, false, true, false, false, 3, none⟩])] 4 (some 0)

/-- Task 0 grants the serial port, revokes what task 1 had, and asks for a task of an
unknown type. -/
theorem capCalls_atomic_pair : (∃ k' c,
    serialPair.dispatchCapGrant 0 0 1 ⟨false, true, false⟩ = (k', 0) ∧
      serialPair.sched.Installs 1 c k'.sched) ∧
    (∃ k' p, serialPair.dispatchCapRevoke 0 1 0 = (k', 0) ∧ serialPair.sched.Withdraws p k'.sched) ∧
    ∃ k', serialPair.dispatchSpawnTask 9 = some (k', genericError) ∧ serialPair.Undisturbed k' := by
  obtain ⟨hgrant, hrevoke, hspawn⟩ := capCalls_atomic serialPair 0
  obtain ⟨c, hc⟩ := ((hgrant 0 1 ⟨false, true, false⟩ _ 0 rfl).2 (by decide)).2
  have hzero : (serialPair.dispatchCapRevoke 0 1 0).2 = 0 := rfl
  obtain ⟨p, _, _, hp⟩ := ((hrevoke 1 0 _ 0 (Prod.ext rfl hzero)).2 (by decide)).2
  exact ⟨⟨_, c, rfl, hc⟩, ⟨_, p, Prod.ext rfl hzero, hp⟩, _, rfl, (hspawn 9 _ _ rfl).1 rfl⟩

end Kernel

end Runix
