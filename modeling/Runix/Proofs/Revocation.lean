import Runix.Syscall
import Runix.Lib.Lineage
import Mathlib.Data.Fintype.Prod

namespace Runix

abbrev Slot := Fin maxTasks × Fin maxCaps

def Scheduler.store (s : Scheduler) (p : Slot) : Option Capability :=
  (s.tasks p.1).bind (fun t => t.capTable.slots p.2)

def capLineage : Lib.Lineage Capability Nat := ⟨Capability.id, Capability.origin⟩

@[simp] theorem capLineage_key (c : Capability) : capLineage.key c = c.id := rfl

@[simp] theorem capLineage_parent (c : Capability) : capLineage.parent c = c.origin := rfl

namespace Scheduler

theorem store_eq_some {s : Scheduler} {p : Slot} {c : Capability} :
    s.store p = some c ↔ ∃ t, s.tasks p.1 = some t ∧ t.capTable.slots p.2 = some c :=
  Option.bind_eq_some_iff

theorem store_set (s : Scheduler) (i : Fin maxTasks) (t : Option Task) (p : Slot) :
    (s.set i t).store p = if p.1 = i then t.bind (fun t => t.capTable.slots p.2)
      else s.store p := by
  unfold store
  rw [set_tasks]
  split <;> rfl

/-- Replacing one task's table changes the store only there. -/
theorem store_set_slot {s : Scheduler} {i : Fin maxTasks} {t u : Task} {j : Fin maxCaps}
    {c : Option Capability} (h : s.tasks i = some t)
    (hu : u.capTable.slots = Function.update t.capTable.slots j c) :
    (s.set i (some u)).store = Function.update s.store (i, j) c := by
  funext p
  rw [store_set, Function.update_apply]
  by_cases hi : p.1 = i
  · by_cases hj : p.2 = j
    · simp [hi, hj, hu, Prod.ext_iff]
    · simp [hi, hj, hu, Prod.ext_iff, store, h]
  · simp [hi, Prod.ext_iff]

end Scheduler

theorem CapTable.clear_eq (t : CapTable) (j : Fin maxCaps) :
    (t.clear j).slots = Function.update t.slots j none := by
  simp [CapTable.clear]

namespace Kernel.Propagation
open Relation

def cascade (w : Propagation) : Lib.Lineage.Cascade Slot Capability Nat :=
  (w.sched.store, w.revoked)

def Stuck (w : Propagation) (p : Slot) : Prop :=
  ∀ c k, w.sched.store p = some c → c.origin = some k → k ∈ w.revoked →
    revokedIdsCap ≤ w.revoked.length

theorem visit_cases (w : Propagation) (p : Slot) :
    (w.visit p.1 p.2 = w ∧ w.Stuck p) ∨
    (capLineage.Prune w.cascade (w.visit p.1 p.2).cascade ∧ (w.visit p.1 p.2).changed = true) := by
  unfold visit
  split
  · rename_i ht
    exact .inl ⟨rfl, fun c k hc => by simp [Scheduler.store, ht] at hc⟩
  · rename_i task ht
    split
    · rename_i hs
      exact .inl ⟨rfl, fun c k hc => by simp [Scheduler.store, ht, hs] at hc⟩
    · rename_i cap hs
      have hstore : w.sched.store p = some cap := Scheduler.store_eq_some.mpr ⟨task, ht, hs⟩
      split
      · rename_i ho
        exact .inl ⟨rfl, fun c k hc hk => by simp_all⟩
      · rename_i k ho
        split
        · rename_i hk
          refine .inr ⟨?_, rfl⟩
          have hset := Scheduler.store_set_slot
            (u := { task with capTable := task.capTable.clear p.2 }) ht (CapTable.clear_eq _ p.2)
          simp only [cascade, hset]
          exact .mk hstore ho hk.1
        · rename_i hk
          refine .inl ⟨rfl, fun c k' hc hk' hmem => ?_⟩
          cases hstore.symm.trans hc
          cases ho.symm.trans hk'
          by_contra hlen
          exact hk ⟨hmem, by omega⟩

/-- What visiting a list of slots can do. -/
theorem foldl_visit (ps : List Slot) (w : Propagation) :
    let w' := ps.foldl (fun w p => w.visit p.1 p.2) w
    ReflTransGen capLineage.Prune w.cascade w'.cascade ∧
    (w'.changed = false → w' = w ∧ ∀ p ∈ ps, w.Stuck p) ∧
    (w'.changed = true → w.changed = true ∨ w.revoked.length < w'.revoked.length) ∧
    w.revoked.length ≤ w'.revoked.length := by
  induction ps generalizing w with
  | nil => exact ⟨.refl, by simp, .inl, le_refl _⟩
  | cons p ps ih =>
    obtain ⟨hrun, hsame, hlonger, hle⟩ := ih (w.visit p.1 p.2)
    simp only [List.foldl_cons]
    rcases visit_cases w p with ⟨heq, hstuck⟩ | ⟨hprune, hch⟩
    · rw [heq] at hrun hsame hlonger hle ⊢
      refine ⟨hrun, fun h => ?_, hlonger, hle⟩
      obtain ⟨hw, hps⟩ := hsame h
      exact ⟨hw, by simpa [hstuck] using hps⟩
    · have hlen : w.revoked.length < (w.visit p.1 p.2).revoked.length := by
        generalize hc : w.cascade = u at hprune
        generalize hc' : (w.visit p.1 p.2).cascade = u' at hprune
        obtain ⟨_, _, _⟩ := hprune
        have h1 := congrArg (fun u => u.2.length) hc
        have h2 := congrArg (fun u => u.2.length) hc'
        simp only [cascade, List.length_append, List.length_singleton] at h1 h2
        omega
      refine ⟨.head hprune hrun, fun h => ?_, fun _ => .inr (by omega), by omega⟩
      obtain ⟨hw, _⟩ := hsame h
      rw [hw, hch] at h
      cases h

theorem mem_slotOrder (p : Slot) : p ∈ slotOrder := by
  simp [slotOrder, Prod.ext_iff]

/-- Enough passes come to rest: each pass but the last uses up a cell of the
scratch array. -/
theorem loop_rests (fuel : Nat) (w : Propagation)
    (h : revokedIdsCap ≤ fuel + w.revoked.length) :
    ReflTransGen capLineage.Prune w.cascade (loop fuel w).cascade ∧
      ∀ p, (loop fuel w).Stuck p := by
  induction fuel generalizing w with
  | zero => exact ⟨.refl, fun p c k _ _ _ => by simpa [loop] using h⟩
  | succ fuel ih =>
    obtain ⟨hrun, hsame, hlonger, -⟩ := foldl_visit slotOrder { w with changed := false }
    change ReflTransGen _ w.cascade w.pass.cascade at hrun
    unfold loop
    cases hc : w.pass.changed with
    | true =>
      have hlen : w.revoked.length < w.pass.revoked.length := by
        rcases hlonger hc with h | h
        · cases h
        · exact h
      obtain ⟨hrun', hstuck⟩ := ih w.pass (by omega)
      simp only [if_true]
      exact ⟨hrun.trans hrun', hstuck⟩
    | false =>
      obtain ⟨hw, hstuck⟩ := hsame hc
      simp only [Bool.false_eq_true, if_false]
      refine ⟨hrun, fun p => ?_⟩
      change w.pass = _ at hw
      rw [hw]
      exact hstuck p (mem_slotOrder p)

end Kernel.Propagation

namespace Kernel
open Lib

theorem card_slot : Fintype.card Slot + 1 = revokedIdsCap := by
  rw [Fintype.card_prod, Fintype.card_fin, Fintype.card_fin]
  rfl

/-- At rest nothing is left to remove: the scratch array cannot have filled up
first. -/
theorem Propagation.closed_of_stuck {w u : Propagation} (hu : u.revoked.length = 1)
    (hrun : Relation.ReflTransGen capLineage.Prune u.cascade w.cascade)
    (hstuck : ∀ p, w.Stuck p) : capLineage.Closed w.cascade := by
  intro p c k hc hk hmem
  have hlen : revokedIdsCap ≤ w.revoked.length := hstuck p c k hc hk hmem
  have hsize := Lineage.size_steps hrun
  simp only [Propagation.cascade, hu] at hsize
  have hpos : 0 < Lineage.occupied w.sched.store := Lineage.occupied_pos hc
  have hle := Lineage.occupied_le u.sched.store
  have hcard := card_slot
  omega

theorem Propagation.loop_pruned (sched : Scheduler) (audit : AuditLog) (rootId : Nat) :
    ∃ w, Propagation.loop revokedIdsCap ⟨sched, audit, [rootId], false⟩ = w ∧
      capLineage.Pruned sched.store rootId w.cascade ∧ capLineage.Closed w.cascade := by
  obtain ⟨hrun, hstuck⟩ := Propagation.loop_rests revokedIdsCap
    ⟨sched, audit, [rootId], false⟩ (Nat.le_add_right _ _)
  exact ⟨_, rfl, (Lineage.pruned_refl _ _).steps hrun,
    Propagation.closed_of_stuck rfl hrun hstuck⟩

/-- `propagate_revocation` removes, for good, the descendants of the identity
it is given and nothing else. -/
theorem propagateRevocation_pruned (k : Kernel) (rootId : Nat) :
    ∃ rs, capLineage.Pruned k.sched.store rootId ((k.propagateRevocation rootId).sched.store, rs) ∧
      capLineage.Closed ((k.propagateRevocation rootId).sched.store, rs) := by
  obtain ⟨w, hw, hp, hc⟩ := Propagation.loop_pruned k.sched k.audit rootId
  rw [propagateRevocation, hw]
  exact ⟨w.revoked, hp, hc⟩

theorem propagateRevocation_nextCapId (k : Kernel) (rootId : Nat) :
    (k.propagateRevocation rootId).nextCapId = k.nextCapId :=
  Propagation.install_nextCapId _ _

theorem getTask_modify {s : Scheduler} {id : Nat} {t : Task} (h : s.getTask id = some t)
    (f : Task → Task) : ∃ hi : id < maxTasks, s.tasks ⟨id, hi⟩ = some t ∧
      s.modify id f = s.set ⟨id, hi⟩ (some (f t)) := by
  obtain ⟨_, hi, ht⟩ := Scheduler.getTask_some h
  exact ⟨hi, ht, by simp [Scheduler.modify, h, hi]⟩

structure Revokes (k : Kernel) (target capIdx : Nat) (p : Slot) (c : Capability) : Prop where
  allowed : k.currentHasGrantCapTo target = true
  found : (k.sched.getTask target).isSome = true
  task : p.1.val = target
  slot : p.2.val = capIdx
  holds : k.sched.store p = some c

def emptied (k : Kernel) (target capIdx : Nat) : Kernel :=
  { k with sched := k.sched.modify target (fun t =>
      { t with capTable := t.capTable.clear capIdx }) }

theorem Revokes.emptied_store {k : Kernel} {target capIdx : Nat} {p : Slot} {c : Capability}
    (h : k.Revokes target capIdx p c) :
    (k.emptied target capIdx).sched.store = Function.update k.sched.store p none := by
  obtain ⟨t, ht⟩ := Option.isSome_iff_exists.mp h.found
  obtain ⟨i, j⟩ := p
  obtain rfl : i.val = target := h.task
  obtain rfl : j.val = capIdx := h.slot
  obtain ⟨_, hslot, hmod⟩ := getTask_modify ht (fun t =>
    { t with capTable := t.capTable.clear j })
  change (k.sched.modify i _).store = _
  rw [hmod]
  exact Scheduler.store_set_slot hslot (CapTable.clear_eq ..)

/-- The two outcomes of `dispatch_cap_revoke`. -/
theorem dispatchCapRevoke_cases (k : Kernel) (caller target capIdx : Nat) :
    (k.dispatchCapRevoke caller target capIdx = (k, genericError) ∧
      ∀ p c, ¬ k.Revokes target capIdx p c) ∨
    ∃ p c, k.Revokes target capIdx p c ∧ k.dispatchCapRevoke caller target capIdx =
      (((k.emptied target capIdx).record .revoke caller target c.resource
        capIdx).propagateRevocation c.id, 0) := by
  unfold dispatchCapRevoke
  cases hgrant : k.currentHasGrantCapTo target with
  | false =>
    refine .inl ⟨rfl, fun p c h => ?_⟩
    cases hgrant.symm.trans h.allowed
  | true =>
    cases ht : k.sched.getTask target with
    | none =>
      refine .inl ⟨rfl, fun p c h => ?_⟩
      have hfound := h.found
      rw [ht] at hfound
      cases hfound
    | some t =>
      obtain ⟨hi, hslot, hmod⟩ := getTask_modify ht (fun t =>
        { t with capTable := t.capTable.clear capIdx })
      cases hget : t.capTable.get capIdx with
      | none =>
        simp only [CapTable.kernelRevoke, hget]
        refine .inl ⟨rfl, fun ⟨i, j⟩ c h => ?_⟩
        obtain rfl : i.val = target := h.task
        obtain rfl : j.val = capIdx := h.slot
        obtain ⟨u, hu, hc⟩ := Scheduler.store_eq_some.mp h.holds
        cases hslot.symm.trans hu
        rw [CapTable.get_val] at hget
        cases hget.symm.trans hc
      | some cap =>
        obtain ⟨hj, hcap⟩ := CapTable.get_eq_some.mp hget
        simp only [CapTable.kernelRevoke, hget]
        refine .inr ⟨(⟨target, hi⟩, ⟨capIdx, hj⟩), cap, ?_, ?_⟩
        · exact ⟨hgrant, by rw [ht]; rfl, rfl, rfl, Scheduler.store_eq_some.mpr ⟨t, hslot, hcap⟩⟩
        · have hsame : k.sched.modify target (fun u =>
              { u with capTable := t.capTable.clear capIdx }) = (k.emptied target capIdx).sched := by
            rw [Scheduler.modify_some ht hi]
            exact hmod.symm
          rw [hsame]
          rfl

end Kernel

end Runix
