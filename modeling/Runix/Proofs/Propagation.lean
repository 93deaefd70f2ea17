import Runix.Proofs.Revocation

namespace Runix

def Scheduler.removal (s : Scheduler) (p : Slot) : Option AuditEvent := do
  let task ← s.tasks p.1
  let cap ← task.capTable.slots p.2
  some ⟨.revokePropagated, kernelActor, task.id, cap.resource, p.2⟩

def Task.stripped (t : Task) (i : Fin maxTasks) (ps : List Slot) : Task :=
  { t with capTable := ⟨fun j => if (i, j) ∈ ps then none else t.capTable.slots j⟩ }

theorem Task.stripped_snoc (t : Task) (p : Slot) (ps : List Slot) :
    { t.stripped p.1 ps with capTable := (t.stripped p.1 ps).capTable.clear p.2 } =
      t.stripped p.1 (ps ++ [p]) := by
  have hslots : ((t.stripped p.1 ps).capTable.clear p.2).slots =
      (t.stripped p.1 (ps ++ [p])).capTable.slots := by
    rw [CapTable.clear_eq]
    funext j
    rw [Function.update_apply]
    by_cases hj : j = p.2
    · simp [hj, Task.stripped]
    · simp [hj, Task.stripped, Prod.ext_iff]
  exact congrArg (fun slots => { t with capTable := ⟨slots⟩ }) hslots

theorem Task.stripped_other (t : Task) {i : Fin maxTasks} {p : Slot} (h : i ≠ p.1)
    (ps : List Slot) : t.stripped i (ps ++ [p]) = t.stripped i ps := by
  simp [Task.stripped, Prod.ext_iff, h]

namespace Kernel.Propagation
open Lib Relation

inductive Breaks : Propagation → Propagation → Prop where
  | stop {w : Propagation} (quiet : w.pass.changed = false) : Breaks w w.pass
  | again {w w' : Propagation} (changed : w.pass.changed = true) (tail : Breaks w.pass w') :
      Breaks w w'

section Unbounded

def visitUnbounded (w : Propagation) (tIdx : Fin maxTasks) (s : Fin maxCaps) : Propagation :=
  match w.sched.tasks tIdx with
  | none => w
  | some task =>
    match task.capTable.slots s with
    | none => w
    | some cap =>
      match cap.origin with
      | none => w
      | some parentId =>
        if parentId ∈ w.revoked then
          { sched := w.sched.set tIdx (some { task with capTable := task.capTable.clear s })
            audit := w.audit.push ⟨.revokePropagated, kernelActor, task.id, cap.resource, s⟩
            revoked := w.revoked ++ [cap.id]
            changed := true }
        else w

def passUnbounded (w : Propagation) : Propagation :=
  slotOrder.foldl (fun w p => w.visitUnbounded p.1 p.2) { w with changed := false }

def loopUnbounded : Nat → Propagation → Propagation
  | 0, w => w
  | fuel + 1, w =>
    if w.passUnbounded.changed then loopUnbounded fuel w.passUnbounded else w.passUnbounded

def Fits (w : Propagation) : Prop :=
  Lineage.occupied w.sched.store + w.revoked.length ≤ revokedIdsCap

variable {w : Propagation}

theorem Fits.visit_eq (h : w.Fits) (p : Slot) : w.visit p.1 p.2 = w.visitUnbounded p.1 p.2 := by
  unfold visit visitUnbounded
  cases ht : w.sched.tasks p.1 with
  | none => rfl
  | some task =>
    cases hc : task.capTable.slots p.2 with
    | none => simp only [hc]
    | some cap =>
      have hpos := Lineage.occupied_pos (Scheduler.store_eq_some.mpr ⟨task, ht, hc⟩)
      have hroom : w.revoked.length < revokedIdsCap := by
        unfold Fits at h
        omega
      cases ho : cap.origin with
      | none => simp only [hc, ho]
      | some parentId => simp only [hc, ho, hroom, and_true]

theorem Fits.visit (h : w.Fits) (p : Slot) : (w.visit p.1 p.2).Fits := by
  rcases visit_cases w p with ⟨heq, _⟩ | ⟨hprune, _⟩
  · rw [heq]
    exact h
  · exact hprune.size.trans_le h

theorem Fits.foldl_eq (ps : List Slot) (h : w.Fits) :
    ps.foldl (fun w p => w.visit p.1 p.2) w = ps.foldl (fun w p => w.visitUnbounded p.1 p.2) w ∧
    (ps.foldl (fun w p => w.visit p.1 p.2) w).Fits := by
  induction ps generalizing w with
  | nil => exact ⟨rfl, h⟩
  | cons p ps ih =>
    simp only [List.foldl_cons, ← h.visit_eq p]
    exact ih (h.visit p)

theorem Fits.pass_eq (h : w.Fits) : w.pass = w.passUnbounded ∧ w.pass.Fits := by
  have hstart : ({ w with changed := false } : Propagation).Fits := h
  exact hstart.foldl_eq slotOrder

theorem Fits.loop_eq (fuel : Nat) (h : w.Fits) : loop fuel w = loopUnbounded fuel w := by
  induction fuel generalizing w with
  | zero => rfl
  | succ fuel ih =>
    obtain ⟨heq, hpass⟩ := h.pass_eq
    simp only [loop, loopUnbounded, ← heq, ih hpass]

theorem Fits.length_le (h : w.Fits) : w.revoked.length ≤ revokedIdsCap :=
  (Nat.le_add_left _ _).trans h

/-- With more passes than free cells the loop comes to its end: a pass that changes
something fills a cell. -/
theorem Fits.loop_breaks (fuel : Nat) (h : w.Fits)
    (hfuel : revokedIdsCap < fuel + w.revoked.length) : Breaks w (loop fuel w) := by
  induction fuel generalizing w with
  | zero =>
    have := h.length_le
    omega
  | succ fuel ih =>
    obtain ⟨_, hpass⟩ := h.pass_eq
    obtain ⟨_, _, hlonger, _⟩ := foldl_visit slotOrder { w with changed := false }
    unfold loop
    cases hc : w.pass.changed with
    | false =>
      simp only [Bool.false_eq_true, if_false]
      exact .stop hc
    | true =>
      have hlen : w.revoked.length < w.pass.revoked.length := by
        rcases hlonger hc with h | h
        · cases h
        · exact h
      simp only [if_true]
      exact .again hc (ih hpass (by omega))

theorem fits_start (sched : Scheduler) (audit : AuditLog) (rootId : Nat) :
    (⟨sched, audit, [rootId], false⟩ : Propagation).Fits := by
  have hle := Lineage.occupied_le sched.store
  have hcard := card_slot
  unfold Fits
  simp only [List.length_singleton]
  omega

end Unbounded

/-- How a propagation that began with `s` and `log` stands: it has emptied the slots
`ps`, one after the other, recorded each when it did, and touched nothing else. -/
structure Emptied (s : Scheduler) (log : AuditLog) (ps : List Slot) (w : Propagation) : Prop where
  nodup : ps.Nodup
  held : ∀ p ∈ ps, s.store p ≠ none
  tasks : ∀ i, w.sched.tasks i = (s.tasks i).map (fun t => t.stripped i ps)
  current : w.sched.currentTaskId = s.currentTaskId
  audit : ∃ evs : List AuditEvent, ps.map s.removal = evs.map some ∧ w.audit = evs.foldl AuditLog.push log

variable {s : Scheduler} {log : AuditLog} {ps : List Slot} {w : Propagation}

theorem emptied_start (s : Scheduler) (log : AuditLog) (rootId : Nat) :
    Emptied s log [] ⟨s, log, [rootId], false⟩ where
  nodup := List.nodup_nil
  held _ hp := absurd hp List.not_mem_nil
  tasks i := by simp [Task.stripped]
  current := rfl
  audit := ⟨[], rfl, rfl⟩

theorem Emptied.store (h : Emptied s log ps w) (p : Slot) :
    w.sched.store p = if p ∈ ps then none else s.store p := by
  unfold Scheduler.store
  rw [h.tasks]
  cases s.tasks p.1 with
  | none => simp
  | some t => simp [Task.stripped]

/-- Exactly the slots of the list are empty that were not. -/
theorem Emptied.mem_iff (h : Emptied s log ps w) (p : Slot) :
    p ∈ ps ↔ s.store p ≠ none ∧ w.sched.store p = none := by
  rw [h.store p]
  constructor
  · intro hp
    exact ⟨h.held p hp, if_pos hp⟩
  · rintro ⟨hsome, hgone⟩
    by_contra hp
    rw [if_neg hp] at hgone
    exact hsome hgone

/-- One more slot is emptied and recorded. -/
theorem Emptied.snoc (h : Emptied s log ps w) {p : Slot} {task : Task} {c : Capability}
    (ht : w.sched.tasks p.1 = some task) (hc : task.capTable.slots p.2 = some c)
    (revoked : List Nat) (changed : Bool) :
    Emptied s log (ps ++ [p])
      { sched := w.sched.set p.1 (some { task with capTable := task.capTable.clear p.2 })
        audit := w.audit.push ⟨.revokePropagated, kernelActor, task.id, c.resource, p.2⟩
        revoked := revoked
        changed := changed } := by
  rw [h.tasks] at ht
  obtain ⟨t, hst, rfl⟩ := Option.map_eq_some_iff.mp ht
  have hslot : p ∉ ps ∧ t.capTable.slots p.2 = some c := by
    simpa [Task.stripped] using hc
  obtain ⟨hnew, hcap⟩ := hslot
  have hheld : s.store p = some c := Scheduler.store_eq_some.mpr ⟨t, hst, hcap⟩
  refine ⟨?_, fun q hq => ?_, fun i => ?_, h.current, ?_⟩
  · rw [List.nodup_append]
    refine ⟨h.nodup, List.nodup_singleton p, fun a ha b hb hab => ?_⟩
    rw [List.mem_singleton.mp hb] at hab
    exact hnew (hab ▸ ha)
  · rcases List.mem_append.mp hq with hq | hq
    · exact h.held q hq
    · rw [List.mem_singleton.mp hq, hheld]
      exact Option.some_ne_none c
  · rw [Scheduler.set_tasks]
    split
    · rename_i hi
      subst hi
      rw [hst, Task.stripped_snoc, Option.map_some]
    · rename_i hi
      simp only [h.tasks, Task.stripped_other _ hi]
  · have hevent : s.removal p = some ⟨.revokePropagated, kernelActor, t.id, c.resource, p.2⟩ := by
      simp [Scheduler.removal, hst, hcap]
    obtain ⟨evs, hevs, haudit⟩ := h.audit
    refine ⟨evs ++ [⟨.revokePropagated, kernelActor, t.id, c.resource, p.2⟩], ?_, ?_⟩
    · rw [List.map_append, List.map_append, hevs, List.map_singleton, hevent, List.map_singleton]
    · rw [List.foldl_append, ← haudit]
      rfl

theorem Emptied.visit (h : Emptied s log ps w) (p : Slot) :
    ∃ qs, Emptied s log (ps ++ qs) (w.visit p.1 p.2) := by
  unfold Propagation.visit
  split
  · exact ⟨[], by rwa [List.append_nil]⟩
  · rename_i task ht
    split
    · exact ⟨[], by rwa [List.append_nil]⟩
    · rename_i c hc
      split
      · exact ⟨[], by rwa [List.append_nil]⟩
      · split
        · exact ⟨[p], h.snoc ht hc _ _⟩
        · exact ⟨[], by rwa [List.append_nil]⟩

theorem Emptied.visits (h : Emptied s log ps w) (order : List Slot) :
    ∃ qs, Emptied s log qs (order.foldl (fun w p => w.visit p.1 p.2) w) := by
  induction order generalizing w ps with
  | nil => exact ⟨ps, h⟩
  | cons p order ih =>
    obtain ⟨_, hvisit⟩ := h.visit p
    exact ih hvisit

theorem Emptied.pass (h : Emptied s log ps w) : ∃ qs, Emptied s log qs w.pass := by
  have hstart : Emptied s log ps { w with changed := false } :=
    ⟨h.nodup, h.held, h.tasks, h.current, h.audit⟩
  exact hstart.visits slotOrder

theorem Emptied.loop (fuel : Nat) (h : Emptied s log ps w) :
    ∃ qs, Emptied s log qs (loop fuel w) := by
  induction fuel generalizing w ps with
  | zero => exact ⟨ps, h⟩
  | succ fuel ih =>
    obtain ⟨qs, hpass⟩ := h.pass
    unfold Propagation.loop
    split
    · exact ih hpass
    · exact ⟨qs, hpass⟩

end Kernel.Propagation

namespace Kernel
open Lib

/-- The loop in any number of passes that is large enough. -/
theorem Propagation.loop_outcome (fuel : Nat) (s : Scheduler) (log : AuditLog) (rootId : Nat)
    (h : revokedIdsCap ≤ fuel) :
    ∃ w ps, Propagation.loop fuel ⟨s, log, [rootId], false⟩ = w ∧
      Propagation.Breaks ⟨s, log, [rootId], false⟩ w ∧
      Propagation.loopUnbounded fuel ⟨s, log, [rootId], false⟩ = w ∧
      Propagation.Emptied s log ps w ∧
      IsLeast {R | capLineage.Inherits s.store rootId R}
        {p | s.store p ≠ none ∧ w.sched.store p = none} := by
  have hfits := Propagation.fits_start s log rootId
  obtain ⟨hrun, hstuck⟩ :=
    Propagation.loop_rests fuel ⟨s, log, [rootId], false⟩ (Nat.le_add_right_of_le h)
  obtain ⟨ps, hps⟩ := (Propagation.emptied_start s log rootId).loop fuel
  have hpruned := (Lineage.pruned_refl s.store rootId).steps hrun
  have hclosed := Propagation.closed_of_stuck rfl hrun hstuck
  refine ⟨_, ps, rfl, hfits.loop_breaks fuel ?_, (hfits.loop_eq fuel).symm, hps,
    hpruned.isLeast hclosed⟩
  simp only [List.length_singleton]
  omega

/-- What `propagate_revocation` leaves: the least set of slots that holds what was
derived from the identity is emptied and recorded. -/
theorem propagateRevocation_emptied (k : Kernel) (rootId : Nat) :
    ∃ w ps, k.propagateRevocation rootId = { k with sched := w.sched, audit := w.audit } ∧
      Propagation.Emptied k.sched k.audit ps w ∧
      IsLeast {R | capLineage.Inherits k.sched.store rootId R} {p | p ∈ ps} ∧
      Propagation.Breaks ⟨k.sched, k.audit, [rootId], false⟩ w ∧
      Propagation.loopUnbounded revokedIdsCap ⟨k.sched, k.audit, [rootId], false⟩ = w := by
  obtain ⟨w, ps, hloop, hbreaks, hfree, hps, hleast⟩ :=
    Propagation.loop_outcome revokedIdsCap k.sched k.audit rootId (Nat.le_refl _)
  have hset : {p | p ∈ ps} = {p | k.sched.store p ≠ none ∧ w.sched.store p = none} :=
    Set.ext hps.mem_iff
  refine ⟨w, ps, ?_, hps, ?_, hbreaks, hfree⟩
  · rw [propagateRevocation, hloop]
    rfl
  · rw [hset]
    exact hleast

/-- `propagate_revocation` ends, and empties the least set of slots that holds what was
derived from the identity or from a capability in one of its slots. Each of them is
recorded once; no other slot, no other field and no other part of the kernel changes;
and without the bound on the scratch array the loop would do the same. -/
theorem propagation_exact (k : Kernel) (rootId : Nat) :
    ∃ (w : Propagation) (ps : List Slot) (evs : List AuditEvent),
      Propagation.Breaks ⟨k.sched, k.audit, [rootId], false⟩ w ∧
      k.propagateRevocation rootId = { k with sched := w.sched, audit := w.audit } ∧
      Propagation.loopUnbounded revokedIdsCap ⟨k.sched, k.audit, [rootId], false⟩ = w ∧
      IsLeast {R | capLineage.Inherits k.sched.store rootId R} {p | p ∈ ps} ∧
      (∀ p, p ∈ ps ↔ k.sched.store p ≠ none ∧ w.sched.store p = none) ∧
      (∀ p, p ∉ ps → w.sched.store p = k.sched.store p) ∧
      (∀ i, w.sched.tasks i = (k.sched.tasks i).map (fun t => t.stripped i ps)) ∧
      w.sched.currentTaskId = k.sched.currentTaskId ∧
      ps.Nodup ∧ ps.map k.sched.removal = evs.map some ∧
      w.audit = evs.foldl AuditLog.push k.audit := by
  obtain ⟨w, ps, heq, hps, hleast, hbreaks, hfree⟩ := k.propagateRevocation_emptied rootId
  obtain ⟨evs, hevs, haudit⟩ := hps.audit
  refine ⟨w, ps, evs, hbreaks, heq, hfree, hleast, hps.mem_iff, fun p hp => ?_, hps.tasks,
    hps.current, hps.nodup, hevs, haudit⟩
  rw [hps.store, if_neg hp]

end Kernel

end Runix
