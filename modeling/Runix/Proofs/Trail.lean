import Runix.Proofs.Authority

namespace Runix

abbrev Occupancy := Slot → Option Resource

def Scheduler.occupancy (s : Scheduler) : Occupancy :=
  fun p => (s.store p).map Capability.resource

theorem Scheduler.occupancy_update {s s' : Scheduler} {p : Slot} {c : Option Capability}
    (h : s'.store = Function.update s.store p c) :
    s'.occupancy = Function.update s.occupancy p (c.map Capability.resource) := by
  funext q
  simp only [occupancy, h, Function.update_apply]
  split <;> rfl

namespace AuditEvent

def place (ev : AuditEvent) : Option Slot :=
  if h : ev.target < maxTasks ∧ ev.slot < maxCaps then
    some (⟨ev.target, h.1⟩, ⟨ev.slot, h.2⟩)
  else none

/-- Replays one event. `none` when the event contradicts the occupancy: it fills
an occupied slot, empties an empty one, or names another resource. -/
def replay (occ : Occupancy) (ev : AuditEvent) : Option Occupancy :=
  match ev.place with
  | none => none
  | some p =>
    match ev.kind with
    | .grant => if occ p = none then some (Function.update occ p (some ev.resource)) else none
    | .revoke | .revokePropagated =>
      if occ p = some ev.resource then some (Function.update occ p none) else none

variable {occ occ' : Occupancy} {ev : AuditEvent} {evs : List AuditEvent} {p : Slot}

theorem place_eq (htarget : ev.target = p.1) (hslot : ev.slot = p.2) : ev.place = some p := by
  simp [place, htarget, hslot]

theorem replay_grant (hkind : ev.kind = .grant) (hplace : ev.place = some p)
    (hfree : occ p = none) : ev.replay occ = some (Function.update occ p (some ev.resource)) := by
  simp only [replay, hplace, hkind, hfree, if_true]

theorem replay_removal (hkind : ev.kind ≠ .grant) (hplace : ev.place = some p)
    (hheld : occ p = some ev.resource) : ev.replay occ = some (Function.update occ p none) := by
  cases hk : ev.kind with
  | grant => exact absurd hk hkind
  | revoke => simp only [replay, hplace, hk, hheld, if_true]
  | revokePropagated => simp only [replay, hplace, hk, hheld, if_true]

/-- A removal that replays names an occupied slot and empties it. -/
theorem removal_of_replay (hkind : ev.kind ≠ .grant) (h : ev.replay occ = some occ') :
    ∃ p, ev.place = some p ∧ occ p = some ev.resource ∧ occ' = Function.update occ p none := by
  unfold replay at h
  split at h
  · cases h
  · rename_i p hp
    split at h
    · rename_i hk
      exact absurd hk hkind
    all_goals
      split at h
      · rename_i hheld
        cases h
        exact ⟨p, hp, hheld, rfl⟩
      · cases h

/-- Replaying removals fills no slot. -/
theorem removals_shrink (hkind : ∀ ev ∈ evs, ev.kind ≠ .grant)
    (h : evs.foldlM (fun occ ev => ev.replay occ) occ = some occ') (hp : occ p = none) :
    occ' p = none := by
  induction evs generalizing occ with
  | nil =>
    cases h
    exact hp
  | cons ev evs ih =>
    rw [List.foldlM_cons] at h
    obtain ⟨occ₁, h₁, h⟩ := Option.bind_eq_some_iff.mp h
    obtain ⟨q, _, _, rfl⟩ := removal_of_replay (hkind ev List.mem_cons_self) h₁
    apply ih (fun e he => hkind e (List.mem_cons_of_mem _ he)) h
    rw [Function.update_apply]
    split
    · rfl
    · exact hp

/-- Removals that replay name every slot they empty once, and no other. -/
theorem removals_place (hkind : ∀ ev ∈ evs, ev.kind ≠ .grant)
    (h : evs.foldlM (fun occ ev => ev.replay occ) occ = some occ') :
    (evs.map place).Nodup ∧
    ∀ p, some p ∈ evs.map place ↔ occ p ≠ none ∧ occ' p = none := by
  induction evs generalizing occ with
  | nil =>
    cases h
    exact ⟨List.nodup_nil, fun p => iff_of_false (by simp) (fun ⟨hsome, hnone⟩ => hsome hnone)⟩
  | cons ev evs ih =>
    have hrest : ∀ e ∈ evs, e.kind ≠ .grant := fun e he => hkind e (List.mem_cons_of_mem _ he)
    rw [List.foldlM_cons] at h
    obtain ⟨occ₁, h₁, h⟩ := Option.bind_eq_some_iff.mp h
    obtain ⟨q, hq, hheld, rfl⟩ := removal_of_replay (hkind ev List.mem_cons_self) h₁
    obtain ⟨hnodup, hmem⟩ := ih hrest h
    have hgone : some q ∉ evs.map place := by
      intro hin
      exact ((hmem q).mp hin).1 (Function.update_self ..)
    refine ⟨?_, fun p => ?_⟩
    · rw [List.map_cons, hq]
      exact List.nodup_cons.mpr ⟨hgone, hnodup⟩
    · rw [List.map_cons, hq, List.mem_cons, hmem]
      by_cases hp : p = q
      · subst hp
        have hstill : occ' p = none := removals_shrink hrest h (Function.update_self ..)
        simp [hheld, hstill]
      · simp [hp]

end AuditEvent

def AuditLog.since (log log' : AuditLog) : List AuditEvent :=
  if log'.total = log.total then [] else (log'.buffer log.next).toList

@[simp] theorem AuditLog.since_self (log : AuditLog) : log.since log = [] := if_pos rfl

@[simp] theorem AuditLog.since_push (log : AuditLog) (ev : AuditEvent) :
    log.since (log.push ev) = [ev] := by
  simp [since, push]

namespace Kernel

def Propagation.visitTrail : List Slot → Propagation → List AuditEvent
  | [], _ => []
  | p :: ps, w => w.audit.since (w.visit p.1 p.2).audit ++ visitTrail ps (w.visit p.1 p.2)

def Propagation.passTrail (w : Propagation) : List AuditEvent :=
  visitTrail slotOrder { w with changed := false }

def Propagation.loopTrail : Nat → Propagation → List AuditEvent
  | 0, _ => []
  | fuel + 1, w => w.passTrail ++ if w.pass.changed then loopTrail fuel w.pass else []

def propagationTrail (k : Kernel) (rootId : Nat) : List AuditEvent :=
  Propagation.loopTrail revokedIdsCap ⟨k.sched, k.audit, [rootId], false⟩

def grantTrail (k : Kernel) (callerTask srcCapIdx targetTask : Nat) (rights : RightsMask) :
    List AuditEvent :=
  k.audit.since (k.dispatchCapGrant callerTask srcCapIdx targetTask rights).1.audit

def revokeTrail (k : Kernel) (callerTask targetTask capIdx : Nat) : List AuditEvent :=
  if !k.currentHasGrantCapTo targetTask then []
  else
    match (k.sched.getTask targetTask).bind (fun t => t.capTable.get capIdx) with
    | none => []
    | some cap =>
      let k₁ := (k.emptied targetTask capIdx).record .revoke callerTask targetTask cap.resource
        capIdx
      k.audit.since k₁.audit ++ k₁.propagationTrail cap.id

/-- Events that the kernel recorded while it went from one state of the tables
and the log to another. -/
structure Records (s : Scheduler) (log : AuditLog) (evs : List AuditEvent) (s' : Scheduler)
    (log' : AuditLog) : Prop where
  log : log' = evs.foldl AuditLog.push log
  replays : evs.foldlM (fun occ ev => ev.replay occ) s.occupancy = some s'.occupancy
  indexed : s'.Indexed

variable {s s' s'' : Scheduler} {log log' log'' : AuditLog} {evs evs' : List AuditEvent}

theorem Records.refl (log : AuditLog) (h : s.Indexed) : Records s log [] s log := ⟨rfl, rfl, h⟩

theorem Records.append (h : Records s log evs s' log') (h' : Records s' log' evs' s'' log'') :
    Records s log (evs ++ evs') s'' log'' where
  log := by rw [List.foldl_append, ← h.log, h'.log]
  replays := by
    rw [List.foldlM_append, h.replays]
    exact h'.replays
  indexed := h'.indexed

namespace Propagation

/-- The body of the loops leaves everything, or removes one capability and
records that. -/
theorem visit_effect (w : Propagation) (p : Slot) : w.visit p.1 p.2 = w ∨
    ∃ task c, w.sched.tasks p.1 = some task ∧ task.capTable.slots p.2 = some c ∧
      w.visit p.1 p.2 =
        { sched := w.sched.set p.1 (some { task with capTable := task.capTable.clear p.2 })
          audit := w.audit.push ⟨.revokePropagated, kernelActor, task.id, c.resource, p.2⟩
          revoked := w.revoked ++ [c.id]
          changed := true } := by
  unfold visit
  split
  · exact .inl rfl
  · rename_i task ht
    split
    · exact .inl rfl
    · rename_i c hc
      split
      · exact .inl rfl
      · split
        · exact .inr ⟨task, c, ht, hc, rfl⟩
        · exact .inl rfl

/-- A visit records what it does. -/
theorem visit_records {w : Propagation} (h : w.sched.Indexed) (p : Slot) :
    Records w.sched w.audit (w.audit.since (w.visit p.1 p.2).audit) (w.visit p.1 p.2).sched
      (w.visit p.1 p.2).audit ∧
    ∀ ev ∈ w.audit.since (w.visit p.1 p.2).audit, ev.kind = .revokePropagated := by
  rcases w.visit_effect p with heq | ⟨task, c, ht, hc, heq⟩
  · rw [heq, AuditLog.since_self]
    exact ⟨.refl _ h, fun ev hev => absurd hev List.not_mem_nil⟩
  · rw [heq, AuditLog.since_push]
    refine ⟨⟨rfl, ?_, h.set (h p.1 task ht)⟩, fun ev hev => ?_⟩
    · have hstore : w.sched.store p = some c := Scheduler.store_eq_some.mpr ⟨task, ht, hc⟩
      have hset := Scheduler.store_set_slot
        (u := { task with capTable := task.capTable.clear p.2 }) ht (CapTable.clear_eq _ p.2)
      have hheld : w.sched.occupancy p = some c.resource := by
        rw [Scheduler.occupancy, hstore, Option.map_some]
      rw [List.foldlM_cons, Scheduler.occupancy_update hset]
      rw [AuditEvent.replay_removal (p := p) (by simp) (AuditEvent.place_eq (h p.1 task ht) rfl) hheld]
      rfl
    · rw [List.mem_singleton.mp hev]

theorem visitTrail_records (ps : List Slot) {w : Propagation} (h : w.sched.Indexed) :
    Records w.sched w.audit (visitTrail ps w) (ps.foldl (fun w p => w.visit p.1 p.2) w).sched
      (ps.foldl (fun w p => w.visit p.1 p.2) w).audit ∧
    ∀ ev ∈ visitTrail ps w, ev.kind = .revokePropagated := by
  induction ps generalizing w with
  | nil => exact ⟨.refl _ h, fun ev hev => absurd hev List.not_mem_nil⟩
  | cons p ps ih =>
    obtain ⟨hvisit, hkind⟩ := visit_records h p
    obtain ⟨hrest, hkinds⟩ := ih hvisit.indexed
    refine ⟨hvisit.append hrest, fun ev hev => ?_⟩
    rcases List.mem_append.mp hev with hev | hev
    · exact hkind ev hev
    · exact hkinds ev hev

theorem loopTrail_records (fuel : Nat) {w : Propagation} (h : w.sched.Indexed) :
    Records w.sched w.audit (loopTrail fuel w) (loop fuel w).sched (loop fuel w).audit ∧
    ∀ ev ∈ loopTrail fuel w, ev.kind = .revokePropagated := by
  induction fuel generalizing w with
  | zero => exact ⟨.refl _ h, fun ev hev => absurd hev List.not_mem_nil⟩
  | succ fuel ih =>
    obtain ⟨hpass, hkind⟩ := visitTrail_records slotOrder (w := { w with changed := false }) h
    change Records w.sched w.audit w.passTrail w.pass.sched w.pass.audit at hpass
    change ∀ ev ∈ w.passTrail, ev.kind = .revokePropagated at hkind
    unfold loopTrail loop
    cases w.pass.changed with
    | false =>
      simp only [Bool.false_eq_true, if_false, List.append_nil]
      exact ⟨hpass, hkind⟩
    | true =>
      obtain ⟨hrest, hkinds⟩ := ih hpass.indexed
      simp only [if_true]
      refine ⟨hpass.append hrest, fun ev hev => ?_⟩
      rcases List.mem_append.mp hev with hev | hev
      · exact hkind ev hev
      · exact hkinds ev hev

end Propagation

/-- The number of passes is left open: the propagation is not to be run here. -/
theorem install_records {k : Kernel} (h : k.sched.Indexed) (rootId fuel : Nat) :
    Records k.sched k.audit (Propagation.loopTrail fuel ⟨k.sched, k.audit, [rootId], false⟩)
      ((Propagation.loop fuel ⟨k.sched, k.audit, [rootId], false⟩).install k).sched
      ((Propagation.loop fuel ⟨k.sched, k.audit, [rootId], false⟩).install k).audit ∧
    ∀ ev ∈ Propagation.loopTrail fuel ⟨k.sched, k.audit, [rootId], false⟩,
      ev.kind = .revokePropagated :=
  Propagation.loopTrail_records fuel (w := ⟨k.sched, k.audit, [rootId], false⟩) h

theorem propagationTrail_records {k : Kernel} (h : k.sched.Indexed) (rootId : Nat) :
    Records k.sched k.audit (k.propagationTrail rootId) (k.propagateRevocation rootId).sched
      (k.propagateRevocation rootId).audit ∧
    ∀ ev ∈ k.propagationTrail rootId, ev.kind = .revokePropagated := by
  rw [propagateRevocation, propagationTrail]
  exact install_records h rootId revokedIdsCap

theorem zero_ne_genericError : (0 : UInt64) ≠ genericError := by decide

/-- The two outcomes of `dispatch_cap_grant`. -/
theorem dispatchCapGrant_cases (k : Kernel) (caller src target : Nat) (rights : RightsMask) :
    (∃ counter, k.dispatchCapGrant caller src target rights =
      ({ k with nextCapId := counter }, genericError)) ∨
    ∃ (p : Slot) (c : Capability) (k₁ : Kernel), p.1.val = target ∧ k.sched.store p = none ∧
      k₁.sched.store = Function.update k.sched.store p (some c) ∧
      (k.sched.Indexed → k₁.sched.Indexed) ∧ k₁.audit = k.audit ∧
      k.dispatchCapGrant caller src target rights =
        (k₁.record .grant caller target c.resource p.2, 0) := by
  unfold dispatchCapGrant
  split
  · exact .inl ⟨k.nextCapId, rfl⟩
  · rename_i derived _
    split
    · exact .inl ⟨k.nextCapId, rfl⟩
    · rename_i t ht
      split
      · rename_i slot table counter hins
        obtain ⟨_, hi, hfree, hstore⟩ := store_insert ht hins
        refine .inr ⟨(⟨target, hi⟩, slot), { derived with id := k.nextCapId },
          { k with
            sched := k.sched.modify target (fun t => { t with capTable := table })
            nextCapId := counter }, rfl, hfree, hstore, fun hs => ?_, rfl, rfl⟩
        obtain ⟨hid, _⟩ := Scheduler.getTask_some ht
        change (k.sched.modify target _).Indexed
        rw [Scheduler.modify_some ht hi]
        exact hs.set hid
      · exact .inl ⟨_, rfl⟩

theorem grantTrail_records {k : Kernel} (h : k.sched.Indexed) (caller src target : Nat)
    (rights : RightsMask) :
    Records k.sched k.audit (k.grantTrail caller src target rights)
      (k.dispatchCapGrant caller src target rights).1.sched
      (k.dispatchCapGrant caller src target rights).1.audit ∧
    ((k.dispatchCapGrant caller src target rights).2 = genericError →
      k.grantTrail caller src target rights = []) := by
  unfold grantTrail
  rcases k.dispatchCapGrant_cases caller src target rights with
    ⟨counter, heq⟩ | ⟨p, c, k₁, htarget, hfree, hstore, hindexed, haudit, heq⟩
  · rw [heq]
    simp only [AuditLog.since_self]
    exact ⟨.refl _ h, fun _ => trivial⟩
  · rw [heq]
    simp only [record, haudit, AuditLog.since_push]
    refine ⟨⟨rfl, ?_, hindexed h⟩, fun herr => absurd herr zero_ne_genericError⟩
    have hempty : k.sched.occupancy p = none := by
      rw [Scheduler.occupancy, hfree, Option.map_none]
    rw [List.foldlM_cons, Scheduler.occupancy_update hstore]
    rw [AuditEvent.replay_grant rfl (AuditEvent.place_eq htarget.symm rfl) hempty]
    rfl

theorem indexed_emptied {k : Kernel} (h : k.sched.Indexed) (target capIdx : Nat) :
    (k.emptied target capIdx).sched.Indexed := by
  change (k.sched.modify target _).Indexed
  cases ht : k.sched.getTask target with
  | none =>
    rw [Scheduler.modify_none ht]
    exact h
  | some t =>
    obtain ⟨hid, hlt, _⟩ := Scheduler.getTask_some ht
    rw [Scheduler.modify_some ht hlt]
    exact h.set hid

/-- What a revocation that found its capability has recorded. -/
theorem Revokes.trail {k : Kernel} {target capIdx : Nat} {p : Slot} {c : Capability}
    (h : k.Revokes target capIdx p c) (caller : Nat) :
    k.revokeTrail caller target capIdx = ⟨.revoke, caller, target, c.resource, capIdx⟩ ::
      ((k.emptied target capIdx).record .revoke caller target c.resource
        capIdx).propagationTrail c.id := by
  obtain ⟨t, ht⟩ := Option.isSome_iff_exists.mp h.found
  obtain ⟨i, j⟩ := p
  obtain rfl : i.val = target := h.task
  obtain rfl : j.val = capIdx := h.slot
  obtain ⟨u, hu, hc⟩ := Scheduler.store_eq_some.mp h.holds
  obtain ⟨_, _, htask⟩ := Scheduler.getTask_some ht
  cases htask.symm.trans hu
  have hget : t.capTable.get j = some c := (CapTable.get_val ..).trans hc
  have hsince : k.audit.since ((k.emptied i j).record .revoke caller i c.resource j).audit =
      [⟨.revoke, caller, i, c.resource, j⟩] := AuditLog.since_push ..
  unfold revokeTrail
  simp only [h.allowed, ht, Option.bind_some, hget, hsince, Bool.not_true, Bool.false_eq_true,
    if_false, List.singleton_append]

theorem revokeTrail_nil {k : Kernel} {target capIdx : Nat}
    (h : ∀ p c, ¬ k.Revokes target capIdx p c) (caller : Nat) :
    k.revokeTrail caller target capIdx = [] := by
  unfold revokeTrail
  cases hgrant : k.currentHasGrantCapTo target with
  | false => rfl
  | true =>
    cases ht : k.sched.getTask target with
    | none => rfl
    | some t =>
      cases hget : t.capTable.get capIdx with
      | none => simp [hget]
      | some c =>
        obtain ⟨_, hi, htask⟩ := Scheduler.getTask_some ht
        obtain ⟨hj, hc⟩ := CapTable.get_eq_some.mp hget
        exact absurd ⟨hgrant, by rw [ht]; rfl, rfl, rfl, Scheduler.store_eq_some.mpr ⟨t, htask, hc⟩⟩
          (h (⟨target, hi⟩, ⟨capIdx, hj⟩) c)

/-- A revocation records one event of its own and one for each capability that
was derived from the revoked one. -/
structure Cascades (k : Kernel) (caller target capIdx : Nat) (evs : List AuditEvent) (p : Slot)
    (c : Capability) (props : List AuditEvent) : Prop where
  revokes : k.Revokes target capIdx p c
  events : evs = ⟨.revoke, caller, target, c.resource, capIdx⟩ :: props
  kinds : ∀ ev ∈ props, ev.kind = .revokePropagated
  nodup : (props.map AuditEvent.place).Nodup
  removed : ∀ q, some q ∈ props.map AuditEvent.place ↔
    ∃ d, Function.update k.sched.store p none q = some d ∧
      capLineage.Descends (Function.update k.sched.store p none) c.id d

theorem revokeTrail_records {k : Kernel} (h : k.sched.Indexed) (caller target capIdx : Nat) :
    Records k.sched k.audit (k.revokeTrail caller target capIdx)
      (k.dispatchCapRevoke caller target capIdx).1.sched
      (k.dispatchCapRevoke caller target capIdx).1.audit ∧
    ((k.dispatchCapRevoke caller target capIdx).2 = genericError →
      k.revokeTrail caller target capIdx = []) ∧
    ((k.dispatchCapRevoke caller target capIdx).2 ≠ genericError →
      ∃ p c props, k.Cascades caller target capIdx (k.revokeTrail caller target capIdx) p c props) := by
  rcases k.dispatchCapRevoke_cases caller target capIdx with ⟨heq, hnone⟩ | ⟨p, c, hrev, heq⟩
  · rw [heq, revokeTrail_nil hnone]
    exact ⟨.refl _ h, fun _ => rfl, fun hne => absurd rfl hne⟩
  · rw [heq, hrev.trail caller]
    generalize hk : (k.emptied target capIdx).record .revoke caller target c.resource capIdx = k₁
    have hsched : k₁.sched = (k.emptied target capIdx).sched := by rw [← hk]; rfl
    have haudit : k₁.audit = k.audit.push ⟨.revoke, caller, target, c.resource, capIdx⟩ := by
      rw [← hk]; rfl
    have hstore : k₁.sched.store = Function.update k.sched.store p none := by
      rw [hsched, hrev.emptied_store]
    have hindexed : k₁.sched.Indexed := by
      rw [hsched]
      exact indexed_emptied h target capIdx
    have hheld : k.sched.occupancy p = some c.resource := by
      rw [Scheduler.occupancy, hrev.holds, Option.map_some]
    have hroot : Records k.sched k.audit [⟨.revoke, caller, target, c.resource, capIdx⟩]
        k₁.sched k₁.audit := by
      refine ⟨haudit, ?_, hindexed⟩
      rw [List.foldlM_cons, Scheduler.occupancy_update hstore]
      rw [AuditEvent.replay_removal (by simp)
        (AuditEvent.place_eq hrev.task.symm hrev.slot.symm) hheld]
      rfl
    obtain ⟨hprop, hkinds⟩ := propagationTrail_records hindexed c.id
    obtain ⟨rs, hpruned, hclosed⟩ := propagateRevocation_pruned k₁ c.id
    generalize k₁.propagateRevocation c.id = k₂ at hprop hpruned hclosed ⊢
    refine ⟨hroot.append hprop, fun herr => absurd herr zero_ne_genericError, fun _ => ?_⟩
    obtain ⟨hnodup, hplaces⟩ := AuditEvent.removals_place
      (fun ev hev => by rw [hkinds ev hev]; decide) hprop.replays
    refine ⟨p, c, _, hrev, rfl, hkinds, hnodup, fun q => ?_⟩
    rw [hplaces q, ← hstore]
    simp only [Scheduler.occupancy, ne_eq, Option.map_eq_none_iff]
    constructor
    · rintro ⟨hsome, hgone⟩
      obtain ⟨d, hd⟩ := Option.ne_none_iff_exists'.mp hsome
      exact ⟨d, hd, (hpruned.exact hclosed q hd).mp hgone⟩
    · rintro ⟨d, hd, hdesc⟩
      exact ⟨by rw [hd]; simp, (hpruned.exact hclosed q hd).mpr hdesc⟩

def enteredBy (k : Kernel) (caller : Option TaskId) : Kernel :=
  { k with sched := { k.sched with currentTaskId := caller } }

def callTrail (k : Kernel) (req : CapRequest) : List AuditEvent :=
  let taskId := k.sched.currentTaskId.getD (2 ^ 64 - 1)
  match req with
  | .capGrant srcCapIdx targetTask rights => k.grantTrail taskId srcCapIdx targetTask rights
  | .capRevoke targetTask capIdx => k.revokeTrail taskId targetTask capIdx
  | .spawnTask _ => []

/-- A grant or a revocation records what it does to the tables, and nothing when
it fails. -/
theorem callTrail_records {k k' : Kernel} (h : k.sched.Indexed) {req : CapRequest} {result : UInt64}
    (haudited : ∀ blobType, req ≠ .spawnTask blobType)
    (hcall : k.syscallDispatch req = some (k', result)) :
    Records k.sched k.audit (k.callTrail req) k'.sched k'.audit ∧
    (result = genericError → k.callTrail req = []) ∧
    ∀ target capIdx, req = .capRevoke target capIdx → result ≠ genericError →
      ∃ p c props, k.Cascades (k.sched.currentTaskId.getD (2 ^ 64 - 1)) target capIdx
        (k.callTrail req) p c props := by
  cases req with
  | capGrant src target rights =>
    have hpair := Option.some.inj hcall
    obtain ⟨hrec, hnil⟩ :=
      grantTrail_records h (k.sched.currentTaskId.getD (2 ^ 64 - 1)) src target rights
    rw [hpair] at hrec hnil
    exact ⟨hrec, hnil, fun _ _ hreq => by cases hreq⟩
  | capRevoke target capIdx =>
    have hpair := Option.some.inj hcall
    obtain ⟨hrec, hnil, hcasc⟩ :=
      revokeTrail_records h (k.sched.currentTaskId.getD (2 ^ 64 - 1)) target capIdx
    rw [hpair] at hrec hnil hcasc
    refine ⟨hrec, hnil, fun t i hreq hne => ?_⟩
    cases hreq
    exact hcasc hne
  | spawnTask blobType => exact absurd rfl (haudited blobType)

end Kernel

structure AuditedCall where
  action : CapAction
  result : UInt64
  events : List AuditEvent

structure AuditedStep (k : Kernel) (c : AuditedCall) (k' : Kernel) : Prop where
  audited : ∀ blobType, c.action.request ≠ .spawnTask blobType
  call : (k.enteredBy c.action.caller).syscallDispatch c.action.request = some (k', c.result)
  events : c.events = (k.enteredBy c.action.caller).callTrail c.action.request

def AuditedCall.actor (c : AuditedCall) : Nat := c.action.caller.getD (2 ^ 64 - 1)

theorem AuditedStep.records {k k' : Kernel} {c : AuditedCall} (hstep : AuditedStep k c k')
    (h : k.sched.Indexed) :
    Kernel.Records k.sched k.audit c.events k'.sched k'.audit ∧
    (c.result = genericError → c.events = []) ∧
    ∀ target capIdx, c.action.request = .capRevoke target capIdx → c.result ≠ genericError →
      ∃ p r props, (k.enteredBy c.action.caller).Cascades c.actor target capIdx c.events p r
        props := by
  rw [hstep.events]
  obtain ⟨hrec, hrest⟩ :=
    Kernel.callTrail_records (k := k.enteredBy c.action.caller) h hstep.audited hstep.call
  exact ⟨⟨hrec.log, hrec.replays, hrec.indexed⟩, hrest⟩

/-- A grant or a revocation always returns. -/
theorem AuditedStep.total (k : Kernel) (a : CapAction)
    (h : ∀ blobType, a.request ≠ .spawnTask blobType) :
    ∃ c k', c.action = a ∧ AuditedStep k c k' := by
  obtain ⟨⟨k', result⟩, hcall⟩ :
      ∃ r, (k.enteredBy a.caller).syscallDispatch a.request = some r := by
    cases hreq : a.request with
    | capGrant src target rights => exact ⟨_, rfl⟩
    | capRevoke target capIdx => exact ⟨_, rfl⟩
    | spawnTask blobType => exact absurd hreq (h blobType)
  exact ⟨⟨a, result, (k.enteredBy a.caller).callTrail a.request⟩, k', rfl, h, hcall, rfl⟩

theorem run_records {k₀ k : Kernel} {cs : List AuditedCall} (h : k₀.sched.Indexed)
    (hr : Lib.Run AuditedStep k₀ cs k) :
    Kernel.Records k₀.sched k₀.audit (cs.flatMap AuditedCall.events) k.sched k.audit := by
  induction hr with
  | nil => exact .refl _ h
  | cons head _ ih =>
    obtain ⟨hrec, _⟩ := head.records h
    rw [List.flatMap_cons]
    exact hrec.append (ih hrec.indexed)

/-- The audit trail replays to the capability tables. -/
theorem audit_trail_replays {k₀ k : Kernel} {cs : List AuditedCall} (h : k₀.sched.Indexed)
    (hr : Lib.Run AuditedStep k₀ cs k) :
    (cs.flatMap AuditedCall.events).foldlM (fun occ ev => ev.replay occ) k₀.sched.occupancy =
      some k.sched.occupancy ∧
    k.audit = (cs.flatMap AuditedCall.events).foldl AuditLog.push k₀.audit ∧
    ∀ c k', AuditedStep k c k' →
      (c.result = genericError → c.events = []) ∧
      ∀ target capIdx, c.action.request = .capRevoke target capIdx → c.result ≠ genericError →
        ∃ p r props, (k.enteredBy c.action.caller).Cascades c.actor target capIdx c.events p r
          props := by
  have hrec := run_records h hr
  refine ⟨hrec.replays, hrec.log, fun c k' hstep => ?_⟩
  exact (hstep.records hrec.indexed).2

/-- The first task delegates its channel to the second and takes it back. -/
theorem audit_trail_replays_delegation : ∃ k cs,
    Lib.Run AuditedStep twoTasks cs k ∧
    cs.map AuditedCall.action =
      [⟨some 1, .capGrant 0 2 ⟨true, false, false⟩⟩, ⟨some 1, .capRevoke 2 0⟩] ∧
    (cs.flatMap AuditedCall.events).foldlM (fun occ ev => ev.replay occ)
      twoTasks.sched.occupancy = some k.sched.occupancy := by
  obtain ⟨c₁, k₁, ha₁, h₁⟩ :=
    AuditedStep.total twoTasks ⟨some 1, .capGrant 0 2 ⟨true, false, false⟩⟩ nofun
  obtain ⟨c₂, k₂, ha₂, h₂⟩ := AuditedStep.total k₁ ⟨some 1, .capRevoke 2 0⟩ nofun
  have hr := Lib.Run.cons h₁ (.cons h₂ (.nil _))
  refine ⟨k₂, _, hr, by simp [ha₁, ha₂], ?_⟩
  exact (audit_trail_replays (Scheduler.indexed_ofList _) hr).1

end Runix
