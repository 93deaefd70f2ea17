import Runix.Dispatch
import Runix.Proofs.Trail

namespace Runix

namespace Scheduler

/-- A change that leaves the task's table alone leaves the store alone. -/
theorem store_modify (s : Scheduler) (id : TaskId) {f : Task → Task}
    (hf : ∀ t, (f t).capTable = t.capTable) : (s.modify id f).store = s.store := by
  cases ht : s.getTask id with
  | none => rw [modify_none ht]
  | some t =>
    obtain ⟨_, hlt, htask⟩ := getTask_some ht
    rw [modify_some ht hlt]
    funext p
    rw [store_set]
    split
    · rename_i hp
      rw [store, hp, htask, Option.bind_some, Option.bind_some, hf]
    · rfl

theorem sendRegion_store (s : Scheduler) (current : TaskId) (a : SendArgs) :
    (s.sendRegion current a).1.store = s.store := by
  unfold sendRegion
  split
  · exact store_modify _ _ (fun _ => rfl)
  · split
    · rfl
    · rfl
    · exact store_modify _ _ (fun _ => rfl)
    · exact store_modify _ _ (fun _ => rfl)

theorem sendAsyncRegion_store (s : Scheduler) (current : TaskId) (a : SendArgs) :
    (s.sendAsyncRegion current a).1.store = s.store := by
  unfold sendAsyncRegion
  split
  · rfl
  · split
    · rfl
    · split
      · rfl
      · split
        · exact store_modify _ _ (fun _ => rfl)
        · rfl

theorem sysSendTyped_store (s : Scheduler) (call capIdx : Nat) (tag version : UInt16)
    (payload : List UInt8) : (s.sysSendTyped call capIdx tag version payload).1.store = s.store := by
  unfold sysSendTyped
  split
  · rfl
  · rename_i a _
    split
    · rfl
    · rename_i current _
      have hregion := s.sendRegion_store current a
      unfold sendRound
      split
      all_goals
        rename_i heq
        rw [heq] at hregion
      · exact hregion
      · exact hregion
      · change (modify _ _ _).store = _
        rw [store_modify]
        · exact hregion
        · intro t
          rfl
      · exact hregion

theorem sysSendAsync_store (s : Scheduler) (call capIdx : Nat) (tag version : UInt16)
    (payload : List UInt8) : (s.sysSendAsync call capIdx tag version payload).1.store = s.store := by
  unfold sysSendAsync
  split
  · rfl
  · rename_i a _
    split
    · rfl
    · rename_i current _
      exact s.sendAsyncRegion_store current a

theorem rendezvous_store (s : Scheduler) (current : TaskId) :
    (s.rendezvous current).1.store = s.store := by
  unfold rendezvous
  split
  · rfl
  · split
    · rfl
    · change ((s.modify _ _).modify _ _).store = _
      rw [store_modify, store_modify]
      · intro t
        rfl
      · intro t
        rfl

theorem receiveAttempt_store (s : Scheduler) (current : TaskId) :
    (s.receiveAttempt current).1.store = s.store := by
  unfold receiveAttempt
  split
  · split
    · exact store_modify _ _ (fun _ => rfl)
    · split
      · exact store_modify _ _ (fun _ => rfl)
      · exact s.rendezvous_store current
  · exact s.rendezvous_store current

end Scheduler

namespace Kernel

theorem syscallUse_store (k : Kernel) (call capIdx : Nat) (req : UseRequest) :
    (k.syscallUse call capIdx req).1.sched.store = k.sched.store := by
  cases req with
  | send payload => exact k.sched.sysSendTyped_store call capIdx 0 0 payload
  | serialWrite bytes =>
    simp only [syscallUse]
    split
    · split <;> rfl
    · rfl
  | sendTyped tag version payload => exact k.sched.sysSendTyped_store call capIdx tag version payload
  | sendAsync tag version payload => exact k.sched.sysSendAsync_store call capIdx tag version payload

/-- A grant puts a capability into a free slot and changes no other. -/
theorem dispatchCapGrant_keeps (k : Kernel) (caller src target : Nat) (rights : RightsMask)
    {p : Slot} {c : Capability} (h : k.sched.store p = some c) :
    (k.dispatchCapGrant caller src target rights).1.sched.store p = some c := by
  rcases k.dispatchCapGrant_cases caller src target rights with
    ⟨counter, heq⟩ | ⟨q, d, k₁, _, hfree, hstore, _, _, heq⟩
  · rw [heq]
    exact h
  · rw [heq]
    change k₁.sched.store p = some c
    have hne : p ≠ q := by
      rintro rfl
      cases hfree.symm.trans h
    rw [hstore, Function.update_of_ne hne, h]

end Kernel

/-- What a task can do with its own authority, and with its own table. Between
its calls it may wait. -/
inductive HolderAction where
  | grant (srcCapIdx targetTask : Nat) (rights : RightsMask)
  | revoke (targetTask capIdx : Nat)
  | use (call capIdx : Nat) (req : UseRequest)
  | receive
  | remove (idx : Nat)
  | wait

/-- A step of the task in slot `i`. While it waits, nothing happens to any
capability table, and then it runs again. -/
inductive HolderStep (i : Fin maxTasks) : Kernel → HolderAction → Kernel → Prop where
  | grant {k k' : Kernel} {src target : Nat} {rights : RightsMask} {result : UInt64}
      (hcur : k.sched.currentTaskId = some i.val)
      (h : k.syscallDispatch (.capGrant src target rights) = some (k', result)) :
      HolderStep i k (.grant src target rights) k'
  | revoke {k k' : Kernel} {target capIdx : Nat} {result : UInt64}
      (hcur : k.sched.currentTaskId = some i.val)
      (h : k.syscallDispatch (.capRevoke target capIdx) = some (k', result)) :
      HolderStep i k (.revoke target capIdx) k'
  | use {k : Kernel} (hcur : k.sched.currentTaskId = some i.val) (call capIdx : Nat)
      (req : UseRequest) : HolderStep i k (.use call capIdx req) (k.syscallUse call capIdx req).1
  | receive {k : Kernel} (hcur : k.sched.currentTaskId = some i.val) :
      HolderStep i k .receive (k.withSched (k.sched.receiveAttempt i).1)
  | remove {k : Kernel} (hcur : k.sched.currentTaskId = some i.val) (idx : Nat) :
      HolderStep i k (.remove idx) (k.withSched (k.sched.modify i (fun t =>
        { t with capTable := (t.capTable.remove idx).2 })))
  | wait {k : Kernel} {sched : Scheduler} (hstore : sched.store = k.sched.store)
      (hcur : sched.currentTaskId = some i.val) : HolderStep i k .wait (k.withSched sched)

def KeepsSealed (i : Fin maxTasks) (k k' : Kernel) : Prop :=
  ∀ j c, k.sched.store (i, j) = some c → c.isSealed = true → k'.sched.store (i, j) = some c

/-- The call does not revoke a sealed capability of the task, nor one from which
a sealed capability of the task was derived. -/
def Spares (i : Fin maxTasks) (k : Kernel) : HolderAction → Prop
  | .revoke target capIdx => ∀ p c, k.Revokes target capIdx p c →
      ∀ j d, k.sched.store (i, j) = some d → d.isSealed = true →
        (i, j) ≠ p ∧ ¬ capLineage.Descends (Function.update k.sched.store p none) c.id d
  | _ => True

variable {i : Fin maxTasks} {k k' k'' : Kernel} {a : HolderAction}

theorem KeepsSealed.refl (i : Fin maxTasks) (k : Kernel) : KeepsSealed i k k := by
  intro j c hc _
  exact hc

theorem KeepsSealed.trans (h : KeepsSealed i k k') (h' : KeepsSealed i k' k'') :
    KeepsSealed i k k'' := by
  intro j c hc hsealed
  exact h' j c (h j c hc hsealed) hsealed

theorem keepsSealed_of_store (i : Fin maxTasks) (h : k'.sched.store = k.sched.store) :
    KeepsSealed i k k' := by
  intro j c hc _
  rw [h, hc]

/-- The holder's own removal is refused for a sealed slot. -/
theorem CapTable.remove_keeps {t : CapTable} {j : Fin maxCaps} {c : Capability}
    (h : t.slots j = some c) (hsealed : c.isSealed = true) (idx : Nat) :
    (t.remove idx).2.slots j = some c := by
  unfold remove
  split
  · rename_i d hd
    split
    · exact h
    · rename_i hopen
      obtain ⟨hidx, hslot⟩ := CapTable.get_eq_some.mp hd
      have hne : j ≠ ⟨idx, hidx⟩ := by
        rintro rfl
        cases hslot.symm.trans h
        exact hopen hsealed
      have hclear := t.clear_eq ⟨idx, hidx⟩
      simp only at hclear
      rw [hclear, Function.update_of_ne hne, h]
  · exact h

theorem remove_keepsSealed (i : Fin maxTasks) (k : Kernel) (idx : Nat) :
    KeepsSealed i k (k.withSched (k.sched.modify i (fun t =>
      { t with capTable := (t.capTable.remove idx).2 }))) := by
  intro j c hc hsealed
  change (k.sched.modify i _).store (i, j) = some c
  cases ht : k.sched.getTask i with
  | none =>
    rw [Scheduler.modify_none ht]
    exact hc
  | some t =>
    obtain ⟨_, hlt, htask⟩ := Scheduler.getTask_some ht
    obtain ⟨u, hu, hslot⟩ := Scheduler.store_eq_some.mp hc
    cases htask.symm.trans hu
    rw [Scheduler.modify_some ht hlt]
    apply Scheduler.store_eq_some.mpr
    exact ⟨_, Scheduler.set_tasks_self .., CapTable.remove_keeps hslot hsealed idx⟩

/-- A revocation keeps the sealed slots exactly if it spares them. -/
theorem revoke_keepsSealed_iff (i : Fin maxTasks) (k : Kernel) (caller target capIdx : Nat) :
    KeepsSealed i k (k.dispatchCapRevoke caller target capIdx).1 ↔
      Spares i k (.revoke target capIdx) := by
  rcases k.dispatchCapRevoke_cases caller target capIdx with ⟨heq, hnone⟩ | ⟨p, c, hrev, heq⟩
  · rw [heq]
    exact iff_of_true (.refl i k) (fun p c h => absurd h (hnone p c))
  · rw [heq]
    obtain ⟨rs, hpruned, hclosed⟩ := Kernel.propagateRevocation_pruned
      ((k.emptied target capIdx).record .revoke caller target c.resource capIdx) c.id
    change capLineage.Pruned (k.emptied target capIdx).sched.store _ _ at hpruned
    rw [hrev.emptied_store] at hpruned
    simp only [KeepsSealed]
    generalize Kernel.propagateRevocation _ c.id = k' at hpruned hclosed ⊢
    constructor
    · intro hkeeps q d hrev' j e he hsealed
      have hkept := hkeeps j e he hsealed
      obtain rfl : p = q := Prod.ext (Fin.ext (hrev.task.trans hrev'.task.symm))
        (Fin.ext (hrev.slot.trans hrev'.slot.symm))
      cases hrev.holds.symm.trans hrev'.holds
      obtain ⟨hne, _⟩ := hpruned.kept_cleared hkept
      refine ⟨hne, fun hdesc => ?_⟩
      have hcleared : Function.update k.sched.store p none (i, j) = some e := by
        rw [Function.update_of_ne hne, he]
      have hgone := (hpruned.exact hclosed (i, j) hcleared).mpr hdesc
      cases hgone.symm.trans hkept
    · intro hspares j e he hsealed
      obtain ⟨hne, hdesc⟩ := hspares p c hrev j e he hsealed
      have hcleared : Function.update k.sched.store p none (i, j) = some e := by
        rw [Function.update_of_ne hne, he]
      rcases hpruned.only (i, j) with hsame | hgone
      · exact hsame.trans hcleared
      · exact absurd ((hpruned.exact hclosed (i, j) hcleared).mp hgone) hdesc

/-- One step keeps the sealed slots exactly if it spares them. -/
theorem HolderStep.keepsSealed_iff (h : HolderStep i k a k') :
    KeepsSealed i k k' ↔ Spares i k a := by
  cases h with
  | @grant _ src target rights _ _ h =>
    have hpair := Option.some.inj h
    refine iff_of_true (fun j c hc _ => ?_) trivial
    have hkeeps := k.dispatchCapGrant_keeps (k.sched.currentTaskId.getD (2 ^ 64 - 1)) src target
      rights hc
    rw [hpair] at hkeeps
    exact hkeeps
  | @revoke _ target capIdx _ _ h =>
    have hpair := Option.some.inj h
    have hiff := revoke_keepsSealed_iff i k (k.sched.currentTaskId.getD (2 ^ 64 - 1)) target capIdx
    rw [hpair] at hiff
    exact hiff
  | use _ call capIdx req =>
    exact iff_of_true (keepsSealed_of_store i (k.syscallUse_store call capIdx req)) trivial
  | receive => exact iff_of_true (keepsSealed_of_store i (k.sched.receiveAttempt_store i)) trivial
  | remove _ idx => exact iff_of_true (remove_keepsSealed i k idx) trivial
  | wait hstore => exact iff_of_true (keepsSealed_of_store i hstore) trivial

/-- Sealing binds the holder. -/
theorem sealing_binds_holder (i : Fin maxTasks) :
    (∀ k a k', HolderStep i k a k' → (KeepsSealed i k k' ↔ Spares i k a)) ∧
    ∀ k as k', Lib.Run (Lib.Guarded (Spares i) (HolderStep i)) k as k' → KeepsSealed i k k' := by
  refine ⟨fun k a k' h => h.keepsSealed_iff, fun k as k' hr => ?_⟩
  induction hr with
  | nil k => exact .refl i k
  | cons head _ ih => exact (head.2.keepsSealed_iff.mpr head.1).trans ih

def sealedHolder (channel : TaskId) : Kernel :=
  .ofTasks [Task.new 0 0 1 (CapTable.ofList [⟨.ipcChannel channel, true, true, true, false, 1, none⟩,
    ⟨.serial, true, true, false, true, 2, none⟩]), Task.new 0 0 2 CapTable.new] 3 (some 1)

/-- The holder delegates its channel and tries to drop the sealed capability. -/
theorem sealing_binds_holder_delegation : ∃ k',
    Lib.Run (Lib.Guarded (Spares ⟨1, by decide⟩) (HolderStep ⟨1, by decide⟩)) (sealedHolder 2)
      [.grant 0 2 ⟨true, true, false⟩, .remove 1] k' ∧
    k'.sched.store (⟨1, by decide⟩, ⟨1, by decide⟩) =
      some ⟨.serial, true, true, false, true, 2, none⟩ := by
  obtain ⟨k', hr⟩ : ∃ k', Lib.Run
      (Lib.Guarded (Spares ⟨1, by decide⟩) (HolderStep ⟨1, by decide⟩)) (sealedHolder 2)
      [.grant 0 2 ⟨true, true, false⟩, .remove 1] k' :=
    ⟨_, .cons ⟨trivial, .grant rfl rfl⟩ (.cons ⟨trivial, .remove rfl 1⟩ (.nil _))⟩
  exact ⟨k', hr, (sealing_binds_holder ⟨1, by decide⟩).2 _ _ _ hr _ _ rfl rfl⟩

/-- A revocation empties the slot it names. -/
theorem Kernel.Revokes.gone {target capIdx : Nat} {p : Slot} {c : Capability}
    (h : k.Revokes target capIdx p c) (caller : Nat) :
    (k.dispatchCapRevoke caller target capIdx).1.sched.store p = none := by
  rcases k.dispatchCapRevoke_cases caller target capIdx with ⟨_, hnone⟩ | ⟨q, d, hrev, heq⟩
  · exact absurd h (hnone p c)
  · obtain rfl : p = q := Prod.ext (Fin.ext (h.task.trans hrev.task.symm))
      (Fin.ext (h.slot.trans hrev.slot.symm))
    rw [heq]
    obtain ⟨rs, hpruned, _⟩ := propagateRevocation_pruned
      ((k.emptied target capIdx).record .revoke caller target d.resource capIdx) d.id
    change capLineage.Pruned (k.emptied target capIdx).sched.store _ _ at hpruned
    rw [hrev.emptied_store] at hpruned
    generalize propagateRevocation _ d.id = k' at hpruned ⊢
    cases hp : k'.sched.store p with
    | none => rfl
    | some e => exact absurd rfl (hpruned.kept_cleared hp).1

/-- The channel of this holder leads to itself, so it may revoke in its own table,
sealed slots included. -/
theorem sealed_self_revoked : ∃ k',
    HolderStep ⟨1, by decide⟩ (sealedHolder 1) (.revoke 1 1) k' ∧
    (sealedHolder 1).sched.store (⟨1, by decide⟩, ⟨1, by decide⟩) =
      some ⟨.serial, true, true, false, true, 2, none⟩ ∧
    k'.sched.store (⟨1, by decide⟩, ⟨1, by decide⟩) = none := by
  have hrev : (sealedHolder 1).Revokes 1 1 (⟨1, by decide⟩, ⟨1, by decide⟩)
      ⟨.serial, true, true, false, true, 2, none⟩ := ⟨rfl, rfl, rfl, rfl, rfl⟩
  exact ⟨((sealedHolder 1).dispatchCapRevoke 1 1 1).1, .revoke rfl rfl, rfl, hrev.gone 1⟩

end Runix
