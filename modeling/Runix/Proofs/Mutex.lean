import Runix.Proofs.Sync

namespace Runix

def SyncStore.MutexBounded (store : SyncStore) : Prop :=
  ∀ i, (store.objects i).used = true → (store.objects i).isMutex = true →
    (store.objects i).count ≤ 1

/-- A message that creates a mutex asks for at most one permit. The service itself
does not check it. -/
def MutexCounts (store : SyncStore) (e : SyncExchange) : Prop :=
  ∀ i, e.msg.Asks 0 i → (store.objects i).used = false → e.msg.byte 2 ≠ 0 →
    (e.msg.byte 3).toNat ≤ 1

def Exclusive (i : Fin syncMaxObj) (as : List SyncExchange) : Prop :=
  ∀ before a between b after, as = before ++ a :: (between ++ b :: after) →
    a.Admits i → b.Admits i → ∃ r ∈ between, r.Releases i

theorem SyncStore.new_mutexBounded : SyncStore.new.MutexBounded := by
  intro i hused
  cases hused

theorem SyncStore.MutexBounded.set {store : SyncStore} (h : store.MutexBounded)
    {i : Fin syncMaxObj} {obj : SyncObject}
    (hobj : obj.used = true → obj.isMutex = true → obj.count ≤ 1) :
    (store.set i obj).MutexBounded := by
  intro j
  rw [set_objects]
  split
  · exact hobj
  · exact h j

namespace SyncEffect
variable {s : Scheduler} {store : SyncStore} {msg : Message} {a : SyncAnswer}

/-- After any other request a bounded store is bounded. -/
theorem mutexBounded (h : SyncEffect s store msg a) (hb : store.MutexBounded)
    (hcounts : ∀ i, msg.Asks 0 i → (store.objects i).used = false → msg.byte 2 ≠ 0 →
      (msg.byte 3).toNat ≤ 1) : a.store.MutexBounded := by
  cases h with
  | refused => exact hb
  | full => exact hb
  | @created i asks unused =>
    refine hb.set (fun _ hmutex => ?_)
    have hle := hcounts i asks unused (by simpa using hmutex)
    change ((msg.byte 3).toNat : Int) ≤ 1
    omega
  | @admitted i _ _ used _ =>
    refine hb.set (fun _ hmutex => ?_)
    have hle := hb i used hmutex
    change (store.objects i).count - 1 ≤ 1
    omega
  | @queued i _ _ _ used => exact hb.set (fun _ hmutex => hb i used hmutex)
  | @handed i _ _ _ _ used => exact hb.set (fun _ hmutex => hb i used hmutex)
  | @returned i _ count _ _ _ _ counted =>
    refine hb.set (fun _ hmutex => ?_)
    rw [SyncObject.restored, if_pos hmutex] at counted
    cases counted
    exact Int.le_refl 1

/-- An object is created with what the message says. -/
theorem creates (h : SyncEffect s store msg a) {i : Fin syncMaxObj} (hasks : msg.Asks 0 i)
    (hunused : (store.objects i).used = false) :
    a.store.objects i = ⟨true, msg.byte 2 != 0, (msg.byte 3).toNat,
      (store.objects i).wait.reset⟩ := by
  cases h with
  | refused _ _ hused =>
    have hyes := hused i hasks
    rw [hunused] at hyes
    cases hyes
  | created asks =>
    obtain ⟨_, rfl⟩ := asks.unique hasks
    rw [SyncStore.set_objects, if_pos rfl]
  | full asks | admitted asks | queued asks | handed asks | returned asks =>
    cases (asks.unique hasks).1

end SyncEffect

section
variable {store store' : SyncStore} {e : SyncExchange} {as : List SyncExchange}

theorem SyncStep.mutexBounded_iff (h : SyncStep store e store') (hb : store.MutexBounded) :
    store'.MutexBounded ↔ MutexCounts store e := by
  refine ⟨fun hb' i hasks hunused hmutex => ?_, h.effect.mutexBounded hb⟩
  have hle := hb' i
  rw [h.effect.creates hasks hunused] at hle
  have hcount := hle rfl (by simpa using hmutex)
  change ((e.msg.byte 3).toNat : Int) ≤ 1 at hcount
  omega

theorem mutexBounded_run (hr : Lib.Run (Lib.Guarded MutexCounts SyncStep) .new as store) :
    store.MutexBounded :=
  hr.invariant (P := SyncStore.MutexBounded) SyncStore.new_mutexBounded
    (fun _ _ _ hb hstep => hstep.2.effect.mutexBounded hb hstep.1)

/-- An object without permits stays so until it is released. -/
theorem no_permit_run {i : Fin syncMaxObj} (hr : Lib.Run SyncStep store as store')
    (hno : ∀ r ∈ as, ¬ r.Releases i) (hused : (store.objects i).used = true)
    (hcount : (store.objects i).count ≤ 0) : (store'.objects i).count ≤ 0 := by
  induction hr with
  | nil => exact hcount
  | @cons s t _ a _ head _ ih =>
    have hle := head.effect.count_le hused (hno a List.mem_cons_self)
    exact ih (fun r hr => hno r (List.mem_cons_of_mem _ hr)) (head.effect.kind hused).1
      (Int.le_trans hle hcount)

theorem mutex_exclusive (hr : Lib.Run (Lib.Guarded MutexCounts SyncStep) .new as store)
    {i : Fin syncMaxObj} (hmutex : (store.objects i).isMutex = true) : Exclusive i as := by
  intro before a between b after heq ha hb
  subst heq
  obtain ⟨s₀, h₀, hr⟩ := hr.split
  cases hr with
  | @cons _ s₁ _ _ _ stepA rest =>
    obtain ⟨s₂, hbetween, hr⟩ := rest.split
    cases hr with
    | @cons _ s₃ _ _ _ stepB hafter =>
      obtain ⟨usedA, _, countA⟩ := stepA.2.effect.admits ha.1 ha.2
      obtain ⟨_, posB, _⟩ := stepB.2.effect.admits hb.1 hb.2
      by_contra hnone
      have hquiet : ∀ r ∈ between, ¬ r.Releases i := fun r hr hrel => hnone ⟨r, hr, hrel⟩
      have used₁ := stepA.2.effect.kind usedA
      have hlater : Lib.Run SyncStep s₁ (between ++ b :: after) store :=
        rest.mono (fun _ _ _ h => h.2)
      have hkind : (s₀.objects i).isMutex = true := by
        rw [← used₁.2, ← (SyncRun.kind hlater used₁.1).2, hmutex]
      have hle := mutexBounded_run h₀ i usedA hkind
      have hzero : (s₁.objects i).count ≤ 0 := by
        have hA : (s₁.objects i).count = (s₀.objects i).count - 1 := countA
        omega
      have hend := no_permit_run (hbetween.mono (fun _ _ _ h => h.2)) hquiet used₁.1 hzero
      omega

/-- The invariant of the store. All of it holds whatever the service is sent, except
that a mutex has no more permits than it was created with. -/
theorem sync_store_invariant (hr : Lib.Run SyncStep .new as store) :
    store.Sound ∧
    (Lib.Run (Lib.Guarded MutexCounts SyncStep) .new as store →
      store.MutexBounded ∧ ∀ i, (store.objects i).isMutex = true → Exclusive i as) ∧
    (store.MutexBounded → ∀ e store', SyncStep store e store' →
      (store'.MutexBounded ↔ MutexCounts store e)) :=
  ⟨syncStore_sound hr, fun hg => ⟨mutexBounded_run hg, fun _ => mutex_exclusive hg⟩,
    fun hb _ _ hstep => hstep.mutexBounded_iff hb⟩

end

def syncMessage (sender : TaskId) (bytes : List UInt8) : Message :=
  ⟨sender, .syncOp, 1, padPayload bytes, bytes.length, 0, 0⟩

def contendingScheduler : Scheduler :=
  { Scheduler.ofList (Task.new 0 0 86 CapTable.new ::
      [1, 2].map (fun i => Task.new 0 0 i
        (CapTable.ofList [⟨.syncObj 0, true, true, false, false, i, none⟩]))) with
    currentTaskId := some 86 }

def syncExchange (sender : TaskId) (bytes : List UInt8) (grant : Option TaskId)
    (status : Option UInt8) : SyncExchange :=
  ⟨contendingScheduler, 0, syncMessage sender bytes, grant.map (·, .ok ()), status.map (·, .ok ())⟩

def firstObj : Fin syncMaxObj := ⟨0, by decide⟩

/-- A mutex with one permit passes from one task to the other. -/
theorem sync_store_invariant_contention : ∃ store,
    Lib.Run SyncStep .new [syncExchange 1 [0, 0, 1, 1] none (some 0),
      syncExchange 1 [1, 0] none (some 0), syncExchange 2 [1, 0] none none,
      syncExchange 1 [2, 0] (some 2) (some 0)] store ∧
    store.Sound ∧ (store.objects firstObj).count = 0 := by
  obtain ⟨store, hr, hcount⟩ : ∃ store,
      Lib.Run SyncStep .new [syncExchange 1 [0, 0, 1, 1] none (some 0),
        syncExchange 1 [1, 0] none (some 0), syncExchange 2 [1, 0] none none,
        syncExchange 1 [2, 0] (some 2) (some 0)] store ∧ (store.objects firstObj).count = 0 :=
    ⟨_, .cons ⟨_, rfl⟩ (.cons ⟨_, rfl⟩ (.cons ⟨_, rfl⟩ (.cons ⟨_, rfl⟩ (.nil _)))), rfl⟩
  exact ⟨store, hr, (sync_store_invariant hr).1, hcount⟩

/-- A mutex created with the count 2 lets two tasks in. -/
theorem mutex_admits_two : ∃ store₁ store,
    Lib.Run SyncStep .new [syncExchange 1 [0, 0, 1, 2] none (some 0)] store₁ ∧
    (store₁.objects firstObj).used = true ∧ (store₁.objects firstObj).isMutex = true ∧
    (store₁.objects firstObj).count = 2 ∧
    Lib.Run SyncStep store₁
      [syncExchange 1 [1, 0] none (some 0), syncExchange 2 [1, 0] none (some 0)] store ∧
    (syncExchange 1 [1, 0] none (some 0)).Admits firstObj ∧
    (syncExchange 2 [1, 0] none (some 0)).Admits firstObj :=
  ⟨_, _, .cons ⟨_, rfl⟩ (.nil _), rfl, rfl, rfl, .cons ⟨_, rfl⟩ (.cons ⟨_, rfl⟩ (.nil _)),
    by decide, by decide⟩

end Runix
