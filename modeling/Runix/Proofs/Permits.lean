import Runix.Lib.Permits
import Runix.Proofs.Mutex

namespace Runix

/-- The ledger of an object after a round, from what is seen of the round: an
acquire answered 0 admits its sender, an unanswered one makes it wait, and a release
answered 0 gives the permit back or to the waiter it took off the queue. -/
def SyncExchange.record (i : Fin syncMaxObj) (l : Lib.Ledger TaskId) (e : SyncExchange) :
    Lib.Ledger TaskId :=
  if e.Admits i then l.enter e.msg.sender
  else if e.msg.Asks 1 i ∧ e.status = none then l.queue e.msg.sender
  else if e.Releases i then
    match e.grant.map Prod.fst with
    | some waiter => l.handOver e.msg.sender waiter
    | none => l.giveBack e.msg.sender
  else l

def LedgerStep (i : Fin syncMaxObj) (st : SyncStore × Lib.Ledger TaskId) (e : SyncExchange)
    (st' : SyncStore × Lib.Ledger TaskId) : Prop :=
  SyncStep st.1 e st'.1 ∧ st'.2 = e.record i st.2

/-- Who releases the object has a permit. A request that the service denies for
want of the capability is no release. -/
def Disciplined (i : Fin syncMaxObj) (st : SyncStore × Lib.Ledger TaskId) (e : SyncExchange) :
    Prop :=
  e.msg.Asks 2 i → e.sched.MayUse e.msg → e.msg.sender ∈ st.2.holders

structure Kept (i : Fin syncMaxObj) (isMutex : Bool) (c : Int)
    (st : SyncStore × Lib.Ledger TaskId) : Prop where
  sound : st.1.Sound
  used : (st.1.objects i).used = true
  kind : (st.1.objects i).isMutex = isMutex
  books : Lib.Balances st.2 (st.1.objects i).count (st.1.objects i).wait.contents c

section
variable {i : Fin syncMaxObj} {e : SyncExchange} {l : Lib.Ledger TaskId}

/-- A round about another object, or one that is refused, is not in the ledger. -/
theorem SyncExchange.record_other (h : ∀ op, e.msg.Asks op i → e.status ≠ some 0 ∧ e.status ≠ none) :
    e.record i l = l := by
  unfold record
  rw [if_neg (fun ha => (h 1 ha.1).1 ha.2), if_neg (fun ha => (h 1 ha.1).2 ha.2),
    if_neg (fun ha => (h 2 ha.1).1 ha.2)]

theorem SyncExchange.record_enter (h : e.Admits i) : e.record i l = l.enter e.msg.sender :=
  if_pos h

theorem SyncExchange.record_queue (h : e.msg.Asks 1 i) (hst : e.status = none) :
    e.record i l = l.queue e.msg.sender := by
  unfold record
  rw [if_neg (fun ha => by cases hst.symm.trans ha.2), if_pos ⟨h, hst⟩]

theorem SyncExchange.record_release (h : e.Releases i) : e.record i l =
    match e.grant.map Prod.fst with
    | some waiter => l.handOver e.msg.sender waiter
    | none => l.giveBack e.msg.sender := by
  have hno : ¬ e.msg.Asks 1 i := fun ha => by cases (ha.unique h.1).1
  unfold record
  rw [if_neg (fun ha => hno ha.1), if_neg (fun ha => hno ha.1), if_pos h]

/-- The counter goes up by one: a mutex whose permit is out has none. -/
theorem SyncObject.restored_eq {obj : SyncObject} {c count : Int} {waiting : List TaskId}
    {x : TaskId} (hmutex : obj.isMutex = true → c = 1) (hcount : 0 ≤ obj.count)
    (hb : Lib.Balances l obj.count waiting c) (hx : x ∈ l.holders)
    (h : obj.restored = some count) : count = obj.count + 1 := by
  unfold restored at h
  split at h
  · rename_i hm
    cases h
    have hc := hmutex hm
    have htotal := hb.total
    have hpos := Multiset.card_pos_iff_exists_mem.mpr ⟨x, hx⟩
    omega
  · unfold incrI32 at h
    split at h
    · cases h
      rfl
    · cases h

/-- One round keeps the books. -/
theorem Kept.step {isMutex : Bool} {c : Int} (hparams : isMutex = true → c = 1)
    {st st' : SyncStore × Lib.Ledger TaskId} (hk : Kept i isMutex c st)
    (hd : Disciplined i st e) (h : LedgerStep i st e st') : Kept i isMutex c st' := by
  obtain ⟨store, l⟩ := st
  obtain ⟨store', l'⟩ := st'
  obtain ⟨hstep, hl⟩ := h
  change l' = e.record i l at hl
  subst hl
  have heffect := hstep.effect
  have hkind := heffect.kind hk.used
  refine ⟨heffect.sound hk.sound, hkind.1, hkind.2.trans hk.kind, ?_⟩
  change Lib.Balances (e.record i l) (store'.objects i).count (store'.objects i).wait.contents c
  have hb : Lib.Balances l (store.objects i).count (store.objects i).wait.contents c := hk.books
  have hs : store.Sound := hk.sound
  generalize hstatus : e.status = status at heffect
  generalize hgrant : e.grant.map Prod.fst = granted at heffect
  generalize ha : (⟨store', status, granted⟩ : SyncAnswer) = a at heffect
  have hother : ∀ {op : Nat} {j : Fin syncMaxObj} {obj : SyncObject}, e.msg.Asks op j → i ≠ j →
      store' = store.set j obj →
      Lib.Balances (e.record i l) (store'.objects i).count (store'.objects i).wait.contents c := by
    intro op j obj hasks hne heq
    rw [SyncExchange.record_other (fun op' h' => absurd (h'.unique hasks).2 hne), heq,
      SyncStore.set_objects, if_neg hne]
    exact hb
  cases heffect with
  | refused hcode =>
    cases ha
    rw [SyncExchange.record_other (fun _ _ => ?_)]
    · exact hb
    · rw [hstatus]
      rcases hcode with rfl | rfl <;> decide
  | full =>
    cases ha
    rw [SyncExchange.record_other (fun _ _ => ?_)]
    · exact hb
    · rw [hstatus]
      decide
  | @created j asks unused =>
    cases ha
    refine hother asks (fun hij => ?_) rfl
    rw [← hij, hk.used] at unused
    cases unused
  | @admitted j asks _ _ _ =>
    cases ha
    by_cases hij : i = j
    · subst hij
      rw [SyncExchange.record_enter ⟨asks, hstatus⟩, SyncStore.set_objects, if_pos rfl]
      exact hb.enter e.msg.sender
    · exact hother asks hij rfl
  | @queued j wait asks _ _ _ pushed =>
    cases ha
    by_cases hij : i = j
    · subst hij
      rw [SyncExchange.record_queue asks hstatus, SyncStore.set_objects, if_pos rfl]
      change Lib.Balances _ _ wait.contents c
      rw [(hs i).wait.contents_push pushed]
      exact hb.queue e.msg.sender
    · exact hother asks hij rfl
  | @handed j waiter wait asks may _ popped =>
    cases ha
    by_cases hij : i = j
    · subst hij
      rw [SyncExchange.record_release ⟨asks, hstatus⟩, hgrant, SyncStore.set_objects, if_pos rfl]
      rw [(hs i).wait.contents_pop popped] at hb
      exact hb.handOver (hd asks may)
    · exact hother asks hij rfl
  | @returned j wait count asks may _ popped counted =>
    cases ha
    by_cases hij : i = j
    · subst hij
      rw [SyncExchange.record_release ⟨asks, hstatus⟩, hgrant, SyncStore.set_objects, if_pos rfl]
      have hcount := SyncObject.restored_eq (fun hm => hparams (hk.kind.symm.trans hm))
        (hs i).count_nonneg hb (hd asks may) counted
      rw [hcount]
      exact hb.giveBack (hd asks may)
    · exact hother asks hij rfl

end

/-- Mutual exclusion and first come, first served. -/
theorem permits_conserved {before as : List SyncExchange} {store₀ store₁ store : SyncStore}
    {e₀ : SyncExchange} {i : Fin syncMaxObj} {l : Lib.Ledger TaskId}
    (hreach : Lib.Run SyncStep .new before store₀) (hcreate : SyncStep store₀ e₀ store₁)
    (hasks : e₀.msg.Asks 0 i) (hunused : (store₀.objects i).used = false)
    (hparams : e₀.msg.byte 2 ≠ 0 → e₀.msg.byte 3 = 1)
    (hr : Lib.Run (Lib.Guarded (Disciplined i) (LedgerStep i)) (store₁, .empty) as (store, l)) :
    (l.holders.card : Int) + (store.objects i).count = (e₀.msg.byte 3).toNat ∧
    l.holders.card ≤ (e₀.msg.byte 3).toNat ∧
    (e₀.msg.byte 2 ≠ 0 → l.holders.card ≤ 1) ∧
    (0 < (store.objects i).count → (store.objects i).wait.count = 0) ∧
    l.arrived = l.granted ++ (store.objects i).wait.contents ∧
    ∀ e store', SyncStep store e store' → e.msg.Asks 1 i → e.status = some 4 →
      (store.objects i).wait.count = syncMaxWait := by
  have hobj : store₁.objects i = ⟨true, e₀.msg.byte 2 != 0, (e₀.msg.byte 3).toNat,
      (store₀.objects i).wait.reset⟩ := hcreate.effect.creates hasks hunused
  have hstart : Kept i (e₀.msg.byte 2 != 0) (e₀.msg.byte 3).toNat
      (store₁, Lib.Ledger.empty) := by
    refine ⟨hcreate.effect.sound (syncStore_sound hreach), ?_, ?_, ?_⟩
    · rw [hobj]
    · rw [hobj]
    · rw [hobj]
      exact .empty _
  have hone : (e₀.msg.byte 2 != 0) = true → ((e₀.msg.byte 3).toNat : Int) = 1 := by
    intro hm
    rw [hparams (by simpa using hm)]
    rfl
  have hk := hr.invariant (P := Kept i (e₀.msg.byte 2 != 0) (e₀.msg.byte 3).toNat) hstart
    (fun _ _ _ hk hstep => hk.step hone hstep.1 hstep.2)
  have hle : (l.holders.card : Int) ≤ (e₀.msg.byte 3).toNat :=
    hk.books.holders_le (hk.sound i).count_nonneg
  refine ⟨hk.books.total, by omega, fun hm => ?_, (hk.sound i).idle, hk.books.order, ?_⟩
  · have hc := hone (by simpa using hm)
    omega
  · intro e store' hstep hask hst
    exact hstep.effect.full_status (hk.sound i) hask hst

/-- One task takes the mutex, the other waits and is given it. -/
theorem permits_conserved_contention : ∃ store l,
    Lib.Run (Lib.Guarded (Disciplined firstObj) (LedgerStep firstObj))
      (SyncStore.new.set firstObj ⟨true, true, 1, .new 0⟩, .empty)
      [syncExchange 1 [1, 0] none (some 0), syncExchange 2 [1, 0] none none,
        syncExchange 1 [2, 0] (some 2) (some 0)] (store, l) ∧
    l.holders = {2} ∧ l.granted = [2] ∧
    (l.holders.card : Int) + (store.objects firstObj).count = 1 := by
  obtain ⟨s₁, s₂, s₃, h₁, h₂, h₃⟩ : ∃ s₁ s₂ s₃,
      SyncStep (SyncStore.new.set firstObj ⟨true, true, 1, .new 0⟩)
        (syncExchange 1 [1, 0] none (some 0)) s₁ ∧
      SyncStep s₁ (syncExchange 2 [1, 0] none none) s₂ ∧
      SyncStep s₂ (syncExchange 1 [2, 0] (some 2) (some 0)) s₃ :=
    ⟨_, _, _, ⟨_, rfl⟩, ⟨_, rfl⟩, ⟨_, rfl⟩⟩
  have hentered : (syncExchange 1 [1, 0] none (some 0)).record firstObj .empty = ⟨{1}, [], []⟩ :=
    SyncExchange.record_enter (by decide)
  have hqueue : (syncExchange 2 [1, 0] none none).record firstObj ⟨{1}, [], []⟩ =
      ⟨{1}, [2], []⟩ := SyncExchange.record_queue (by decide) rfl
  have hhand : (syncExchange 1 [2, 0] (some 2) (some 0)).record firstObj ⟨{1}, [2], []⟩ =
      ⟨{2}, [2], [2]⟩ := SyncExchange.record_release (by decide)
  have hr : Lib.Run (Lib.Guarded (Disciplined firstObj) (LedgerStep firstObj))
      (SyncStore.new.set firstObj ⟨true, true, 1, .new 0⟩, .empty)
      [syncExchange 1 [1, 0] none (some 0), syncExchange 2 [1, 0] none none,
        syncExchange 1 [2, 0] (some 2) (some 0)] (s₃, ⟨{2}, [2], [2]⟩) :=
    .cons (t := (s₁, ⟨{1}, [], []⟩)) ⟨fun h => absurd h (by decide), h₁, hentered.symm⟩
      (.cons (t := (s₂, ⟨{1}, [2], []⟩)) ⟨fun h => absurd h (by decide), h₂, hqueue.symm⟩
        (.cons ⟨fun _ _ => Multiset.mem_singleton_self 1, h₃, hhand.symm⟩ (.nil _)))
  have hcreate : SyncStep .new (syncExchange 1 [0, 0, 1, 1] none (some 0))
      (SyncStore.new.set firstObj ⟨true, true, 1, .new 0⟩) := ⟨_, rfl⟩
  exact ⟨s₃, _, hr, rfl, rfl,
    (permits_conserved (.nil _) hcreate (by decide) rfl (by decide) hr).1⟩

end Runix
