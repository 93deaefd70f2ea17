import Runix.Lib.Run
import Runix.Proofs.Replies
import Runix.Service.Sync

namespace Runix

def Message.Asks (msg : Message) (op : Nat) (i : Fin syncMaxObj) : Prop :=
  msg.tag = .syncOp ∧ 2 ≤ msg.len ∧ (msg.byte 0).toNat = op ∧ (msg.byte 1).toNat = i

instance (msg : Message) (op : Nat) (i : Fin syncMaxObj) : Decidable (msg.Asks op i) :=
  inferInstanceAs (Decidable (_ ∧ _ ∧ _ ∧ _))

def Scheduler.MayUse (s : Scheduler) (msg : Message) : Prop :=
  s.syncCheckCap msg.sender (msg.byte 1) = true

instance (s : Scheduler) (msg : Message) : Decidable (s.MayUse msg) :=
  inferInstanceAs (Decidable (_ = _))

inductive SyncEffect (s : Scheduler) (store : SyncStore) (msg : Message) : SyncAnswer → Prop where
  | refused {code : UInt8} (hcode : code = 1 ∨ code = 2)
      (hidle : ∀ i, (store.objects i).used = true → s.MayUse msg → ¬ msg.Asks 1 i ∧ ¬ msg.Asks 2 i)
      (hused : ∀ i, msg.Asks 0 i → (store.objects i).used = true) :
      SyncEffect s store msg (.refuse store code)
  | created {i : Fin syncMaxObj} (asks : msg.Asks 0 i) (unused : (store.objects i).used = false) :
      SyncEffect s store msg
        ⟨store.set i ⟨true, msg.byte 2 != 0, (msg.byte 3).toNat, (store.objects i).wait.reset⟩,
          some 0, none⟩
  | admitted {i : Fin syncMaxObj} (asks : msg.Asks 1 i) (may : s.MayUse msg)
      (used : (store.objects i).used = true) (pos : 0 < (store.objects i).count) :
      SyncEffect s store msg
        ⟨store.set i { store.objects i with count := (store.objects i).count - 1 }, some 0, none⟩
  | queued {i : Fin syncMaxObj} {wait : Lib.Circular TaskId syncMaxWait} (asks : msg.Asks 1 i)
      (may : s.MayUse msg) (used : (store.objects i).used = true)
      (zero : ¬ 0 < (store.objects i).count)
      (pushed : (store.objects i).wait.push msg.sender = some (true, wait)) :
      SyncEffect s store msg ⟨store.set i { store.objects i with wait := wait }, none, none⟩
  | full {i : Fin syncMaxObj} {wait : Lib.Circular TaskId syncMaxWait} (asks : msg.Asks 1 i)
      (may : s.MayUse msg) (used : (store.objects i).used = true)
      (zero : ¬ 0 < (store.objects i).count)
      (pushed : (store.objects i).wait.push msg.sender = some (false, wait)) :
      SyncEffect s store msg (.refuse store 4)
  | handed {i : Fin syncMaxObj} {waiter : TaskId} {wait : Lib.Circular TaskId syncMaxWait}
      (asks : msg.Asks 2 i) (may : s.MayUse msg) (used : (store.objects i).used = true)
      (popped : (store.objects i).wait.pop = some (some waiter, wait)) :
      SyncEffect s store msg
        ⟨store.set i { store.objects i with wait := wait }, some 0, some waiter⟩
  | returned {i : Fin syncMaxObj} {wait : Lib.Circular TaskId syncMaxWait} {count : Int}
      (asks : msg.Asks 2 i) (may : s.MayUse msg) (used : (store.objects i).used = true)
      (popped : (store.objects i).wait.pop = some (none, wait))
      (counted : (store.objects i).restored = some count) :
      SyncEffect s store msg
        ⟨store.set i { store.objects i with count := count }, some 0, none⟩

theorem Message.Asks.unique {msg : Message} {op op' : Nat} {i j : Fin syncMaxObj}
    (h : msg.Asks op i) (h' : msg.Asks op' j) : op = op' ∧ i = j :=
  ⟨h.2.2.1.symm.trans h'.2.2.1, Fin.ext (h.2.2.2.symm.trans h'.2.2.2)⟩

section
variable {s : Scheduler} {store : SyncStore} {msg : Message} {a : SyncAnswer} {i : Fin syncMaxObj}

theorem create_effect (hasks : msg.Asks 0 i)
    (h : a = store.create i (msg.byte 2 != 0) (msg.byte 3).toNat) :
    SyncEffect s store msg a := by
  subst h
  unfold SyncStore.create
  cases hused : (store.objects i).used with
  | true =>
    simp only [hused, if_true]
    refine .refused (.inr rfl) (fun j _ _ => ⟨fun h => ?_, fun h => ?_⟩) (fun j hj => ?_)
    · cases (hasks.unique h).1
    · cases (hasks.unique h).1
    · rw [← (hasks.unique hj).2, hused]
  | false =>
    simp only [hused, Bool.false_eq_true, if_false]
    exact .created hasks hused

/-- Nothing but a creation can be done with an unused object. -/
theorem unused_effect {op : Nat} (hop : op ≠ 0) (hasks : msg.Asks op i)
    (hused : (store.objects i).used = false) : SyncEffect s store msg (.refuse store 2) := by
  have hother : ∀ j op', (store.objects j).used = true → ¬ msg.Asks op' j := by
    intro j op' hj hask
    rw [← (hasks.unique hask).2, hused] at hj
    cases hj
  refine .refused (.inr rfl) (fun j hj _ => ⟨hother j 1 hj, hother j 2 hj⟩) (fun j hj => ?_)
  exact absurd (hasks.unique hj).1 hop

theorem acquire_effect (hasks : msg.Asks 1 i) (hmay : s.MayUse msg)
    (h : store.acquire i msg.sender = some a) : SyncEffect s store msg a := by
  unfold SyncStore.acquire at h
  cases hused : (store.objects i).used with
  | false =>
    simp only [hused, Bool.not_false, if_true, Option.some.injEq] at h
    subst h
    exact unused_effect (by decide) hasks hused
  | true =>
    rw [if_neg (by simp [hused])] at h
    split at h
    · rename_i hpos
      cases h
      exact .admitted hasks hmay hused hpos
    · rename_i hzero
      obtain ⟨⟨accepted, wait⟩, hpush, h⟩ := Option.bind_eq_some_iff.mp h
      cases accepted with
      | true =>
        cases h
        exact .queued hasks hmay hused hzero hpush
      | false =>
        cases h
        exact .full hasks hmay hused hzero hpush

theorem release_effect (hasks : msg.Asks 2 i) (hmay : s.MayUse msg)
    (h : store.release i = some a) : SyncEffect s store msg a := by
  unfold SyncStore.release at h
  cases hused : (store.objects i).used with
  | false =>
    simp only [hused, Bool.not_false, if_true, Option.some.injEq] at h
    subst h
    exact unused_effect (by decide) hasks hused
  | true =>
    rw [if_neg (by simp [hused])] at h
    obtain ⟨⟨waiter, wait⟩, hpop, h⟩ := Option.bind_eq_some_iff.mp h
    cases waiter with
    | some waiter =>
      cases h
      exact .handed hasks hmay hused hpop
    | none =>
      obtain ⟨count, hcount, h⟩ := Option.bind_eq_some_iff.mp h
      cases h
      exact .returned hasks hmay hused hpop hcount

/-- A message that asks for no operation the service knows. -/
theorem unknown_effect {code : UInt8} (hcode : code = 1 ∨ code = 2)
    (h : ∀ i, ¬ msg.Asks 0 i ∧ (s.MayUse msg → ¬ msg.Asks 1 i ∧ ¬ msg.Asks 2 i)) :
    SyncEffect s store msg (.refuse store code) :=
  .refused hcode (fun i _ hmay => (h i).2 hmay) (fun i hi => absurd hi (h i).1)

theorem syncService_effect (h : syncService s store msg = some a) : SyncEffect s store msg a := by
  unfold syncService at h
  split at h
  · rename_i htag
    cases h
    exact unknown_effect (.inr rfl) (fun i => ⟨fun hi => htag hi.1,
      fun _ => ⟨fun hi => htag hi.1, fun hi => htag hi.1⟩⟩)
  · rename_i htag
    split at h
    · rename_i hlen
      cases h
      exact unknown_effect (.inr rfl) (fun i => ⟨fun hi => absurd hi.2.1 (by omega),
        fun _ => ⟨fun hi => absurd hi.2.1 (by omega), fun hi => absurd hi.2.1 (by omega)⟩⟩)
    · rename_i hlen
      dsimp only at h
      split at h
      · rename_i hid
        have hasks : ∀ {op}, (msg.byte 0).toNat = op → msg.Asks op ⟨(msg.byte 1).toNat, hid⟩ :=
          fun hop => ⟨not_not.mp htag, by omega, hop, rfl⟩
        have hdenied : ∀ {op}, (msg.byte 0).toNat = op → op ≠ 0 → ¬ s.MayUse msg →
            SyncEffect s store msg (.refuse store 1) := fun hop hne hno =>
          unknown_effect (.inl rfl) (fun i => ⟨fun hi => hne (hop.symm.trans hi.2.2.1),
            fun hmay => absurd hmay hno⟩)
        split at h
        · rename_i hop
          exact create_effect (hasks hop) (Option.some.inj h).symm
        · rename_i hop
          split at h
          · rename_i hno
            cases h
            exact hdenied hop (by decide) (by simpa [Scheduler.MayUse] using hno)
          · rename_i hyes
            exact acquire_effect (hasks hop) (by simpa [Scheduler.MayUse] using hyes) h
        · rename_i hop
          split at h
          · rename_i hno
            cases h
            exact hdenied hop (by decide) (by simpa [Scheduler.MayUse] using hno)
          · rename_i hyes
            exact release_effect (hasks hop) (by simpa [Scheduler.MayUse] using hyes) h
        · rename_i h0 h1 h2
          cases h
          exact unknown_effect (.inr rfl) (fun i => ⟨fun hi => h0 hi.2.2.1,
            fun _ => ⟨fun hi => h1 hi.2.2.1, fun hi => h2 hi.2.2.1⟩⟩)
      · rename_i hid
        cases h
        have hno : ∀ {op : Nat} {i : Fin syncMaxObj}, ¬ msg.Asks op i := fun hi =>
          hid (hi.2.2.2 ▸ Fin.isLt _)
        exact unknown_effect (.inr rfl) (fun i => ⟨hno, fun _ => ⟨hno, hno⟩⟩)

end

theorem Scheduler.syncReply_grows {s s' : Scheduler} {call : Nat} {client : TaskId} {code : UInt8}
    {sent : Except IpcError Unit} (h : s.syncReply call client code = some (s', sent)) :
    s.Grows s' := by
  obtain ⟨s₁, hopen, h⟩ := Option.bind_eq_some_iff.mp h
  obtain ⟨reply, _, h⟩ := Option.bind_eq_some_iff.mp h
  have hsend := s₁.sysSendAsync_grows call replySlot Service.sync.replyTag 1 reply
  rw [Option.some.inj h] at hsend
  exact (openReply_grows hopen).trans hsend

/-- A round is the handler, the hand-off and the reply. -/
theorem syncServiceMain_some {s : Scheduler} {store : SyncStore} {call : Nat} {msg : Message}
    {out : SyncServed} (h : syncServiceMain s store call msg = some out) :
    ∃ a s₁, syncService s store msg = some a ∧ s.syncGrant call a.granted = some (s₁, out.grant) ∧
      a.store = out.store ∧ a.status = out.reply.map Prod.fst ∧ s₁.Grows out.sched := by
  obtain ⟨a, ha, h⟩ := Option.bind_eq_some_iff.mp h
  obtain ⟨⟨s₁, grant⟩, hgrant, h⟩ := Option.bind_eq_some_iff.mp h
  refine ⟨a, s₁, ha, ?_⟩
  cases hst : a.status with
  | none =>
    simp only [hst] at h
    cases h
    exact ⟨hgrant, rfl, rfl, .refl s₁⟩
  | some code =>
    simp only [hst] at h
    obtain ⟨⟨s₂, sent⟩, hreply, h⟩ := Option.bind_eq_some_iff.mp h
    cases h
    exact ⟨hgrant, rfl, rfl, Scheduler.syncReply_grows hreply⟩

theorem Scheduler.syncGrant_granted {s s₁ : Scheduler} {call : Nat} {granted : Option TaskId}
    {grant : Option (TaskId × Except IpcError Unit)}
    (h : s.syncGrant call granted = some (s₁, grant)) : granted = grant.map Prod.fst := by
  cases granted with
  | none =>
    cases h
    rfl
  | some waiter =>
    obtain ⟨⟨s₂, sent⟩, _, h⟩ := Option.bind_eq_some_iff.mp h
    cases h
    rfl

/-- One round of the service as an observer sees it: the scheduler in which the
message is served, the message, and what the two sends carried and returned. -/
structure SyncExchange where
  sched : Scheduler
  call : Nat
  msg : Message
  grant : Option (TaskId × Except IpcError Unit)
  reply : Option (UInt8 × Except IpcError Unit)

namespace SyncExchange

def status (e : SyncExchange) : Option UInt8 := e.reply.map Prod.fst

def Admits (e : SyncExchange) (i : Fin syncMaxObj) : Prop := e.msg.Asks 1 i ∧ e.status = some 0

def Releases (e : SyncExchange) (i : Fin syncMaxObj) : Prop := e.msg.Asks 2 i ∧ e.status = some 0

instance (e : SyncExchange) (i : Fin syncMaxObj) : Decidable (e.Admits i) :=
  inferInstanceAs (Decidable (_ ∧ _))

instance (e : SyncExchange) (i : Fin syncMaxObj) : Decidable (e.Releases i) :=
  inferInstanceAs (Decidable (_ ∧ _))

end SyncExchange

/-- The service turns one store into the next. The schedulers of successive
rounds are unrelated: in between, tasks may run, die, gain or lose capabilities. -/
def SyncStep (store : SyncStore) (e : SyncExchange) (store' : SyncStore) : Prop :=
  ∃ sched', syncServiceMain e.sched store e.call e.msg = some ⟨sched', store', e.grant, e.reply⟩

theorem SyncStep.effect {store store' : SyncStore} {e : SyncExchange} (h : SyncStep store e store') :
    SyncEffect e.sched store e.msg ⟨store', e.status, e.grant.map Prod.fst⟩ := by
  obtain ⟨sched', h⟩ := h
  obtain ⟨⟨store₁, status, granted⟩, s₁, ha, hgrant, hstore, hstatus, _⟩ := syncServiceMain_some h
  have hgranted : granted = e.grant.map Prod.fst := Scheduler.syncGrant_granted hgrant
  change store₁ = store' at hstore
  change status = e.status at hstatus
  subst hstore hstatus hgranted
  exact syncService_effect ha

namespace Scheduler
variable {s : Scheduler}

theorem syncReply_some (hs : s.Serving .sync) {client : TaskId} (hc : client < maxTasks)
    (call : Nat) (code : UInt8) : ∃ s' sent, s.syncReply call client code = some (s', sent) := by
  obtain ⟨s₁, hopen⟩ : ∃ s₁, s.openReply .sync client = some s₁ := ⟨_, openReply_some hs hc⟩
  have hslice : Lib.slice (statusReply code) 0 1 = some [code] :=
    Lib.begins_slice (statusReply_begins code) (Nat.le_of_ble_eq_true rfl)
  refine ⟨(s₁.sysSendAsync call replySlot Service.sync.replyTag 1 [code]).1,
    (s₁.sysSendAsync call replySlot Service.sync.replyTag 1 [code]).2, ?_⟩
  rw [syncReply, hopen, Option.bind_eq_bind, Option.bind_some, hslice]
  rfl

theorem syncGrant_some (hs : s.Serving .sync) {granted : Option TaskId}
    (hw : ∀ w, granted = some w → w < maxTasks) (call : Nat) :
    ∃ s' grant, s.syncGrant call granted = some (s', grant) ∧ s.Grows s' := by
  cases granted with
  | none => exact ⟨s, none, rfl, .refl s⟩
  | some waiter =>
    obtain ⟨s', sent, hreply⟩ := syncReply_some hs (hw waiter rfl) call 0
    refine ⟨s', some (waiter, sent), ?_, syncReply_grows hreply⟩
    rw [syncGrant, hreply]
    rfl

end Scheduler

/-- The sends cannot fail in a way that stops the service. -/
theorem syncServiceMain_of_service {s : Scheduler} {store : SyncStore} {msg : Message}
    {a : SyncAnswer} (hs : s.Serving .sync) (hsender : msg.sender < maxTasks)
    (ha : syncService s store msg = some a) (hw : ∀ w, a.granted = some w → w < maxTasks)
    (call : Nat) : ∃ out, syncServiceMain s store call msg = some out ∧ out.store = a.store := by
  obtain ⟨s₁, grant, hgrant, hgrows⟩ := Scheduler.syncGrant_some hs hw call
  obtain ⟨s₂, sent, hreply⟩ := Scheduler.syncReply_some (hgrows.serving hs) hsender (call + 1)
    (a.status.getD 0)
  rw [syncServiceMain, ha, Option.bind_eq_bind, Option.bind_some, hgrant, Option.bind_eq_bind,
    Option.bind_some]
  cases hst : a.status with
  | none => exact ⟨_, rfl, rfl⟩
  | some code =>
    rw [hst, Option.getD_some] at hreply
    simp only [hreply]
    exact ⟨_, rfl, rfl⟩

theorem SyncStore.set_objects (store : SyncStore) (i j : Fin syncMaxObj) (obj : SyncObject) :
    (store.set i obj).objects j = if j = i then obj else store.objects j := by
  simp [set, Function.update_apply]

structure SyncObject.Sound (obj : SyncObject) : Prop where
  count_nonneg : 0 ≤ obj.count
  wait : obj.wait.Wf
  idle : 0 < obj.count → obj.wait.count = 0

def SyncStore.Sound (store : SyncStore) : Prop := ∀ i, (store.objects i).Sound

theorem SyncStore.new_sound : SyncStore.new.Sound := fun _ =>
  ⟨Int.le_refl 0, Lib.Circular.new_wf (by decide) 0, fun _ => rfl⟩

theorem SyncStore.Sound.set {store : SyncStore} (h : store.Sound) {i : Fin syncMaxObj}
    {obj : SyncObject} (hobj : obj.Sound) : (store.set i obj).Sound := by
  intro j
  rw [set_objects]
  split
  · exact hobj
  · exact h j

/-- The new counter of a release without waiters. -/
theorem SyncObject.restored_pos {obj : SyncObject} (h : 0 ≤ obj.count) {count : Int}
    (hc : obj.restored = some count) : 0 < count := by
  unfold restored at hc
  split at hc
  · cases hc
    decide
  · unfold incrI32 at hc
    split at hc
    · cases hc
      omega
    · cases hc

theorem SyncEffect.sound {s : Scheduler} {store : SyncStore} {msg : Message} {a : SyncAnswer}
    (h : SyncEffect s store msg a) (hs : store.Sound) : a.store.Sound := by
  cases h with
  | refused => exact hs
  | full => exact hs
  | created =>
    exact hs.set ⟨Int.natCast_nonneg _, Lib.Circular.reset_wf (by decide) _, fun _ => rfl⟩
  | @admitted i _ _ _ pos =>
    have hi := hs i
    exact hs.set ⟨by change 0 ≤ (store.objects i).count - 1; omega, hi.wait, fun _ => hi.idle pos⟩
  | @queued i _ _ _ _ zero pushed =>
    have hi := hs i
    exact hs.set ⟨hi.count_nonneg, hi.wait.push pushed, fun hpos => absurd hpos zero⟩
  | @handed i _ _ _ _ _ popped =>
    have hi := hs i
    refine hs.set ⟨hi.count_nonneg, hi.wait.pop popped, fun hcount => ?_⟩
    have hnil := hi.wait.contents_eq_nil.mpr (hi.idle hcount)
    cases (hi.wait.contents_pop popped).symm.trans hnil
  | @returned i _ _ _ _ _ popped counted =>
    have hi := hs i
    have hpos := SyncObject.restored_pos hi.count_nonneg counted
    exact hs.set ⟨Int.le_of_lt hpos, hi.wait, fun _ => hi.wait.pop_none popped⟩

/-- Every state the service can reach is sound, whatever it is sent. -/
theorem syncStore_sound {as : List SyncExchange} {store : SyncStore}
    (hr : Lib.Run SyncStep .new as store) : store.Sound :=
  hr.invariant (P := SyncStore.Sound) SyncStore.new_sound
    (fun _ _ _ hs hstep => hstep.effect.sound hs)

/-- An object stays what it was created as. -/
theorem SyncEffect.kind {s : Scheduler} {store : SyncStore} {msg : Message} {a : SyncAnswer}
    (h : SyncEffect s store msg a) {i : Fin syncMaxObj} (hused : (store.objects i).used = true) :
    (a.store.objects i).used = true ∧
      (a.store.objects i).isMutex = (store.objects i).isMutex := by
  cases h with
  | refused => exact ⟨hused, rfl⟩
  | full => exact ⟨hused, rfl⟩
  | @created j _ unused =>
    rw [SyncStore.set_objects]
    split
    · rename_i hij
      rw [← hij, hused] at unused
      cases unused
    · exact ⟨hused, rfl⟩
  | admitted | queued | handed | returned =>
    rw [SyncStore.set_objects]
    split
    · rename_i hij
      subst hij
      exact ⟨hused, rfl⟩
    · exact ⟨hused, rfl⟩

theorem SyncRun.kind {as : List SyncExchange} {store store' : SyncStore}
    (hr : Lib.Run SyncStep store as store') {i : Fin syncMaxObj}
    (hused : (store.objects i).used = true) :
    (store'.objects i).used = true ∧ (store'.objects i).isMutex = (store.objects i).isMutex :=
  hr.invariant (P := fun t => (t.objects i).used = true ∧
      (t.objects i).isMutex = (store.objects i).isMutex) ⟨hused, rfl⟩
    (fun _ _ _ h hstep =>
      have hk := hstep.effect.kind h.1
      ⟨hk.1, hk.2.trans h.2⟩)

/-- Only a release raises the counter of an object. -/
theorem SyncEffect.count_le {s : Scheduler} {store : SyncStore} {msg : Message} {a : SyncAnswer}
    (h : SyncEffect s store msg a) {i : Fin syncMaxObj} (hused : (store.objects i).used = true)
    (hno : ¬ (msg.Asks 2 i ∧ a.status = some 0)) :
    (a.store.objects i).count ≤ (store.objects i).count := by
  cases h with
  | refused => exact Int.le_refl _
  | full => exact Int.le_refl _
  | @created j _ unused =>
    rw [SyncStore.set_objects]
    split
    · rename_i hij
      rw [← hij, hused] at unused
      cases unused
    · exact Int.le_refl _
  | admitted | queued =>
    rw [SyncStore.set_objects]
    split
    · rename_i hij
      subst hij
      dsimp only
      omega
    · exact Int.le_refl _
  | @handed j _ _ asks | @returned j _ _ asks =>
    rw [SyncStore.set_objects]
    split
    · rename_i hij
      exact absurd ⟨hij ▸ asks, rfl⟩ hno
    · exact Int.le_refl _

/-- An acquire that is answered at once takes a permit. -/
theorem SyncEffect.admits {s : Scheduler} {store : SyncStore} {msg : Message} {a : SyncAnswer}
    (h : SyncEffect s store msg a) {i : Fin syncMaxObj} (hasks : msg.Asks 1 i)
    (hst : a.status = some 0) :
    (store.objects i).used = true ∧ 0 < (store.objects i).count ∧
      (a.store.objects i).count = (store.objects i).count - 1 := by
  cases h with
  | refused hcode =>
    have hzero := Option.some.inj hst
    rcases hcode with rfl | rfl <;> cases hzero
  | full => cases Option.some.inj hst
  | created asks => cases (asks.unique hasks).1
  | admitted asks _ used pos =>
    obtain ⟨_, rfl⟩ := asks.unique hasks
    refine ⟨used, pos, ?_⟩
    rw [SyncStore.set_objects, if_pos rfl]
  | queued => cases hst
  | handed asks => cases (asks.unique hasks).1
  | returned asks => cases (asks.unique hasks).1

/-- An acquire is refused for want of room only when the ring is full. -/
theorem SyncEffect.full_status {s : Scheduler} {store : SyncStore} {msg : Message}
    {a : SyncAnswer} (h : SyncEffect s store msg a) {i : Fin syncMaxObj}
    (hsound : (store.objects i).Sound) (hasks : msg.Asks 1 i) (hst : a.status = some 4) :
    (store.objects i).wait.count = syncMaxWait := by
  cases h with
  | refused hcode =>
    have hfour := Option.some.inj hst
    rcases hcode with rfl | rfl <;> cases hfour
  | full asks _ _ _ pushed =>
    obtain ⟨_, rfl⟩ := asks.unique hasks
    exact hsound.wait.full_of_push pushed
  | created | admitted | handed | returned => cases Option.some.inj hst
  | queued => cases hst

end Runix
