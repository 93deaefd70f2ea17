import Runix.Proofs.Mutex

namespace Runix

def syncReplyMessage (call : Nat) (code : UInt8) : Message :=
  ⟨Service.sync.task, .syncReply, 1, padPayload [code], 1, call, replySlot⟩

/-- The reply arrives exactly if the client can take a message. -/
theorem Scheduler.syncReply_spec {s s' : Scheduler} {call : Nat} {client : TaskId} {code : UInt8}
    {sent : Except IpcError Unit} (hcur : s.currentTaskId = some Service.sync.task.val)
    (h : s.syncReply call client code = some (s', sent)) :
    (sent = .ok () ↔ s.Receptive client) ∧
      (sent = .ok () → s'.Pending client (syncReplyMessage call code)) := by
  obtain ⟨s₁, hopen, h⟩ := Option.bind_eq_some_iff.mp h
  obtain ⟨reply, hreply, h⟩ := Option.bind_eq_some_iff.mp h
  have hslice : Lib.slice (statusReply code) 0 1 = some [code] :=
    Lib.begins_slice (statusReply_begins code) (Nat.le_of_ble_eq_true rfl)
  cases hreply.symm.trans hslice
  have hcheck : checkSend call replySlot Service.sync.replyTag 1 [code] =
      .ok ⟨replySlot, .syncReply, 1, padPayload [code], 1, call⟩ := rfl
  have hcur₁ : s₁.currentTaskId = some Service.sync.task.val := (openReply_grows hopen).current.trans hcur
  obtain ⟨_, hiff, hpending⟩ := sendAsyncRegion_spec
    (a := ⟨replySlot, .syncReply, 1, padPayload [code], 1, call⟩) (openReply_resolves hopen)
  simp only [sysSendAsync, hcheck, hcur₁, Option.some.injEq] at h
  obtain ⟨rfl, rfl⟩ := h
  have hok : ∀ r : Except IpcError TaskId,
      r.map (fun _ => ()) = .ok () ↔ ∃ target, r = .ok target := by
    intro r
    cases r with
    | error e => simp [Except.map]
    | ok target => simp [Except.map]
  rw [hok, openReply_receptive hopen] at *
  exact ⟨hiff, hpending⟩

def HeadReceptive (s : Scheduler) (store : SyncStore) (i : Fin syncMaxObj) : Prop :=
  ∀ waiter rest, (store.objects i).wait.contents = waiter :: rest → s.Receptive waiter

def KeepsPermit (i : Fin syncMaxObj) (call : Nat) (out : SyncServed) : Prop :=
  0 < (out.store.objects i).count ∨
    ∃ waiter, out.grant = some (waiter, .ok ()) ∧
      out.sched.Pending waiter (syncReplyMessage call 0)

/-- A release with the right to it hands over or gives back. -/
theorem SyncEffect.release_cases {s : Scheduler} {store : SyncStore} {msg : Message}
    {a : SyncAnswer} (h : SyncEffect s store msg a) {i : Fin syncMaxObj} (hs : store.Sound)
    (hasks : msg.Asks 2 i) (hmay : s.MayUse msg) (hused : (store.objects i).used = true) :
    (∃ waiter rest, (store.objects i).wait.contents = waiter :: rest ∧ a.granted = some waiter ∧
      (a.store.objects i).count = (store.objects i).count) ∨
    ((store.objects i).wait.contents = [] ∧ a.granted = none ∧ 0 < (a.store.objects i).count) := by
  have hi := hs i
  cases h with
  | refused _ hidle => exact absurd hasks (hidle i hused hmay).2
  | created asks | admitted asks | queued asks | full asks => cases (asks.unique hasks).1
  | handed asks _ _ popped =>
    obtain ⟨_, rfl⟩ := asks.unique hasks
    refine .inl ⟨_, _, hi.wait.contents_pop popped, rfl, ?_⟩
    rw [SyncStore.set_objects, if_pos rfl]
  | returned asks _ _ popped counted =>
    obtain ⟨_, rfl⟩ := asks.unique hasks
    refine .inr ⟨hi.wait.contents_eq_nil.mpr (hi.wait.pop_none popped), rfl, ?_⟩
    rw [SyncStore.set_objects, if_pos rfl]
    exact SyncObject.restored_pos hi.count_nonneg counted

/-- Nobody waits for an object that has permits. -/
theorem SyncObject.Sound.no_permit {obj : SyncObject} (h : obj.Sound) {waiter : TaskId}
    {rest : List TaskId} (hwait : obj.wait.contents = waiter :: rest) : obj.count = 0 := by
  have hnonneg := h.count_nonneg
  by_contra hne
  have hnil := h.wait.contents_eq_nil.mpr (h.idle (by omega))
  cases hwait.symm.trans hnil

section
variable {s : Scheduler} {store : SyncStore} {call : Nat} {msg : Message} {i : Fin syncMaxObj}
  {out : SyncServed}

theorem keepsPermit_iff (hs : store.Sound) (hcur : s.currentTaskId = some Service.sync.task.val)
    (hasks : msg.Asks 2 i) (hmay : s.MayUse msg) (hused : (store.objects i).used = true)
    (h : syncServiceMain s store call msg = some out) :
    KeepsPermit i call out ↔ HeadReceptive s store i := by
  obtain ⟨a, s₁, ha, hgrant, hstore, _, hgrows⟩ := syncServiceMain_some h
  unfold KeepsPermit
  rw [← hstore]
  rcases (syncService_effect ha).release_cases hs hasks hmay hused with
    ⟨waiter, rest, hwait, hgranted, hcount⟩ | ⟨hnil, _, hpos⟩
  · have hzero := (hs i).no_permit hwait
    rw [hgranted] at hgrant
    obtain ⟨⟨s₂, sent⟩, hreply, hgrant⟩ := Option.bind_eq_some_iff.mp hgrant
    obtain ⟨hiff, hpending⟩ := Scheduler.syncReply_spec hcur hreply
    obtain ⟨rfl, hout⟩ := Prod.mk.inj (Option.some.inj hgrant)
    rw [← hout]
    constructor
    · rintro (hpos | ⟨w, hw, _⟩) waiter' rest' hwait'
      · omega
      · cases hw
        cases hwait.symm.trans hwait'
        exact hiff.mp rfl
    · intro hhead
      have hok := hiff.mpr (hhead waiter rest hwait)
      exact .inr ⟨waiter, by rw [hok], hgrows.pending (hpending hok)⟩
  · refine iff_of_true (.inl hpos) (fun waiter rest hwait => ?_)
    cases hwait.symm.trans hnil

end

/-- A release that is carried out finds a waiter that can take the reply, or none. -/
def Handable (store : SyncStore) (e : SyncExchange) : Prop :=
  ∀ i, e.msg.Asks 2 i → e.sched.MayUse e.msg → (store.objects i).used = true →
    HeadReceptive e.sched store i

/-- Such a request leaves no waiter that was taken off a queue without its reply. -/
theorem SyncStep.delivers {store store' : SyncStore} {e : SyncExchange}
    (h : SyncStep store e store') (hs : store.Sound)
    (hcur : e.sched.currentTaskId = some Service.sync.task.val) (hhand : Handable store e)
    {waiter : TaskId} {sent : Except IpcError Unit} (hg : e.grant = some (waiter, sent)) :
    sent = .ok () := by
  obtain ⟨sched', h⟩ := h
  obtain ⟨a, s₁, ha, hgrant, _⟩ := syncServiceMain_some h
  have hgranted := Scheduler.syncGrant_granted hgrant
  change a.granted = e.grant.map Prod.fst at hgranted
  rw [hg] at hgranted
  cases syncService_effect ha with
  | refused | created | admitted | queued | full | returned => cases hgranted
  | @handed i w wait asks may used popped =>
    cases hgranted
    obtain ⟨⟨s₂, sent'⟩, hreply, hgrant⟩ := Option.bind_eq_some_iff.mp hgrant
    have hout : some (waiter, sent') = e.grant := (Prod.mk.inj (Option.some.inj hgrant)).2
    cases hout.trans hg
    exact (Scheduler.syncReply_spec hcur hreply).1.mpr
      (hhand i asks may used waiter _ ((hs i).wait.contents_pop popped))

theorem grants_delivered {as : List SyncExchange} {store store' : SyncStore} (hs : store.Sound)
    (hr : Lib.Run (Lib.Guarded Handable SyncStep) store as store')
    (hcur : ∀ e ∈ as, e.sched.currentTaskId = some Service.sync.task.val) :
    ∀ e ∈ as, ∀ waiter sent, e.grant = some (waiter, sent) → sent = .ok () := by
  induction hr with
  | nil => simp
  | @cons s t u a as head _ ih =>
    intro e he waiter sent hg
    rcases List.mem_cons.mp he with rfl | he
    · exact head.2.delivers hs (hcur e List.mem_cons_self) head.1 hg
    · exact ih (head.2.effect.sound hs) (fun e he => hcur e (List.mem_cons_of_mem _ he)) e he
        waiter sent hg

/-- No release loses its permit exactly if the waiter it goes to can take the
reply. -/
theorem release_keeps_permit (as : List SyncExchange) (store : SyncStore) :
    (Lib.Run SyncStep .new as store → ∀ s call msg i out,
      s.currentTaskId = some Service.sync.task.val → msg.Asks 2 i → s.MayUse msg →
      (store.objects i).used = true → syncServiceMain s store call msg = some out →
      (KeepsPermit i call out ↔ HeadReceptive s store i)) ∧
    (Lib.Run (Lib.Guarded Handable SyncStep) .new as store →
      (∀ e ∈ as, e.sched.currentTaskId = some Service.sync.task.val) →
      ∀ e ∈ as, ∀ waiter sent, e.grant = some (waiter, sent) → sent = .ok ()) :=
  ⟨fun hr _ _ _ _ _ hcur hasks hmay hused h =>
      keepsPermit_iff (syncStore_sound hr) hcur hasks hmay hused h,
    fun hr hcur => grants_delivered SyncStore.new_sound hr hcur⟩

def waitingExchanges : List SyncExchange :=
  [syncExchange 1 [0, 0, 1, 1] none (some 0), syncExchange 1 [1, 0] none (some 0),
    syncExchange 2 [1, 0] none none]

def bereftScheduler : Scheduler :=
  contendingScheduler.modify 2 (fun t => { t with state := .terminated })

theorem waitingExchanges_run : ∃ store out lost,
    Lib.Run SyncStep .new waitingExchanges store ∧ (store.objects firstObj).used = true ∧
    (store.objects firstObj).wait.contents = [2] ∧
    syncServiceMain contendingScheduler store 0 (syncMessage 1 [2, 0]) = some out ∧
    syncServiceMain bereftScheduler store 0 (syncMessage 1 [2, 0]) = some lost ∧
    lost.grant = some (2, .error .targetGone) ∧ (lost.store.objects firstObj).count = 0 ∧
    (lost.store.objects firstObj).wait.count = 0 :=
  ⟨_, _, _, .cons ⟨_, rfl⟩ (.cons ⟨_, rfl⟩ (.cons ⟨_, rfl⟩ (.nil _))), rfl, rfl, rfl, rfl, rfl, rfl,
    rfl⟩

/-- Task 2 lives, and the release gives it the mutex. -/
theorem release_keeps_permit_live : ∃ store out,
    Lib.Run SyncStep .new waitingExchanges store ∧
    syncServiceMain contendingScheduler store 0 (syncMessage 1 [2, 0]) = some out ∧
    KeepsPermit firstObj 0 out := by
  obtain ⟨store, out, _, hr, hused, hwait, hout, _⟩ := waitingExchanges_run
  have hhead : HeadReceptive contendingScheduler store firstObj := by
    intro waiter rest h
    cases hwait.symm.trans h
    decide
  exact ⟨store, out, hr, hout,
    ((release_keeps_permit _ _).1 hr contendingScheduler 0 (syncMessage 1 [2, 0]) firstObj out rfl
      (by decide) (by decide) hused hout).mpr hhead⟩

/-- The waiter died: it is taken off the queue, its reply fails, and the mutex is
left without permit, holder or waiter. -/
theorem permit_lost_to_dead_waiter : ∃ store out,
    Lib.Run SyncStep .new waitingExchanges store ∧
    syncServiceMain bereftScheduler store 0 (syncMessage 1 [2, 0]) = some out ∧
    out.grant = some (2, .error .targetGone) ∧ (out.store.objects firstObj).count = 0 ∧
    (out.store.objects firstObj).wait.count = 0 := by
  obtain ⟨store, _, lost, hr, _, _, _, hlost, hgrant, hcount, hempty⟩ := waitingExchanges_run
  exact ⟨store, lost, hr, hlost, hgrant, hcount, hempty⟩

end Runix
