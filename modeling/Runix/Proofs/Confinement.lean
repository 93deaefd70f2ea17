import Runix.Proofs.Mutex
import Runix.Proofs.ServiceSafety

namespace Runix

/-- The capability, given by its test, that the operation a message asks of a
service needs on the object the message names. -/
def Message.Needs (msg : Message) : Service → (Capability → Bool) → Prop
  | .kv, ok => 1 ≤ msg.len ∧ ∃ write : Bool, msg.tag = (if write then .kvSet else .kvGet) ∧
      ok = Capability.permits (Resource.kvFlags (msg.byte 0).toNat) write
  | .log, ok => 1 ≤ msg.len ∧ ∃ write : Bool, msg.tag = (if write then .logPublish else .logRead) ∧
      ok = Capability.permits (Resource.logFlags (msg.byte 0)) write
  | .fs, ok => msg.tag = .fsOp ∧ 3 ≤ msg.len ∧ ∃ request, msg.fsRequest = some request ∧
      ok = Capability.permits (Resource.fsFlags (msg.byte 1)) request.needsWrite
  | .device, ok => msg.tag = .devOp ∧ 2 ≤ msg.len ∧
      ∃ write : Bool, (msg.byte 0).toNat = (if write then 1 else 0) ∧
        ok = Capability.permits (Resource.devFlags (msg.byte 1)) write
  | .sync, ok => msg.tag = .syncOp ∧ 2 ≤ msg.len ∧ (msg.byte 0).toNat ≤ 2 ∧
      ok = fun cap : Capability => decide (cap.resource = .syncObj (msg.byte 1))

def Scheduler.Lacks (s : Scheduler) (svc : Service) (msg : Message) : Prop :=
  ∀ ok, msg.Needs svc ok → ¬ s.Holds msg.sender ok

theorem Scheduler.Lacks.check {s : Scheduler} {svc : Service} {msg : Message} (h : s.Lacks svc msg)
    {ok : Capability → Bool} (hneeds : msg.Needs svc ok) : s.checkCap msg.sender ok = false := by
  rw [← Bool.not_eq_true, checkCap_iff]
  exact h ok hneeds

/-- Whether a task lacks a capability depends on its table alone. -/
theorem Scheduler.Lacks.congr {s₁ s₂ : Scheduler} {svc : Service} {msg : Message}
    (htable : s₁.tableOf msg.sender = s₂.tableOf msg.sender) (h : s₁.Lacks svc msg) :
    s₂.Lacks svc msg := by
  rintro ok hneeds ⟨t, i, cap, ht, hcap, hok⟩
  exact h ok hneeds ⟨t, i, cap, htable.trans ht, hcap, hok⟩

theorem Message.kvCall_needs {msg : Message} {i : Fin kvSlots} {write : Bool}
    (h : msg.kvCall = some (i, write)) :
    msg.Needs .kv (Capability.permits (Resource.kvFlags i) write) := by
  unfold kvCall at h
  split at h
  · split at h
    · rename_i htag
      split at h
      · rename_i hlen
        cases h
        exact ⟨hlen, false, htag, rfl⟩
      · cases h
    · rename_i htag
      split at h
      · rename_i hlen
        cases h
        exact ⟨by omega, true, htag, rfl⟩
      · cases h
    · cases h
  · cases h

theorem Message.logCall_needs {msg : Message} {kind : UInt8} {write : Bool}
    (h : msg.logCall = .ok (kind, write)) :
    msg.Needs .log (Capability.permits (Resource.logFlags kind) write) := by
  unfold logCall at h
  split at h
  · rename_i htag
    split at h
    · cases h
    · split at h
      · cases h
      · cases h
        exact ⟨by omega, true, htag, rfl⟩
  · rename_i htag
    split at h
    · cases h
    · split at h
      · cases h
      · cases h
        exact ⟨by omega, false, htag, rfl⟩
  · cases h

theorem Message.fsCall_needs {msg : Message} {c : FsCall} (h : msg.fsCall = some c) :
    msg.Needs .fs (Capability.permits (Resource.fsFlags c.key.1) c.request.needsWrite) := by
  obtain ⟨path, hpath, h⟩ := Option.bind_eq_some_iff.mp h
  obtain ⟨request, hrequest, h⟩ := Option.bind_eq_some_iff.mp h
  cases h
  unfold fsPath at hpath
  split at hpath
  · rename_i hok
    exact ⟨hok.1, hok.2.1, request, hrequest, rfl⟩
  · cases hpath

theorem Message.devCall_needs {msg : Message} {dev : DeviceId} {write : Bool}
    (h : msg.devCall = some (dev, write)) :
    msg.Needs .device (Capability.permits (Resource.devFlags (msg.byte 1)) write) := by
  unfold devCall at h
  split at h
  · rename_i hok
    split at h
    · rename_i _ hop
      cases h
      exact ⟨hok.1, hok.2, false, hop, rfl⟩
    · rename_i _ hop
      cases h
      exact ⟨hok.1, hok.2, true, hop, rfl⟩
    · cases h
  · cases h

def Message.refusal (msg : Message) : Service → UInt8
  | .kv => if msg.kvCall.isSome then 1 else 2
  | .log =>
    match msg.logCall with
    | .error code => code
    | .ok _ => 1
  | .fs => if msg.fsCall.isSome then 1 else 4
  | .device => if msg.devCall.isSome then 1 else 3
  | .sync =>
    if msg.tag = .syncOp ∧ 2 ≤ msg.len ∧ (msg.byte 1).toNat < syncMaxObj ∧
      ((msg.byte 0).toNat = 1 ∨ (msg.byte 0).toNat = 2) then 1 else 2

section
variable {s : Scheduler} {msg : Message}

theorem kvService_lacks (h : s.Lacks .kv msg) (store : KvStore) :
    kvService s store msg = some (.status store (msg.refusal .kv)) := by
  rw [kvService_eq, Message.refusal]
  cases hcall : msg.kvCall with
  | none => rfl
  | some call =>
    obtain ⟨i, write⟩ := call
    have hcheck : s.checkSenderCap msg.sender i write = false := h.check (Message.kvCall_needs hcall)
    simp only [hcheck]
    rfl

theorem logService_lacks (h : s.Lacks .log msg) (ticks : UInt64) (state : LogState) :
    logService s ticks state msg = some (.status state (msg.refusal .log)) := by
  rw [logService_eq, Message.refusal]
  cases hcall : msg.logCall with
  | error code => rfl
  | ok call =>
    obtain ⟨kind, write⟩ := call
    have hcheck : s.checkLogSenderCap msg.sender kind write = false :=
      h.check (Message.logCall_needs hcall)
    simp only [hcheck]
    rfl

theorem fsService_lacks (h : s.Lacks .fs msg) (store : FsStore) :
    fsService s store msg = some (.status store (msg.refusal .fs)) := by
  rw [fsService_eq, Message.refusal]
  cases hcall : msg.fsCall with
  | none => rfl
  | some c =>
    have hcheck : s.fsCheckCap msg.sender c.key.1 c.request.needsWrite = false :=
      h.check (Message.fsCall_needs hcall)
    simp only [hcheck]
    rfl

theorem devService_lacks (h : s.Lacks .device msg) (d : Devices) :
    devService s d msg = some (.status d (msg.refusal .device)) := by
  rw [devService_eq, Message.refusal]
  cases hcall : msg.devCall with
  | none => rfl
  | some call =>
    obtain ⟨dev, write⟩ := call
    have hcheck : s.devCheckCap msg.sender (msg.byte 1) write = false :=
      h.check (Message.devCall_needs hcall)
    simp only [hcheck]
    rfl

/-- A status alone is always sent. -/
theorem Scheduler.Serving.status {σ : Type} {svc : Service} (hs : s.Serving svc)
    (hmsg : msg.Deliverable) {o : Option (Answer σ)} {store : σ} {code : UInt8}
    (ho : o = some (.status store code)) (call : Nat) :
    ∃ sched sent, o.bind (s.answer svc call msg.sender) = some ⟨sched, store, [code], sent⟩ := by
  obtain ⟨sched, sent, h⟩ := hs.answer hmsg.sender_lt (Answer.bytes_status store code) call
  exact ⟨sched, sent, by rw [ho, Option.bind_some, h]; rfl⟩

/-- The service answers by a status and its store stays. -/
theorem Scheduler.Lacks.round {svc : Service} (h : s.Lacks svc msg) (hsvc : svc ≠ .sync)
    (hs : s.Serving svc) (hmsg : msg.Deliverable) (st : Stores) (ticks : UInt64) (call : Nat) :
    st.round svc s ticks call msg = some (st, [[msg.refusal svc]]) := by
  cases svc with
  | kv =>
    obtain ⟨sched, sent, hround⟩ := hs.status hmsg (kvService_lacks h st.kv) call
    exact congrArg (Option.map _) hround
  | log =>
    obtain ⟨sched, sent, hround⟩ := hs.status hmsg (logService_lacks h ticks st.log) call
    exact congrArg (Option.map _) hround
  | fs =>
    obtain ⟨sched, sent, hround⟩ := hs.status hmsg (fsService_lacks h st.fs) call
    exact congrArg (Option.map _) hround
  | device =>
    obtain ⟨sched, sent, hround⟩ := hs.status hmsg (devService_lacks h st.dev) call
    exact congrArg (Option.map _) hround
  | sync => exact absurd rfl hsvc

end

/-- Two runs of a service on a message whose sender lacks the capability it needs
send the same reply, and leave every store as it was. -/
theorem unauthorised_reply_constant {svc : Service} (hsvc : svc ≠ .sync) {s₁ s₂ : Scheduler}
    {msg : Message} (hmsg : msg.Deliverable)
    (htable : s₁.tableOf msg.sender = s₂.tableOf msg.sender) (hlacks : s₁.Lacks svc msg)
    (hs₁ : s₁.Serving svc) (hs₂ : s₂.Serving svc) (st₁ st₂ : Stores) (ticks₁ ticks₂ : UInt64)
    (call₁ call₂ : Nat) : ∃ reply, st₁.round svc s₁ ticks₁ call₁ msg = some (st₁, [reply]) ∧
      st₂.round svc s₂ ticks₂ call₂ msg = some (st₂, [reply]) :=
  ⟨[msg.refusal svc], hlacks.round hsvc hs₁ hmsg st₁ ticks₁ call₁,
    (hlacks.congr htable).round hsvc hs₂ hmsg st₂ ticks₂ call₂⟩

/-- Task 2 has no capability and reads a file, before it is written and after. -/
theorem unauthorised_reply_constant_read : ∃ st replies reply,
    Stores.new.round .fs filingScheduler 0 0 (fsMessage 1 greetingWrite) = some (st, replies) ∧
    Stores.new.round .fs filingScheduler 0 0 (fsMessage 2 [2, 0, 2, 47, 97]) =
      some (.new, [reply]) ∧
    st.round .fs filingScheduler 0 0 (fsMessage 2 [2, 0, 2, 47, 97]) = some (st, [reply]) := by
  obtain ⟨st, replies, hwrite⟩ : ∃ st replies,
      Stores.new.round .fs filingScheduler 0 0 (fsMessage 1 greetingWrite) = some (st, replies) :=
    ⟨_, _, rfl⟩
  have hlacks : filingScheduler.Lacks .fs (fsMessage 2 [2, 0, 2, 47, 97]) := by
    rintro ok _ ⟨t, i, cap, ht, _⟩
    cases ht
  obtain ⟨reply, hbefore, hafter⟩ := unauthorised_reply_constant (by decide)
    ⟨by decide, by decide⟩ rfl hlacks (by decide) (by decide) .new st 0 0 0 0
  exact ⟨st, replies, reply, hwrite, hbefore, hafter⟩

def SyncGated (s : Scheduler) (msg : Message) : Prop :=
  ∃ code : UInt8, code ≠ 0 ∧
    ∀ (st : Stores) ticks call, st.round .sync s ticks call msg = some (st, [[code]])

theorem syncService_lacks {s : Scheduler} {msg : Message} (hno : ¬ s.MayUse msg)
    (hcreate : ∀ i, ¬ msg.Asks 0 i) (store : SyncStore) :
    syncService s store msg = some (.refuse store (msg.refusal .sync)) := by
  have hcheck : s.syncCheckCap msg.sender (msg.byte 1) = false := by
    simpa [Scheduler.MayUse] using hno
  unfold syncService
  by_cases hcond : msg.tag = .syncOp ∧ 2 ≤ msg.len ∧ (msg.byte 1).toNat < syncMaxObj ∧
      ((msg.byte 0).toNat = 1 ∨ (msg.byte 0).toNat = 2)
  · obtain ⟨htag, hlen, hid, hop⟩ := hcond
    have hrefusal : msg.refusal .sync = 1 := if_pos ⟨htag, hlen, hid, hop⟩
    rw [hrefusal, if_neg (by simp [htag]), if_neg (by omega)]
    dsimp only
    rw [dif_pos hid, hcheck]
    rcases hop with hop | hop
    · rw [hop]
      rfl
    · rw [hop]
      rfl
  · have hrefusal : msg.refusal .sync = 2 := if_neg hcond
    rw [hrefusal]
    split
    · rfl
    · rename_i htag
      split
      · rfl
      · rename_i hlen
        dsimp only
        split
        · rename_i hid
          split
          · rename_i hop
            exact absurd ⟨not_not.mp htag, by omega, hop, rfl⟩ (hcreate ⟨_, hid⟩)
          · rename_i hop
            exact absurd ⟨not_not.mp htag, by omega, hid, .inl hop⟩ hcond
          · rename_i hop
            exact absurd ⟨not_not.mp htag, by omega, hid, .inr hop⟩ hcond
          · rfl
        · rfl

theorem Message.refusal_sync_ne {msg : Message} : msg.refusal .sync ≠ 0 := by
  change (if _ then (1 : UInt8) else 2) ≠ 0
  split
  · decide
  · decide

/-- Without a capability for the object its message names a task is refused exactly
if it does not ask to create the object. -/
theorem sync_gated_iff {s : Scheduler} (hs : s.Serving .sync) {msg : Message}
    (hmsg : msg.Deliverable)
    (hno : ¬ s.Holds msg.sender (fun cap => cap.resource = .syncObj (msg.byte 1))) :
    SyncGated s msg ↔ ∀ i, ¬ msg.Asks 0 i := by
  have hmay : ¬ s.MayUse msg := fun h => hno (Scheduler.checkCap_iff.mp h)
  constructor
  · rintro ⟨code, _, hround⟩ i hasks
    obtain ⟨out, hout, heq⟩ := Option.map_eq_some_iff.mp (hround .new 0 0)
    obtain ⟨a, _, ha, _, hstore, _⟩ := syncServiceMain_some hout
    have hcreated := (syncService_effect ha).creates hasks rfl
    have hsame : out.store = SyncStore.new := congrArg (fun p => p.1.sync) heq
    rw [hstore, hsame] at hcreated
    cases congrArg SyncObject.used hcreated
  · intro hcreate
    refine ⟨msg.refusal .sync, Message.refusal_sync_ne, fun st ticks call => ?_⟩
    have ha := syncService_lacks hmay hcreate st.sync
    obtain ⟨out, hout, hstore⟩ := syncServiceMain_of_service hs hmsg.sender_lt ha
      (fun w hw => by cases hw) call
    obtain ⟨a, s₁, ha', hgrant, _, hstatus, _⟩ := syncServiceMain_some hout
    cases ha.symm.trans ha'
    have hreplies : out.replies = [[msg.refusal .sync]] := by
      have hnone : out.grant = none := by
        have := Scheduler.syncGrant_granted hgrant
        exact (Option.map_eq_none_iff.mp this.symm)
      obtain ⟨⟨code, sent⟩, hreply, hcode⟩ := Option.map_eq_some_iff.mp hstatus.symm
      rw [SyncServed.replies, hnone, hreply, ← hcode]
      rfl
    change (syncServiceMain s st.sync call msg).map _ = _
    rw [hout, Option.map_some, hstore, hreplies]
    rfl

/-- An acquire without the capability. -/
theorem sync_gated_iff_acquire : SyncGated contendingScheduler (syncMessage 1 [1, 5]) :=
  (sync_gated_iff (by decide) ⟨by decide, by decide⟩
    (fun h => absurd (Scheduler.checkCap_iff.mpr h) (by decide))).mpr (by decide)

def otherObj : Fin syncMaxObj := ⟨5, by decide⟩

/-- Task 1 has no capability for object 5 and creates it, as a mutex without
permits. -/
theorem create_ungated : contendingScheduler.syncCheckCap 1 5 = false ∧
    (Stores.new.sync.objects otherObj).used = false ∧
    ∃ st, Stores.new.round .sync contendingScheduler 0 0 (syncMessage 1 [0, 5, 1, 0]) =
        some (st, [[0]]) ∧
      (st.sync.objects otherObj).used = true :=
  ⟨by decide, rfl, _, rfl, rfl⟩

end Runix
