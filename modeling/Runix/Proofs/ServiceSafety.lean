import Runix.Proofs.Device
import Runix.Proofs.Filesystem
import Runix.Proofs.Kv
import Runix.Proofs.Log
import Runix.Proofs.Sync
import Runix.Service.Round

namespace Runix

/-- What happens to the stores: a service serves a message the kernel delivered, a
key is pressed, a byte comes in. -/
inductive StoresEvent where
  | request (svc : Service) (s : Scheduler) (ticks : UInt64) (call : Nat) (msg : Message)
  | press (ascii : UInt8)
  | arrive (byte : UInt8)

def StoresStep (st : Stores) : StoresEvent → Stores → Prop
  | .request svc s ticks call msg, st' =>
    s.Serving svc ∧ msg.Deliverable ∧ ∃ replies, st.round svc s ticks call msg = some (st', replies)
  | .press ascii, st' => ∃ d, st.dev.press ascii = some d ∧ st' = { st with dev := d }
  | .arrive byte, st' => st' = { st with dev := st.dev.arrive byte }

def SyncStore.Queued (store : SyncStore) : Prop :=
  ∀ i, ∀ w ∈ (store.objects i).wait.contents, w < maxTasks

theorem SyncStore.Queued.set {store : SyncStore} (h : store.Queued) {i : Fin syncMaxObj}
    {obj : SyncObject} (hobj : ∀ w ∈ obj.wait.contents, w < maxTasks) :
    (store.set i obj).Queued := by
  intro j
  rw [set_objects]
  split
  · exact hobj
  · exact h j

theorem SyncEffect.queued_lt {s : Scheduler} {store : SyncStore} {msg : Message} {a : SyncAnswer}
    (h : SyncEffect s store msg a) (hsound : store.Sound) (hq : store.Queued)
    (hsender : msg.sender < maxTasks) :
    a.store.Queued ∧ ∀ w, a.granted = some w → w < maxTasks := by
  cases h with
  | refused | full => exact ⟨hq, fun _ hw => by cases hw⟩
  | created => exact ⟨hq.set (fun w hw => by cases hw), fun _ hw => by cases hw⟩
  | @admitted i | @returned i => exact ⟨hq.set (hq i), fun _ hw => by cases hw⟩
  | @queued i wait _ _ _ _ pushed =>
    refine ⟨hq.set (fun w hw => ?_), fun _ hw => by cases hw⟩
    change w ∈ wait.contents at hw
    rw [(hsound i).wait.contents_push pushed] at hw
    rcases List.mem_append.mp hw with hold | hnew
    · exact hq i w hold
    · rw [List.mem_singleton.mp hnew]
      exact hsender
  | @handed i waiter wait _ _ _ popped =>
    have hcontents := (hsound i).wait.contents_pop popped
    refine ⟨hq.set (fun w hw => hq i w ?_), fun w hw => ?_⟩
    · rw [hcontents]
      exact List.mem_cons_of_mem _ hw
    · cases hw
      exact hq i waiter (by rw [hcontents]; exact List.mem_cons_self)

def SyncStore.Overflows (store : SyncStore) (s : Scheduler) (msg : Message) : Prop :=
  ∃ i, msg.Asks 2 i ∧ s.MayUse msg ∧ (store.objects i).used = true ∧
    (store.objects i).isMutex = false ∧ (store.objects i).wait.count = 0 ∧
    2 ^ 31 ≤ (store.objects i).count + 1

theorem SyncStore.Sound.acquire {store : SyncStore} (h : store.Sound) (i : Fin syncMaxObj)
    (sender : TaskId) : ∃ a, store.acquire i sender = some a := by
  unfold SyncStore.acquire
  dsimp only
  split
  · exact ⟨_, rfl⟩
  · split
    · exact ⟨_, rfl⟩
    · obtain ⟨accepted, wait, hpush⟩ := (h i).wait.push_some sender
      rw [hpush, Option.bind_eq_bind, Option.bind_some]
      cases accepted with
      | true => exact ⟨_, rfl⟩
      | false => exact ⟨_, rfl⟩

theorem SyncObject.restored_none {obj : SyncObject} :
    obj.restored = none ↔ obj.isMutex = false ∧ 2 ^ 31 ≤ obj.count + 1 := by
  unfold restored incrI32
  cases obj.isMutex with
  | true => simp
  | false =>
    simp only [Bool.false_eq_true, if_false, true_and]
    split
    · rename_i hroom
      refine ⟨fun h => ?_, fun hbig => absurd hroom (Int.not_lt.mpr hbig)⟩
      cases h
    · rename_i hfull
      exact ⟨fun _ => Int.not_lt.mp hfull, fun _ => rfl⟩

theorem SyncStore.Sound.release {store : SyncStore} (h : store.Sound) (i : Fin syncMaxObj) :
    store.release i = none ↔ (store.objects i).used = true ∧ (store.objects i).isMutex = false ∧
      (store.objects i).wait.count = 0 ∧ 2 ^ 31 ≤ (store.objects i).count + 1 := by
  unfold SyncStore.release
  dsimp only
  cases hused : (store.objects i).used with
  | false => simp
  | true =>
    rw [if_neg (by decide)]
    obtain ⟨waiter, wait, hpop⟩ := (h i).wait.pop_some
    rw [hpop, Option.bind_eq_bind, Option.bind_some]
    cases waiter with
    | some waiter =>
      have hwaits : (store.objects i).wait.count ≠ 0 := fun hzero => by
        cases (Lib.Circular.pop_empty hzero).symm.trans hpop
      exact ⟨fun hnone => (by cases hnone), fun hbad => absurd hbad.2.2.1 hwaits⟩
    | none =>
      have hidle := (h i).wait.pop_none hpop
      simp only
      cases hrestored : (store.objects i).restored with
      | none =>
        obtain ⟨hmutex, hbig⟩ := SyncObject.restored_none.mp hrestored
        exact ⟨fun _ => ⟨trivial, hmutex, hidle, hbig⟩, fun _ => rfl⟩
      | some count =>
        refine ⟨fun hnone => (by cases hnone), fun ⟨_, hmutex, _, hbig⟩ => ?_⟩
        cases hrestored.symm.trans (SyncObject.restored_none.mpr ⟨hmutex, hbig⟩)

theorem syncService_release {s : Scheduler} {msg : Message} {i : Fin syncMaxObj}
    (hasks : msg.Asks 2 i) (hmay : s.MayUse msg) (store : SyncStore) :
    syncService s store msg = store.release i := by
  obtain ⟨htag, hlen, hop, hid⟩ := hasks
  have hlt : (msg.byte 1).toNat < syncMaxObj := hid ▸ i.isLt
  have hi : (⟨(msg.byte 1).toNat, hlt⟩ : Fin syncMaxObj) = i := Fin.ext hid
  unfold syncService
  rw [if_neg (by simp [htag]), if_neg (by omega)]
  dsimp only
  rw [dif_pos hlt, hop]
  simp only
  rw [if_neg (by simpa [Scheduler.MayUse] using hmay), hi]

theorem SyncStore.Sound.service {store : SyncStore} (h : store.Sound) (s : Scheduler)
    (msg : Message) : syncService s store msg = none ↔ store.Overflows s msg := by
  constructor
  · intro hnone
    by_cases hrelease : ∃ i, msg.Asks 2 i ∧ s.MayUse msg
    · obtain ⟨i, hasks, hmay⟩ := hrelease
      rw [syncService_release hasks hmay] at hnone
      exact ⟨i, hasks, hmay, (h.release i).mp hnone⟩
    · unfold syncService at hnone
      split at hnone
      · cases hnone
      · rename_i htag
        split at hnone
        · cases hnone
        · rename_i hlen
          dsimp only at hnone
          split at hnone
          · rename_i hid
            split at hnone
            · cases hnone
            · split at hnone
              · cases hnone
              · obtain ⟨a, ha⟩ := h.acquire ⟨(msg.byte 1).toNat, hid⟩ msg.sender
                cases ha.symm.trans hnone
            · rename_i hop
              split at hnone
              · cases hnone
              · rename_i hyes
                exact absurd ⟨⟨_, hid⟩, ⟨not_not.mp htag, by omega, hop, rfl⟩,
                  by simpa [Scheduler.MayUse] using hyes⟩ hrelease
            · cases hnone
          · cases hnone
  · rintro ⟨i, hasks, hmay, hbad⟩
    rw [syncService_release hasks hmay]
    exact (h.release i).mpr hbad

def LogState.Numbered (state : LogState) : Prop := state.log.writePos < 2 ^ 64

theorem LogState.publish_handles (state : LogState) (ticks : UInt64) (msg : Message) :
    Handles (state.publish ticks msg) LogState.Numbered
      (2 ^ 64 ≤ state.log.writePos + 1) := by
  obtain ⟨entry, hentry, _⟩ := publishedEntry_spec ticks msg
  unfold publish LogRingBuffer.push addU64
  rw [hentry, Option.bind_eq_bind, Option.bind_some]
  refine ⟨fun hfull => ?_, fun hroom => ?_⟩
  · rw [if_neg (Nat.not_lt.mpr hfull)]
    rfl
  · have hlt := Nat.not_le.mp hroom
    rw [if_pos hlt]
    exact ⟨_, _, rfl, Answer.bytes_status _ 0, hlt⟩

theorem LogState.read_some {state : LogState} (hpos : state.Numbered) {sender : TaskId}
    (hs : sender < maxTasks) (kind : UInt8) : ∃ a reply, state.read sender kind = some a ∧
      a.bytes = some reply ∧ a.store.Numbered := by
  unfold read
  rw [Lib.index_of_lt hs, Option.bind_eq_bind, Option.bind_some]
  cases hfind : state.log.find kind (state.start (state.cursors ⟨sender, hs⟩)) with
  | none =>
    simp only
    rw [Lib.assign_of_lt hs, Option.bind_eq_bind, Option.bind_some]
    exact ⟨_, _, rfl, Answer.bytes_status _ 2, hpos⟩
  | some found =>
    obtain ⟨idx, entry⟩ := found
    have hidx : idx < state.log.writePos := (LogState.next_some (r := ⟨sender, hs⟩) hfind).2.1
    have hadd : addU64 idx 1 = some (idx + 1) := if_pos (Nat.lt_of_le_of_lt hidx hpos)
    obtain ⟨reply, hreply, hbegins⟩ := entryReply_spec entry
    simp only
    rw [hadd, Option.bind_eq_bind, Option.bind_some, Lib.assign_of_lt hs, Option.bind_eq_bind,
      Option.bind_some, hreply, Option.bind_some]
    exact ⟨_, _, rfl, Answer.bytes_of_begins hbegins entry.length_encoding.symm (by decide), hpos⟩

/-- The kind a well-formed request names and whether it publishes, or the status
that refuses it. -/
def Message.logCall (msg : Message) : Except UInt8 (UInt8 × Bool) :=
  match msg.tag with
  | .logPublish =>
    if msg.len < 1 then .error 2
    else if (msg.byte 0).toNat ≥ 16 then .error 3 else .ok (msg.byte 0, true)
  | .logRead =>
    if msg.len < 1 then .error 3
    else if (msg.byte 0).toNat ≥ 16 then .error 3 else .ok (msg.byte 0, false)
  | _ => .error 3

/-- The service decodes, checks the capability, and publishes or reads. -/
theorem logService_eq (s : Scheduler) (ticks : UInt64) (state : LogState) (msg : Message) :
    logService s ticks state msg =
      match msg.logCall with
      | .error code => some (.status state code)
      | .ok (kind, publish) =>
        if s.checkLogSenderCap msg.sender kind publish then
          if publish then state.publish ticks msg else state.read msg.sender kind
        else some (.status state 1) := by
  unfold logService Message.logCall
  cases msg.tag with
  | logPublish | logRead =>
    dsimp only
    split
    · rfl
    · split
      · rfl
      · exact refuse_last _ _ _
  | _ => rfl

def LogState.Exhausted (state : LogState) (s : Scheduler) (msg : Message) : Prop :=
  ∃ kind, msg.logCall = .ok (kind, true) ∧ s.checkLogSenderCap msg.sender kind true = true ∧
    2 ^ 64 ≤ state.log.writePos + 1

theorem logService_handles {state : LogState} (hpos : state.Numbered) {msg : Message}
    (hs : msg.sender < maxTasks) (s : Scheduler) (ticks : UInt64) :
    Handles (logService s ticks state msg) LogState.Numbered
      (state.Exhausted s msg) := by
  rw [logService_eq]
  unfold LogState.Exhausted
  cases hcall : msg.logCall with
  | error code =>
    refine .status (fun ⟨kind, hk, _⟩ => ?_) hpos code
    cases hk
  | ok call =>
    obtain ⟨kind, publish⟩ := call
    simp only
    cases hcheck : s.checkLogSenderCap msg.sender kind publish with
    | false =>
      refine .status (fun ⟨kind', hk, hyes, _⟩ => ?_) hpos 1
      cases hk
      cases hcheck.symm.trans hyes
    | true =>
      cases publish with
      | false =>
        refine ⟨fun ⟨kind', hk, _⟩ => ?_, fun _ => LogState.read_some hpos hs kind⟩
        cases hk
      | true =>
        have hpublish := state.publish_handles ticks msg
        exact ⟨fun ⟨_, _, _, hfull⟩ => hpublish.fails hfull,
          fun hno => hpublish.returns (fun hfull => hno ⟨kind, rfl, hcheck, hfull⟩)⟩

namespace Stores

structure Sound (st : Stores) : Prop where
  log : st.log.Numbered
  fs : st.fs.Sound
  dev : st.dev.Sound
  sync : st.sync.Sound
  queued : st.sync.Queued

theorem new_sound : Stores.new.Sound where
  log := Nat.two_pow_pos 64
  fs := FsStore.new_sound
  dev := Lib.Circular.new_wf (by decide) 0
  sync := SyncStore.new_sound
  queued _ _ h := by cases h

def Fatal (st : Stores) (svc : Service) (s : Scheduler) (msg : Message) : Prop :=
  match svc with
  | .fs => msg.ListsNothing s
  | .log => st.log.Exhausted s msg
  | .sync => st.sync.Overflows s msg
  | .kv | .device => False

end Stores

theorem SyncServed.replies_length (out : SyncServed) : ∀ r ∈ out.replies, r.length ≤ 128 := by
  intro r hr
  rcases List.mem_append.mp hr with h | h
  · obtain ⟨_, _, rfl⟩ := List.mem_map.mp h
    exact Nat.le_of_ble_eq_true rfl
  · obtain ⟨_, _, rfl⟩ := List.mem_map.mp h
    exact Nat.le_of_ble_eq_true rfl

theorem syncServiceMain_handles {s : Scheduler} (hs : s.Serving .sync) {msg : Message}
    (hmsg : msg.Deliverable) {store : SyncStore} (hsound : store.Sound) (hqueued : store.Queued)
    (call : Nat) : (store.Overflows s msg → syncServiceMain s store call msg = none) ∧
      (¬ store.Overflows s msg → ∃ out, syncServiceMain s store call msg = some out ∧
        out.store.Sound ∧ out.store.Queued) := by
  refine ⟨fun hover => ?_, fun hno => ?_⟩
  · rw [syncServiceMain, (hsound.service s msg).mpr hover]
    rfl
  · obtain ⟨a, ha⟩ := Option.ne_none_iff_exists'.mp (fun h => hno ((hsound.service s msg).mp h))
    have heffect := syncService_effect ha
    obtain ⟨hq, hw⟩ := heffect.queued_lt hsound hqueued hmsg.sender_lt
    obtain ⟨out, hout, hstore⟩ := syncServiceMain_of_service hs hmsg.sender_lt ha hw call
    exact ⟨out, hout, hstore ▸ heffect.sound hsound, hstore ▸ hq⟩

namespace Stores
variable {st : Stores} {svc : Service} {s : Scheduler} {msg : Message}

/-- From stores in order a round returns, with replies that fit and stores in order,
unless the request is one of the fatal ones. -/
theorem Sound.round (h : st.Sound) (hs : s.Serving svc) (hmsg : msg.Deliverable) (ticks : UInt64)
    (call : Nat) : (st.Fatal svc s msg → st.round svc s ticks call msg = none) ∧
      (¬ st.Fatal svc s msg → ∃ st' replies,
        st.round svc s ticks call msg = some (st', replies) ∧ st'.Sound ∧
          ∀ r ∈ replies, r.length ≤ 128) := by
  have hone : ∀ {l : List UInt8}, l.length ≤ 128 → ∀ r ∈ [l], r.length ≤ 128 := by
    intro l hl r hr
    rwa [List.mem_singleton.mp hr]
  cases svc with
  | kv =>
    refine ⟨False.elim, fun hno => ?_⟩
    obtain ⟨out, hout, _, hlen⟩ := ((kvService_handles s st.kv msg).served hs hmsg.sender_lt call).2 hno
    exact ⟨{ st with kv := out.store }, [out.reply], congrArg (Option.map _) hout,
      ⟨h.log, h.fs, h.dev, h.sync, h.queued⟩, hone hlen⟩
  | device =>
    refine ⟨False.elim, fun hno => ?_⟩
    obtain ⟨out, hout, hwf, hlen⟩ :=
      ((devService_handles h.dev s msg).served hs hmsg.sender_lt call).2 hno
    exact ⟨{ st with dev := out.store }, [out.reply], congrArg (Option.map _) hout,
      ⟨h.log, h.fs, hwf, h.sync, h.queued⟩, hone hlen⟩
  | log =>
    obtain ⟨hfails, hreturns⟩ :=
      (logService_handles h.log hmsg.sender_lt s ticks).served hs hmsg.sender_lt call
    refine ⟨fun hfatal => congrArg (Option.map _) (hfails hfatal), fun hno => ?_⟩
    obtain ⟨out, hout, hpos, hlen⟩ := hreturns hno
    exact ⟨{ st with log := out.store }, [out.reply], congrArg (Option.map _) hout,
      ⟨hpos, h.fs, h.dev, h.sync, h.queued⟩, hone hlen⟩
  | fs =>
    obtain ⟨hfails, hreturns⟩ := (h.fs.service s msg).served hs hmsg.sender_lt call
    refine ⟨fun hfatal => congrArg (Option.map _) (hfails hfatal), fun hno => ?_⟩
    obtain ⟨out, hout, hfs, hlen⟩ := hreturns hno
    exact ⟨{ st with fs := out.store }, [out.reply], congrArg (Option.map _) hout,
      ⟨h.log, hfs, h.dev, h.sync, h.queued⟩, hone hlen⟩
  | sync =>
    obtain ⟨hfails, hreturns⟩ := syncServiceMain_handles hs hmsg h.sync h.queued call
    refine ⟨fun hfatal => congrArg (Option.map _) (hfails hfatal), fun hno => ?_⟩
    obtain ⟨out, hout, hsync, hqueued⟩ := hreturns hno
    exact ⟨{ st with sync := out.store }, out.replies, congrArg (Option.map _) hout,
      ⟨h.log, h.fs, h.dev, hsync, hqueued⟩, out.replies_length⟩

theorem Sound.step (h : st.Sound) {e : StoresEvent} {st' : Stores} (hstep : StoresStep st e st') :
    st'.Sound := by
  cases e with
  | request svc s ticks call msg =>
    obtain ⟨hs, hmsg, replies, hround⟩ := hstep
    obtain ⟨hfails, hreturns⟩ := h.round hs hmsg ticks call
    by_cases hfatal : st.Fatal svc s msg
    · cases (hfails hfatal).symm.trans hround
    · obtain ⟨st₁, replies₁, hround₁, hsound, _⟩ := hreturns hfatal
      cases hround₁.symm.trans hround
      exact hsound
  | press ascii =>
    obtain ⟨d, hpress, rfl⟩ := hstep
    obtain ⟨⟨_, q⟩, hpush, rfl⟩ := Option.map_eq_some_iff.mp hpress
    exact ⟨h.log, h.fs, Lib.Circular.Wf.push h.dev hpush, h.sync, h.queued⟩
  | arrive byte =>
    cases hstep
    exact ⟨h.log, h.fs, h.dev, h.sync, h.queued⟩

end Stores

theorem stores_sound {as : List StoresEvent} {st : Stores} (hr : Lib.Run StoresStep .new as st) :
    st.Sound :=
  hr.invariant (P := Stores.Sound) Stores.new_sound (fun _ _ _ h hstep => h.step hstep)

/-- In every state the services reach, a round on a deliverable message goes through
with replies of at most 128 bytes exactly if the request is not fatal. -/
theorem service_round_safe {as : List StoresEvent} {st : Stores}
    (hr : Lib.Run StoresStep .new as st) {svc : Service} {s : Scheduler} (hs : s.Serving svc)
    {msg : Message} (hmsg : msg.Deliverable) (ticks : UInt64) (call : Nat) :
    (∃ st' replies, st.round svc s ticks call msg = some (st', replies) ∧
      ∀ r ∈ replies, r.length ≤ 128) ↔ ¬ st.Fatal svc s msg := by
  obtain ⟨hfails, hreturns⟩ := (stores_sound hr).round hs hmsg ticks call
  constructor
  · rintro ⟨st', replies, hround, _⟩ hfatal
    cases (hfails hfatal).symm.trans hround
  · intro hno
    obtain ⟨st', replies, hround, _, hlen⟩ := hreturns hno
    exact ⟨st', replies, hround, hlen⟩

/-- A file is written and a key pressed; then the service is asked to read the file. -/
theorem service_round_safe_greeting : ∃ st st' replies,
    Lib.Run StoresStep .new
      [.request .fs filingScheduler 0 0 (fsMessage 1 greetingWrite), .press 104, .arrive 105] st ∧
    st.round .fs filingScheduler 0 1 (fsMessage 1 [2, 0, 2, 47, 97]) = some (st', replies) ∧
      ∀ r ∈ replies, r.length ≤ 128 := by
  obtain ⟨st, hr⟩ : ∃ st, Lib.Run StoresStep .new
      [.request .fs filingScheduler 0 0 (fsMessage 1 greetingWrite), .press 104, .arrive 105] st :=
    ⟨_, .cons ⟨by decide, ⟨by decide, by decide⟩, _, rfl⟩
      (.cons ⟨_, rfl, rfl⟩ (.cons rfl (.nil _)))⟩
  have hsafe : ¬ st.Fatal .fs filingScheduler (fsMessage 1 [2, 0, 2, 47, 97]) := by
    rintro ⟨c, hc, _, hls, _⟩
    cases hc
    cases hls
  obtain ⟨st', replies, hround⟩ :=
    (service_round_safe hr (by decide) ⟨by decide, by decide⟩ 0 1).mpr hsafe
  exact ⟨st, st', replies, hr, hround⟩

/-- A listing of the empty name, by a task that may read the mount: the service
looks at the byte before the first one. -/
theorem empty_listing_panics :
    filingScheduler.Serving .fs ∧ (fsMessage 1 [3, 0, 0]).Deliverable ∧
      Stores.new.round .fs filingScheduler 0 0 (fsMessage 1 [3, 0, 0]) = none :=
  ⟨by decide, ⟨by decide, by decide⟩, rfl⟩

end Runix
