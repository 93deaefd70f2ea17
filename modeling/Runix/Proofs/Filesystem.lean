import Runix.Proofs.Fs

namespace Runix

structure FsExchange where
  sched : Scheduler
  call : Nat
  msg : Message
  reply : List UInt8

namespace FsExchange

/-- The sender's table has a capability for the mount its message names, with the
flag and the right to write, or to read. -/
def May (e : FsExchange) (write : Bool) : Prop :=
  e.sched.Holds e.msg.sender (Capability.permits (Resource.fsFlags (e.msg.byte 1)) write)

end FsExchange

/-- The service turns one store into the next. In between tasks may run, die, gain
or lose capabilities. -/
def FsStep (store : FsStore) (e : FsExchange) (store' : FsStore) : Prop :=
  ∃ sched' sent, fsServiceMain e.sched store e.call e.msg = some ⟨sched', store', e.reply, sent⟩

theorem Message.fsCall_mount {msg : Message} {c : FsCall} (h : msg.fsCall = some c) :
    c.key.1 = msg.byte 1 := by
  obtain ⟨path, _, h⟩ := Option.bind_eq_some_iff.mp h
  obtain ⟨request, _, h⟩ := Option.bind_eq_some_iff.mp h
  cases h
  rfl

/-- A round that returns is a transition of the map. -/
theorem FsStore.Sound.step {store store' : FsStore} {e : FsExchange} (h : store.Sound)
    (hstep : FsStep store e store') :
    store'.Sound ∧ FsTransition e.May store.map e.msg.fsCall store'.map e.reply := by
  obtain ⟨sched', sent, hmain⟩ := hstep
  obtain ⟨a, ha, hmain⟩ := Option.bind_eq_some_iff.mp hmain
  obtain ⟨hstore, hbytes⟩ := Scheduler.answer_some hmain
  change a.store = store' at hstore
  change a.bytes = some e.reply at hbytes
  subst hstore
  have hstatus : ∀ code : UInt8, a = .status store code → a.store = store ∧ e.reply = [code] := by
    intro code hcode
    subst hcode
    exact ⟨rfl, Option.some.inj (hbytes.symm.trans (Answer.bytes_status store code))⟩
  rw [fsService_eq] at ha
  cases hcall : e.msg.fsCall with
  | none =>
    rw [hcall] at ha
    obtain ⟨hsame, hreply⟩ := hstatus 4 (Option.some.inj ha).symm
    rw [hsame, hreply]
    exact ⟨h, .malformed⟩
  | some c =>
    rw [hcall] at ha
    simp only at ha
    have hmay : e.sched.fsCheckCap e.msg.sender c.key.1 c.request.needsWrite = true ↔
        e.May c.request.needsWrite := by
      rw [Message.fsCall_mount hcall]
      exact Scheduler.checkCap_iff
    split at ha
    · rename_i hyes
      by_cases hnameless : c.Nameless
      · rw [store.perform_nameless hnameless] at ha
        cases ha
      · obtain ⟨m, reply, ⟨a', ha', hsound, hmap, hreply⟩, htransition⟩ :=
          h.perform e.May (Message.fsCall_sized hcall) (hmay.mp hyes) hnameless
        cases ha'.symm.trans ha
        cases hreply.symm.trans hbytes
        rw [hmap]
        exact ⟨hsound, htransition⟩
    · rename_i hno
      obtain ⟨hsame, hreply⟩ := hstatus 1 (Option.some.inj ha).symm
      rw [hsame, hreply]
      exact ⟨h, .denied (fun hyes => hno (hmay.mpr hyes))⟩

theorem fsStore_sound {as : List FsExchange} {store : FsStore} (hr : Lib.Run FsStep .new as store) :
    store.Sound :=
  hr.invariant (P := FsStore.Sound) FsStore.new_sound (fun _ _ _ h hstep => (h.step hstep).1)

def Message.ListsNothing (msg : Message) (s : Scheduler) : Prop :=
  ∃ c, msg.fsCall = some c ∧ s.fsCheckCap msg.sender c.key.1 false = true ∧ c.Nameless

/-- Everything but that is answered. -/
theorem FsStore.Sound.service {store : FsStore} (h : store.Sound) (s : Scheduler) (msg : Message) :
    Handles (fsService s store msg) FsStore.Sound (msg.ListsNothing s) := by
  rw [fsService_eq]
  cases hcall : msg.fsCall with
  | none =>
    refine .status (fun ⟨c, hc, _⟩ => ?_) h 4
    cases hcall.symm.trans hc
  | some c =>
    simp only
    cases hcheck : s.fsCheckCap msg.sender c.key.1 c.request.needsWrite with
    | false =>
      refine .status (fun ⟨c', hc, hmay, hnameless⟩ => ?_) h 1
      cases hcall.symm.trans hc
      rw [hnameless.1] at hcheck
      cases hcheck.symm.trans hmay
    | true =>
      refine ⟨fun ⟨c', hc, _, hnameless⟩ => ?_, fun hno => ?_⟩
      · cases hcall.symm.trans hc
        exact store.perform_nameless hnameless
      · have hnot : ¬ c.Nameless := fun hnameless => by
          rw [hnameless.1] at hcheck
          exact hno ⟨c, hcall, hcheck, hnameless⟩
        obtain ⟨m, reply, ⟨a, ha, hsound, _, hreply⟩, _⟩ :=
          h.perform (fun _ => True) (Message.fsCall_sized hcall) trivial hnot
        exact ⟨a, reply, ha, hreply, hsound⟩

def FsMap.record (m : FsMap) (e : FsExchange) : FsMap :=
  if e.reply = [0] then
    match e.msg.fsCall with
    | some ⟨key, .mkdir⟩ => Function.update m key (some .dir)
    | some ⟨key, .write (some data)⟩ => Function.update m key (some (.file data))
    | some ⟨key, .delete⟩ => Function.update m key none
    | _ => m
  else m

theorem FsTransition.record {may : Bool → Prop} {m m' : FsMap} {e : FsExchange}
    (h : FsTransition may m e.msg.fsCall m' e.reply) : m' = m.record e := by
  unfold FsMap.record
  generalize e.msg.fsCall = call at h
  generalize e.reply = reply at h
  cases h with
  | made | written | deleted => rfl
  | malformed | denied | present | full | badData | toDir | found | noFile | notThere | described => rfl
  | listed hmay hlen => split <;> rfl

def FsRequest.Legal : FsRequest → Option FsItem → Prop
  | .mkdir, item => item = none
  | .write data, item => data ≠ none ∧ item ≠ some .dir
  | .delete, item => item ≠ none
  | _, _ => False

/-- Only a legal request of a writer changes the map, and only at its own path. -/
theorem FsTransition.changed {may : Bool → Prop} {m m' : FsMap} {call : Option FsCall}
    {reply : List UInt8} (h : FsTransition may m call m' reply) {key : FsKey}
    (hne : m' key ≠ m key) : ∃ c, call = some c ∧ c.key = key ∧ may true ∧
      c.request.Legal (m key) ∧ reply = [0] := by
  have hkey : ∀ {k : FsKey} {item : Option FsItem}, Function.update m k item key ≠ m key →
      k = key := by
    intro k item hu
    by_contra hk
    exact hu (Function.update_of_ne (Ne.symm hk) item m)
  cases h with
  | made hmay hnone =>
    obtain rfl := hkey hne
    exact ⟨_, rfl, rfl, hmay, hnone, rfl⟩
  | written hmay hfile =>
    obtain rfl := hkey hne
    exact ⟨_, rfl, rfl, hmay, ⟨Option.some_ne_none _, hfile⟩, rfl⟩
  | deleted hmay hsome =>
    obtain rfl := hkey hne
    exact ⟨_, rfl, rfl, hmay, hsome, rfl⟩
  | malformed | denied | present | full | badData | toDir | found | noFile | listed | notThere
    | described => exact absurd rfl hne

def FsRequest.Creates : FsRequest → Prop
  | .mkdir => True
  | .write data => data ≠ none
  | _ => False

theorem FsTransition.status_full {may : Bool → Prop} {m m' : FsMap} {call : Option FsCall}
    {reply : List UInt8} (h : FsTransition may m call m' reply) :
    reply = [3] ↔ ∃ c, call = some c ∧ may true ∧ c.request.Creates ∧ m c.key = none ∧
      m.keys.ncard = 64 := by
  constructor
  · intro hreply
    subst hreply
    generalize hthree : ([3] : List UInt8) = three at h
    cases h with
    | full hmay hnew hkey hfull =>
      refine ⟨_, rfl, hmay, ?_, hkey, hfull⟩
      rcases hnew with rfl | ⟨data, rfl⟩
      · trivial
      · exact Option.some_ne_none data
    | listed hmay hlen =>
      subst hthree
      exact absurd hlen (by decide)
    | malformed | denied | present | made | badData | toDir | written | found | noFile | deleted
      | notThere | described => cases hthree
  · rintro ⟨c, hc, hmay, hcreates, hkey, hfull⟩
    cases h with
    | full => rfl
    | malformed => cases hc
    | denied hno =>
      cases hc
      obtain ⟨key, request⟩ := c
      cases request with
      | mkdir | write => exact absurd hmay hno
      | read | ls | delete | stat => exact absurd hcreates id
    | present _ hsome =>
      cases hc
      exact absurd hkey hsome
    | made _ _ hroom =>
      cases hc
      omega
    | badData =>
      cases hc
      exact absurd rfl hcreates
    | toDir _ hdir =>
      cases hc
      cases hkey.symm.trans hdir
    | written _ _ hroom =>
      cases hc
      have := hroom hkey
      omega
    | found | noFile | listed | deleted | described =>
      cases hc
      exact absurd hcreates id
    | notThere _ hreq =>
      cases hc
      rcases hreq with rfl | rfl <;> exact absurd hcreates id

theorem FsStore.Sound.map_iff {store : FsStore} (h : store.Sound) (key : FsKey) (item : FsItem) :
    store.map key = some item ↔
      ∃ i, (store.nodes i).used = true ∧ (store.nodes i).key = key ∧ (store.nodes i).item = item := by
  constructor
  · intro hmap
    obtain ⟨i, hi⟩ := Lib.Table.exists_of_lookup hmap
    exact ⟨i, FsNode.entry_eq_some.mp hi⟩
  · rintro ⟨i, hi⟩
    exact h.distinct.lookup_of_entry (i := i) (FsNode.entry_eq_some.mpr hi)

theorem FsStore.Sound.unique {store : FsStore} (h : store.Sound) {i j : Fin fsMaxNodes}
    (hi : (store.nodes i).used = true) (hj : (store.nodes j).used = true)
    (hkey : (store.nodes i).key = (store.nodes j).key) : i = j :=
  h.distinct i j _ _ _ (FsNode.entry_eq_some.mpr ⟨hi, hkey, rfl⟩)
    (FsNode.entry_eq_some.mpr ⟨hj, rfl, rfl⟩)

/-- The map is what the answered requests have made of it. -/
theorem fsMap_recorded {as : List FsExchange} {store : FsStore}
    (hr : Lib.Run FsStep .new as store) : store.map = as.foldl FsMap.record (fun _ => none) := by
  have hhist := hr.history
    (P := fun as store => store.Sound ∧ store.map = as.foldl FsMap.record (fun _ => none))
    ⟨FsStore.new_sound, FsStore.new_map⟩ (by
      rintro as store e store' _ ⟨hsound, hmap⟩ hstep
      obtain ⟨hsound', htransition⟩ := hsound.step hstep
      refine ⟨hsound', ?_⟩
      rw [List.foldl_append, ← hmap, htransition.record]
      rfl)
  exact hhist.2

/-- In every run the store is a map of at most 64 paths, each with one node. The map
is the record of the requests that were answered by success, so that a read returns
the last data written; and every round is a transition of the map. -/
theorem fs_refines_map {as : List FsExchange} {store : FsStore}
    (hr : Lib.Run FsStep .new as store) :
    (∀ i j, (store.nodes i).used = true → (store.nodes j).used = true →
      (store.nodes i).key = (store.nodes j).key → i = j) ∧
    (∀ key item, store.map key = some item ↔
      ∃ i, (store.nodes i).used = true ∧ (store.nodes i).key = key ∧ (store.nodes i).item = item) ∧
    store.map.keys.Finite ∧ store.map.keys.ncard ≤ 64 ∧
    store.map = as.foldl FsMap.record (fun _ => none) ∧
    (∀ e store', FsStep store e store' →
      FsTransition e.May store.map e.msg.fsCall store'.map e.reply ∧
      (∀ key, store'.map key ≠ store.map key → ∃ c, e.msg.fsCall = some c ∧ c.key = key ∧
        e.May true ∧ c.request.Legal (store.map key) ∧ e.reply = [0]) ∧
      (e.reply = [3] ↔ ∃ c, e.msg.fsCall = some c ∧ e.May true ∧ c.request.Creates ∧
        store.map c.key = none ∧ store.map.keys.ncard = 64)) ∧
    (∀ s msg call, s.Serving .fs → msg.Deliverable →
      (∀ c, msg.fsCall = some c → c.request ≠ .ls) →
      ∃ reply store', FsStep store ⟨s, call, msg, reply⟩ store') := by
  have hsound := fsStore_sound hr
  refine ⟨fun i j hi hj hkey => hsound.unique hi hj hkey, hsound.map_iff, Lib.Table.keys_finite,
    hsound.distinct.ncard_keys_le, fsMap_recorded hr, fun e store' hstep => ?_,
    fun s msg call hs hmsg hls => ?_⟩
  · have htransition := (hsound.step hstep).2
    exact ⟨htransition, fun key hne => htransition.changed hne, htransition.status_full⟩
  · obtain ⟨out, hout, _⟩ := ((hsound.service s msg).served hs hmsg.sender_lt call).2
      (fun ⟨c, hc, _, hnameless⟩ => hls c hc hnameless.1)
    exact ⟨out.reply, out.store, out.sched, out.sent, hout⟩

def filingScheduler : Scheduler :=
  { Scheduler.ofList [Task.new 0 0 84 CapTable.new, Task.new 0 0 1
      (CapTable.ofList [⟨.fsNode 0 true true, true, true, false, false, 1, none⟩])] with
    currentTaskId := some 84 }

def fsMessage (sender : TaskId) (bytes : List UInt8) : Message :=
  ⟨sender, .fsOp, 1, padPayload bytes, bytes.length, 0, 0⟩

def fsExchange (bytes reply : List UInt8) : FsExchange :=
  ⟨filingScheduler, 0, fsMessage 1 bytes, reply⟩

def greetingWrite : List UInt8 := [1, 0, 2, 47, 97] ++ List.replicate 28 0 ++ [2, 104, 105]

/-- After a write and a read the file is there. -/
theorem fs_refines_map_greeting : ∃ store,
    Lib.Run FsStep .new [fsExchange greetingWrite [0],
      fsExchange [2, 0, 2, 47, 97] [0, 2, 104, 105]] store ∧
    store.map (0, [47, 97]) = some (.file [104, 105]) := by
  obtain ⟨store, hr⟩ : ∃ store, Lib.Run FsStep .new [fsExchange greetingWrite [0],
      fsExchange [2, 0, 2, 47, 97] [0, 2, 104, 105]] store :=
    ⟨_, .cons ⟨_, _, rfl⟩ (.cons ⟨_, _, rfl⟩ (.nil _))⟩
  refine ⟨store, hr, ?_⟩
  rw [(fs_refines_map hr).2.2.2.2.1]
  rfl

end Runix
