import Runix.Dispatch
import Runix.Proofs.Failover

namespace Runix

open Lib (Table)

namespace Scheduler
variable {s : Scheduler} {current target : TaskId} {task : Task} {call capIdx : Nat}
  {payload : List UInt8} {msg : Message}

def deliverAsync (s : Scheduler) (target : TaskId) (msg : Message) :
    Scheduler × Except IpcError Unit :=
  match s.getTask target with
  | none => (s, .error .targetGone)
  | some task =>
    if task.state = .terminated then (s, .error .targetGone)
    else
      match task.msgQueue.enqueue msg with
      | none => (s, .error .queueFull)
      | some queue =>
        (s.modify target (fun task =>
          { task with
            msgQueue := queue
            state := if task.state = .blockedOnReceive then .ready else task.state }), .ok ())

/-- `sys_send_async` through a channel to the target, with tag Raw and version 1. -/
theorem sysSendAsync_channel (hcurrent : s.currentTaskId = some current)
    (hchannel : s.resolveTargetLocked current capIdx = .ok target) (hlen : payload.length ≤ 128) :
    s.sysSendAsync call capIdx 0 1 payload = s.deliverAsync target
      { sender := current, tag := .raw, version := 1, payload := padPayload payload
        len := payload.length, call := call, via := capIdx } := by
  have hcheck : checkSend call capIdx 0 1 payload =
      .ok ⟨capIdx, .raw, 1, padPayload payload, payload.length, call⟩ := by
    rw [checkSend, if_neg (Nat.not_lt.mpr hlen)]
    rfl
  simp only [sysSendAsync, hcheck, hcurrent, sendAsyncRegion, hchannel, deliverAsync]
  cases s.getTask target with
  | none => rfl
  | some task =>
    by_cases hterm : task.state = .terminated
    · simp only [hterm, if_true]
      rfl
    · simp only [hterm, if_false, SendArgs.message]
      cases task.msgQueue.enqueue _ <;> rfl

def Attends (s : Scheduler) (target : TaskId) : Prop :=
  ∃ task, s.getTask target = some task ∧ task.state ≠ .terminated ∧
    task.state ≠ .blockedOnReceive ∧ task.msgQueue.count ≠ msgQueueCapacity

/-- The task behind a successful delivery. -/
theorem deliverAsync_ok (h : (s.deliverAsync target msg).2 = .ok ()) : ∃ task queue,
    s.getTask target = some task ∧ task.state ≠ .terminated ∧
    task.msgQueue.enqueue msg = some queue ∧
    (s.deliverAsync target msg).1 = s.modify target (fun task =>
      { task with
        msgQueue := queue
        state := if task.state = .blockedOnReceive then .ready else task.state }) := by
  unfold deliverAsync at h ⊢
  cases hget : s.getTask target with
  | none =>
    rw [hget] at h
    cases h
  | some task =>
    simp only [hget] at h ⊢
    by_cases hterm : task.state = .terminated
    · rw [if_pos hterm] at h
      cases h
    · rw [if_neg hterm] at h ⊢
      cases hq : task.msgQueue.enqueue msg with
      | none =>
        rw [hq] at h
        cases h
      | some queue => exact ⟨task, queue, rfl, hterm, hq, rfl⟩

theorem deliverAsync_of_enqueue {queue : MessageQueue} (hget : s.getTask target = some task)
    (hterm : task.state ≠ .terminated) (hq : task.msgQueue.enqueue msg = some queue) :
    s.deliverAsync target msg = (s.modify target (fun task =>
      { task with
        msgQueue := queue
        state := if task.state = .blockedOnReceive then .ready else task.state }), .ok ()) := by
  simp only [deliverAsync, hget, if_neg hterm, hq]

end Scheduler

namespace System
variable {s : System} {cap : Capability} {svc : ServiceId} {payload : List UInt8}
  {tid : TaskId} {node : NodeId}

/-- Local delivery is an asynchronous send: the schedulers agree, and the caller
is told of a delivery only when there was one. -/
def DeliversAsync (s : System) (cap : Capability) (payload : List UInt8) (tid : TaskId) : Prop :=
  (s.routeSend cap payload).1 = s.modifySched (fun sched =>
    (sched.deliverAsync tid (s.routedMessage payload)).1) ∧
  ((s.routeSend cap payload).2 = .localTask tid →
    (s.kernel.sched.deliverAsync tid (s.routedMessage payload)).2 = .ok ())

def DeliversRemote (s : System) (cap : Capability) (payload : List UInt8) (node : NodeId) : Prop :=
  (s.routeSend cap payload).2 = .remote node → s.remote.id = node ∧
    (s.routeSend cap payload).1.remote.inbox.contents =
      s.remote.inbox.contents ++ [s.routedMessage payload]

theorem routeSend_local (hcap : cap.resource = .service svc)
    (hloc : s.registry.resolve svc = some (.localTask tid)) :
    s.routeSend cap payload = (s.modifySched (fun sched => sched.modify tid (fun t =>
      { t with msgQueue := (t.msgQueue.enqueue (s.routedMessage payload)).getD t.msgQueue })),
      .localTask tid) := by
  simp only [routeSend, hcap, hloc]

theorem routeSend_remote (hcap : cap.resource = .service svc)
    (hloc : s.registry.resolve svc = some (.remote node)) :
    s.routeSend cap payload =
      ({ s with remote := s.remote.transportSend node (s.routedMessage payload) }, .remote node) := by
  simp only [routeSend, hcap, hloc]

theorem modifySched_sched (f : Scheduler → Scheduler) :
    (s.modifySched f).kernel.sched = f s.kernel.sched := rfl

/-- Local delivery looks neither at the state of the target nor at the outcome
of the enqueue. -/
theorem deliversAsync_iff (hcap : cap.resource = .service svc)
    (hloc : s.registry.resolve svc = some (.localTask tid)) :
    s.DeliversAsync cap payload tid ↔ s.kernel.sched.Attends tid := by
  rw [DeliversAsync, routeSend_local hcap hloc]
  constructor
  · rintro ⟨heffect, htold⟩
    obtain ⟨task, queue, hget, hterm, hq, hsched⟩ := Scheduler.deliverAsync_ok (htold rfl)
    refine ⟨task, hget, hterm, fun hwait => ?_, fun hfull => ?_⟩
    · have hstate := congrArg
        (fun t : System => (t.kernel.sched.getTask tid).map Task.state) heffect
      simp only [modifySched_sched, hsched] at hstate
      rw [Scheduler.getTask_modify_self _ _ (by intro t; rfl),
        Scheduler.getTask_modify_self _ _ (by intro t; rfl), hget] at hstate
      simp [hwait] at hstate
    · rw [Lib.Ring.enqueue_none.mpr hfull] at hq
      cases hq
  · rintro ⟨task, hget, hterm, hwait, hroom⟩
    obtain ⟨queue, hq⟩ : ∃ queue, task.msgQueue.enqueue (s.routedMessage payload) = some queue :=
      Option.ne_none_iff_exists'.mp (fun hnone => hroom (Lib.Ring.enqueue_none.mp hnone))
    have hlt := (Scheduler.getTask_some hget).2.1
    have hdeliver := Scheduler.deliverAsync_of_enqueue hget hterm hq
    refine ⟨?_, fun _ => by rw [hdeliver]⟩
    simp only [modifySched, hdeliver, Scheduler.modify_some hget hlt, hq, Option.getD_some,
      if_neg hwait]

theorem deliversRemote_iff (hcap : cap.resource = .service svc)
    (hloc : s.registry.resolve svc = some (.remote node)) :
    s.DeliversRemote cap payload node ↔
      s.remote.id = node ∧ s.remote.inbox.count ≠ msgQueueCapacity := by
  rw [DeliversRemote, routeSend_remote hcap hloc]
  constructor
  · intro h
    obtain ⟨hid, hinbox⟩ := h rfl
    refine ⟨hid, fun hfull => ?_⟩
    have hnone := Lib.Ring.enqueue_none (x := s.routedMessage payload) |>.mpr hfull
    simp only [RemoteNode.transportSend, hid, if_true, hnone, Option.getD_none] at hinbox
    have hlen := congrArg List.length hinbox
    simp at hlen
  · rintro ⟨hid, hroom⟩ _
    obtain ⟨queue, hq⟩ : ∃ queue, s.remote.inbox.enqueue (s.routedMessage payload) = some queue :=
      Option.ne_none_iff_exists'.mp (fun hnone => hroom (Lib.Ring.enqueue_none.mp hnone))
    refine ⟨hid, ?_⟩
    simp only [RemoteNode.transportSend, hid, if_true, hq, Option.getD_some]
    exact Lib.Ring.contents_enqueue hq

/-- A transparent send agrees with the kernel's own asynchronous send exactly for
a target that attends, and a remote one arrives exactly at the node that the
transport reaches, while its inbox has room. -/
theorem routeSend_agrees (hcap : cap.resource = .service svc) (hlen : payload.length ≤ 128) :
    (∀ tid, s.registry.resolve svc = some (.localTask tid) →
      (∀ current capIdx call, s.kernel.sched.currentTaskId = some current →
        s.kernel.sched.resolveTargetLocked current capIdx = .ok tid →
        s.kernel.sched.sysSendAsync call capIdx 0 1 payload = s.kernel.sched.deliverAsync tid
          { s.routedMessage payload with call := call, via := capIdx }) ∧
      (s.DeliversAsync cap payload tid ↔ s.kernel.sched.Attends tid)) ∧
    ∀ node, s.registry.resolve svc = some (.remote node) →
      (s.DeliversRemote cap payload node ↔
        s.remote.id = node ∧ s.remote.inbox.count ≠ msgQueueCapacity) := by
  refine ⟨fun tid hloc => ⟨?_, deliversAsync_iff hcap hloc⟩, fun node hloc =>
    deliversRemote_iff hcap hloc⟩
  intro current capIdx call hcurrent hchannel
  rw [Scheduler.sysSendAsync_channel hcurrent hchannel hlen]
  simp only [routedMessage, hcurrent, Option.getD_some, List.take_of_length_le hlen,
    Nat.min_eq_left hlen]

def serviceCap : Capability := ⟨.service 7, false, true, false, false, 1, none⟩

def client (server : Task) : System :=
  let s := ofTasks [Task.new 0 0 0 (CapTable.ofList
    [⟨.ipcChannel 1, false, true, false, false, 2, none⟩]), server]
  (s.modifySched (fun sched => { sched with currentTaskId := some 0 })).register 7 (.localTask 1)

/-- A server that is ready. -/
theorem routeSend_agrees_ready :
    (client (Task.new 0 0 1 CapTable.new)).DeliversAsync serviceCap [72, 105] 1 := by
  have h := @routeSend_agrees (client (Task.new 0 0 1 CapTable.new)) serviceCap 7 [72, 105] rfl
    (by decide)
  exact (h.1 1 rfl).2.mpr ⟨_, rfl, by decide, by decide, by decide⟩

/-- The server waits for a message. The transparent send leaves it waiting; the
asynchronous send through the channel wakes it. -/
theorem routeSend_leaves_waiting :
    let s := client { Task.new 0 0 1 CapTable.new with state := .blockedOnReceive }
    let r := s.routeSend serviceCap [72, 105]
    s.registry.resolve 7 = some (.localTask 1) ∧ r.2 = .localTask 1 ∧
    (r.1.kernel.sched.getTask 1).map Task.state = some .blockedOnReceive ∧
    ((s.kernel.sched.sysSendAsync 0 0 0 1 [72, 105]).1.getTask 1).map Task.state =
      some .ready ∧
    ¬ s.DeliversAsync serviceCap [72, 105] 1 := by
  refine ⟨rfl, rfl, rfl, rfl, fun h => ?_⟩
  have hstate := congrArg (fun t : System => (t.kernel.sched.getTask 1).map Task.state) h.1
  cases hstate

end System

/-- `count_caps` counts the occupied slots. -/
theorem countCaps_eq (t : CapTable) :
    countCaps t = (Finset.univ.filter (fun i => (t.slots i).isSome)).card := by
  have hnodup := (List.nodup_finRange maxCaps).filter (fun i => (t.slots i).isSome)
  rw [countCaps, ← List.toFinset_card_of_nodup hnodup, List.toFinset_filter,
    List.toFinset_finRange]

def Task.holdings (task : Task) : CapTable × Option Message × MessageQueue :=
  (task.capTable, task.ipcBuffer, task.msgQueue)

/-- What the node shows for a service that has just moved to it. A free entry
counts only if no older checkpoint of the service comes before it. -/
theorem RemoteNode.host_carries_iff {n : RemoteNode} {svc : ServiceId} {task : Task} :
    (∃ cp, (n.host svc task.checkpoint).checkpointOf svc = some cp ∧ cp.Carries task) ↔
      Table.Open n.services svc ∨ ∃ cp, n.checkpointOf svc = some cp ∧ cp.Carries task := by
  simp only [checkpointOf_eq, host_eq]
  by_cases hopen : Table.Open n.services svc
  · rw [Table.lookup_push_open hopen]
    exact iff_of_true ⟨_, rfl, rfl, rfl, rfl⟩ (.inl hopen)
  · rw [Table.lookup_push_not_open hopen]
    simp only [hopen, false_or]

namespace System
variable {s t : System} {svc : ServiceId} {dest : NodeId} {n : Nat} {tid : TaskId}

/-- A migration of the service at a task carries the task over as it was, leaves no other task
behind in a wait for it and touches nobody's capabilities and messages. -/
structure Departs (s : System) (svc : ServiceId) (tid : TaskId) (t : System) (n : Nat) : Prop where
  carried : ∃ task cp, s.kernel.sched.getTask tid = some task ∧
    t.remote.checkpointOf svc = some cp ∧ cp.Carries task ∧
    n = (Finset.univ.filter (fun i => (task.capTable.slots i).isSome)).card
  released : ∀ i u, t.kernel.sched.tasks i = some u → u.state ≠ .blockedOnSend tid
  others : ∀ i : Fin maxTasks, i.val ≠ tid →
    (t.kernel.sched.tasks i).map Task.holdings = (s.kernel.sched.tasks i).map Task.holdings

theorem migrate_local (h : s.migrate svc dest = (t, .ok n))
    (hloc : s.registry.resolve svc = some (.localTask tid)) :
    ∃ task, ∃ hlt : tid < maxTasks, s.kernel.sched.getTask tid = some task ∧
      n = countCaps task.capTable ∧ t.remote = s.remote.host svc task.checkpoint ∧
      t.kernel.sched = s.kernel.sched.set ⟨tid, hlt⟩ none := by
  simp only [migrate, hloc] at h
  cases hget : s.kernel.sched.getTask tid with
  | none =>
    rw [hget] at h
    cases h
  | some task =>
    have hlt := (Scheduler.getTask_some hget).2.1
    simp only [hget, dif_pos hlt] at h
    cases h
    exact ⟨task, hlt, rfl, rfl, rfl, rfl⟩

/-- A migration does not strand anybody exactly if nobody was waiting to send to
the task, and the node shows the new checkpoint. -/
theorem migrate_departs (h : s.migrate svc dest = (t, .ok n))
    (hloc : s.registry.resolve svc = some (.localTask tid)) :
    s.Departs svc tid t n ↔
      (∀ (i : Fin maxTasks) u, i.val ≠ tid → s.kernel.sched.tasks i = some u →
        u.state ≠ .blockedOnSend tid) ∧
      ∃ task, s.kernel.sched.getTask tid = some task ∧ (Table.Open s.remote.services svc ∨
        ∃ cp, s.remote.checkpointOf svc = some cp ∧ cp.Carries task) := by
  obtain ⟨task, hlt, hget, hn, hremote, hsched⟩ := migrate_local h hloc
  have hothers : ∀ i : Fin maxTasks, i.val ≠ tid →
      t.kernel.sched.tasks i = s.kernel.sched.tasks i := by
    intro i hi
    rw [hsched]
    exact Function.update_of_ne (fun he => hi (congrArg Fin.val he)) _ _
  constructor
  · intro hd
    refine ⟨fun i u hi hu => hd.released i u ((hothers i hi).trans hu), task, hget, ?_⟩
    obtain ⟨task', cp, hget', hcp, hcarries, _⟩ := hd.carried
    cases hget.symm.trans hget'
    rw [hremote] at hcp
    exact RemoteNode.host_carries_iff.mp ⟨cp, hcp, hcarries⟩
  · rintro ⟨hwait, task', hget', hhost⟩
    cases hget.symm.trans hget'
    obtain ⟨cp, hcp, hcarries⟩ := RemoteNode.host_carries_iff.mpr hhost
    refine ⟨⟨task, cp, hget, hremote ▸ hcp, hcarries, hn.trans (countCaps_eq _)⟩, fun i u hu => ?_,
      fun i hi => congrArg _ (hothers i hi)⟩
    by_cases hi : i.val = tid
    · have hself : i = ⟨tid, hlt⟩ := Fin.ext hi
      rw [hsched, hself] at hu
      cases (Function.update_self (f := s.kernel.sched.tasks) _ _).symm.trans hu
    · exact hwait i u hi ((hothers i hi).symm.trans hu)

/-- A task that holds a capability and has a message in its buffer. -/
def laden : Task :=
  { Task.new 0 0 1 (CapTable.ofList [⟨.serial, false, true, false, false, 3, none⟩]) with
    ipcBuffer := some letter }

/-- The remote node hosts another service, and a client of this one is ready. -/
def departure : System :=
  { client laden with remote := (RemoteNode.new 1).host 8 (Task.new 0 0 2 CapTable.new).checkpoint }

theorem migrate_departs_ready : ∃ t,
    departure.migrate 7 1 = (t, .ok 1) ∧ departure.Departs 7 1 t 1 := by
  refine ⟨_, rfl, (migrate_departs rfl rfl).mpr ⟨?_, _, rfl, .inl ⟨⟨1, by decide⟩, rfl, ?_⟩⟩⟩
  · intro i u _ hu
    have hmem := List.mem_of_find?_eq_some hu
    simp only [List.mem_cons, List.not_mem_nil, or_false] at hmem
    rcases hmem with rfl | rfl <;> exact nofun
  · rintro ⟨j, hj⟩ hlt
    obtain rfl : j = 0 := Nat.lt_one_iff.mp hlt
    exact nofun

/-- The client is parked on the service when it leaves, and stays parked on a task
that is gone. -/
theorem migrate_strands_client :
    let s := (client (Task.new 0 0 1 CapTable.new)).modifySched (fun sched =>
      sched.modify 0 (fun task => { task with state := .blockedOnSend 1 }))
    ∃ t, s.registry.resolve 7 = some (.localTask 1) ∧ s.migrate 7 1 = (t, .ok 0) ∧
    t.kernel.sched.getTask 1 = none ∧
    (t.kernel.sched.getTask 0).map Task.state = some (.blockedOnSend 1) ∧
    ¬ s.Departs 7 1 t 0 := by
  refine ⟨_, rfl, rfl, rfl, rfl, fun hd => ?_⟩
  exact hd.released ⟨0, by decide⟩ _ rfl rfl

end System

end Runix
