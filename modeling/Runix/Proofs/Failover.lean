import Runix.Proofs.Routing

namespace Runix

open Lib (Table)

def TaskCheckpoint.Carries (cp : TaskCheckpoint) (task : Task) : Prop :=
  cp.capTable = task.capTable ∧ cp.ipcBuffer = task.ipcBuffer ∧ cp.msgQueue = task.msgQueue

namespace RemoteNode
variable {n : RemoteNode} {svc svc' : ServiceId} {cp cp' : TaskCheckpoint}

theorem checkpointOf_host_ne (h : svc' ≠ svc) :
    (n.host svc cp).checkpointOf svc' = n.checkpointOf svc' := by
  rw [checkpointOf_eq, checkpointOf_eq, host_eq]
  exact Table.lookup_push_ne h

theorem checkpointOf_host_some (h : (n.host svc cp).checkpointOf svc = some cp') :
    cp' = cp ∨ n.checkpointOf svc = some cp' := by
  rw [checkpointOf_eq, host_eq] at h
  rw [checkpointOf_eq]
  exact Table.lookup_push_some h

def Takes (n : RemoteNode) (svc : ServiceId) : Prop :=
  (∃ cp, n.checkpointOf svc = some cp) ∨ ∃ i, n.services i = none

theorem free_services : (Table.free n.services).isSome ↔ ∃ i, n.services i = none := by
  constructor
  · intro h
    obtain ⟨i, hi⟩ := Option.isSome_iff_exists.mp h
    exact ⟨i, Table.free_some hi⟩
  · rintro ⟨i, hi⟩
    cases hfree : Table.free n.services with
    | some j => rfl
    | none =>
      obtain ⟨k, v, hv⟩ := Table.free_none hfree i
      cases hi.symm.trans hv

theorem checkpointOf_host_iff :
    (∃ cp', (n.host svc cp).checkpointOf svc = some cp') ↔ n.Takes svc := by
  have hpush := Table.lookup_push_isSome (t := n.services) (k := svc) (v := cp)
  rw [free_services, Option.isSome_iff_exists, Option.isSome_iff_exists, ← checkpointOf_eq] at hpush
  rw [checkpointOf_eq, host_eq]
  exact hpush

end RemoteNode

namespace System
variable {s t s₀ : System} {e : DistEvent} {es : List DistEvent} {svc : ServiceId} {dest : NodeId}
  {n : Nat}

def Placeable (s : System) (svc : ServiceId) (dest : NodeId) : Prop :=
  dest = s.remote.id ∧ s.remote.Takes svc

def Lossless (s : System) : DistEvent → Prop
  | .registered _ loc => ∃ tid, loc = .localTask tid
  | .migrated svc dest _ => ∀ tid task, s.registry.resolve svc = some (.localTask tid) →
      s.kernel.sched.getTask tid = some task → s.Placeable svc dest
  | _ => True

def Placed (s : System) : Prop :=
  ∀ svc node, s.registry.resolve svc = some (.remote node) →
    node = s.remote.id ∧ ∃ cp, s.remote.checkpointOf svc = some cp

theorem resolve_set_some {r : ServiceRegistry} {loc loc' : Location}
    (h : (r.set svc loc).resolve svc = some loc') : loc' = loc := by
  rw [ServiceRegistry.resolve_eq, ServiceRegistry.set_entries] at h
  exact Table.lookup_put_some h

theorem Fresh.placed (h : s.Fresh) : s.Placed := by
  intro svc node hroute
  rw [h.registry, resolve_new] at hroute
  cases hroute

theorem Placed.step (h : s.Placed) (hok : s.Lossless e) (he : s.Effect e t) : t.Placed := by
  intro svc node hroute
  by_cases hsvc : e.service = some svc
  · cases he with
    | quiet _ hreg hserv hid =>
      rw [hreg] at hroute
      rw [RemoteNode.checkpointOf_eq, hserv, ← RemoteNode.checkpointOf_eq, hid]
      exact h svc node hroute
    | registered svc' loc =>
      cases hsvc
      obtain ⟨tid, rfl⟩ := hok
      cases resolve_set_some hroute
    | migrated hlocal htask hreg hrem =>
      cases hsvc
      rw [hreg] at hroute
      cases resolve_set_some hroute
      obtain ⟨hdest, htakes⟩ := hok _ _ hlocal htask
      rw [hrem]
      refine ⟨?_, RemoteNode.checkpointOf_host_iff.mpr htakes⟩
      rw [hdest, RemoteNode.host_eq]
    | failedOver _ hreg =>
      cases hsvc
      rw [hreg] at hroute
      cases resolve_set_some hroute
  · rw [he.resolve_ne hsvc] at hroute
    obtain ⟨hid, cp, hcp⟩ := h svc node hroute
    refine ⟨hid.trans he.id.symm, cp, ?_⟩
    cases he with
    | quiet _ _ hserv => rw [RemoteNode.checkpointOf_eq, hserv, ← RemoteNode.checkpointOf_eq, hcp]
    | registered => exact hcp
    | migrated _ _ _ hrem =>
      have hne : svc ≠ _ := fun he => hsvc (congrArg some he.symm)
      rw [hrem, RemoteNode.checkpointOf_host_ne hne, hcp]
    | failedOver _ _ hrem => rw [hrem, hcp]

/-- A successful migration leaves the service on the node exactly if it was
placeable. -/
theorem migrate_placed (h : s.migrate svc dest = (t, .ok n)) :
    (∃ node, t.registry.resolve svc = some (.remote node) ∧ node = t.remote.id ∧
      ∃ cp, t.remote.checkpointOf svc = some cp) ↔ s.Placeable svc dest := by
  obtain ⟨tid, task, hroute, _, hreg, hrem⟩ := migrate_ok h
  have hresolve : t.registry.resolve svc = some (.remote dest) := by
    rw [hreg, ServiceRegistry.resolve_eq, ServiceRegistry.set_entries]
    refine Table.lookup_put_self (.inl ?_)
    rw [← ServiceRegistry.resolve_eq, hroute]
    rfl
  have hid : t.remote.id = s.remote.id := by rw [hrem, RemoteNode.host_eq]
  rw [hresolve, hid, hrem, RemoteNode.checkpointOf_host_iff]
  constructor
  · rintro ⟨node, hnode, hid, htakes⟩
    cases hnode
    exact ⟨hid, htakes⟩
  · rintro ⟨hid, htakes⟩
    exact ⟨dest, rfl, hid, htakes⟩

/-- Migration never loses a service. -/
theorem migration_keeps_services (h₀ : s₀.Fresh)
    (hr : Lib.Run (Lib.Guarded Lossless DistStep) s₀ es s) :
    (∀ svc node, s.registry.resolve svc = some (.remote node) →
      node = s.remote.id ∧ ∃ cp, s.remote.checkpointOf svc = some cp) ∧
    (∀ svc dest t n, s.migrate svc dest = (t, .ok n) →
      ((∃ node, t.registry.resolve svc = some (.remote node) ∧ node = t.remote.id ∧
        ∃ cp, t.remote.checkpointOf svc = some cp) ↔ s.Placeable svc dest)) ∧
    (∀ svc dest t, s.migrate svc dest = (t, .error ()) → t = s) := by
  refine ⟨?_, fun svc dest t n ht => migrate_placed ht, fun svc dest t ht => migrate_error ht⟩
  exact hr.invariant (P := Placed) h₀.placed (fun _ _ _ h hstep => h.step hstep.1 hstep.2.effect)

/-- The service goes to the remote node. -/
theorem migration_keeps_services_moved : ∃ s,
    Lib.Run (Lib.Guarded Lossless DistStep) (ofTasks [Task.new 0 0 0 CapTable.new])
      [.registered 7 (.localTask 0), .migrated 7 1 (.ok 0)] s ∧
    s.registry.resolve 7 = some (.remote 1) ∧ ∃ cp, s.remote.checkpointOf 7 = some cp := by
  have hroom : ∀ s : System, s.remote = RemoteNode.new 1 → s.Placeable 7 1 := by
    intro s hs
    rw [Placeable, hs]
    exact ⟨rfl, .inr ⟨⟨0, by decide⟩, rfl⟩⟩
  obtain ⟨s, hr, hroute⟩ : ∃ s,
      Lib.Run (Lib.Guarded Lossless DistStep) (ofTasks [Task.new 0 0 0 CapTable.new])
        [.registered 7 (.localTask 0), .migrated 7 1 (.ok 0)] s ∧
      s.registry.resolve 7 = some (.remote 1) :=
    ⟨_, .cons ⟨⟨0, rfl⟩, .register ..⟩ (.cons ⟨fun _ _ _ _ => hroom _ rfl, .migrate rfl⟩ (.nil _)), rfl⟩
  exact ⟨s, hr, hroute, ((migration_keeps_services (fresh_ofTasks _) hr).1 7 1 hroute).2⟩

/-- A migration to a node that does not exist succeeds. The service's only live
copy is torn down, and the transport delivers nothing to its route. -/
theorem migrated_to_missing_node : ∃ s,
    Lib.Run DistStep (ofTasks [Task.new 0 0 0 CapTable.new])
      [.registered 7 (.localTask 0), .migrated 7 5 (.ok 0)] s ∧
    s.registry.resolve 7 = some (.remote 5) ∧ s.kernel.sched.getTask 0 = none ∧
    s.remote.id ≠ 5 ∧ ∀ msg, s.remote.transportSend 5 msg = s.remote :=
  ⟨_, .cons (.register ..) (.cons (.migrate rfl) (.nil _)), rfl, rfl, by decide, fun _ => rfl⟩

/-- A migration of a live service finds no checkpoint of it on the node, or one
that restores what the task has now. -/
def Unshadowed (s : System) : DistEvent → Prop
  | .migrated svc _ _ => ∀ tid task cp, s.registry.resolve svc = some (.localTask tid) →
      s.kernel.sched.getTask tid = some task → s.remote.checkpointOf svc = some cp → cp.Carries task
  | _ => True

/-- The latest successful migration of the service in a history took the
checkpoint of this task. -/
def Latest (s₀ : System) (es : List DistEvent) (svc : ServiceId) (task : Task) : Prop :=
  ∃ bs dest n cs u tid, es = bs ++ .migrated svc dest (.ok n) :: cs ∧
    (∀ dest n, .migrated svc dest (.ok n) ∉ cs) ∧ Lib.Run DistStep s₀ bs u ∧
    u.registry.resolve svc = some (.localTask tid) ∧ u.kernel.sched.getTask tid = some task

theorem Latest.snoc {task : Task} (h : s₀.Latest es svc task)
    (he : ∀ dest n, e ≠ .migrated svc dest (.ok n)) : s₀.Latest (es ++ [e]) svc task := by
  obtain ⟨bs, dest, n, cs, u, tid, rfl, hcs, hu, hroute, htask⟩ := h
  refine ⟨bs, dest, n, cs ++ [e], u, tid, by simp, fun dest n hmem => ?_, hu, hroute, htask⟩
  rcases List.mem_append.mp hmem with hold | hnew
  · exact hcs dest n hold
  · exact he dest n (List.mem_singleton.mp hnew).symm

theorem latest_now {task : Task} {tid : TaskId} (hr : Lib.Run DistStep s₀ es s)
    (hroute : s.registry.resolve svc = some (.localTask tid))
    (htask : s.kernel.sched.getTask tid = some task) :
    s₀.Latest (es ++ [.migrated svc dest (.ok n)]) svc task :=
  ⟨es, dest, n, [], s, tid, rfl, fun _ _ hmem => (by cases hmem), hr, hroute, htask⟩

def Current (s₀ : System) (es : List DistEvent) (s : System) : Prop :=
  ∀ svc cp, s.remote.checkpointOf svc = some cp → ∃ task, s₀.Latest es svc task ∧ cp.Carries task

theorem Current.step (h : s₀.Current es s) (hr : Lib.Run DistStep s₀ es s) (hok : s.Unshadowed e)
    (he : s.Effect e t) : s₀.Current (es ++ [e]) t := by
  have hkept : ∀ {svc cp}, s.remote.checkpointOf svc = some cp →
      (∀ dest n, e ≠ .migrated svc dest (.ok n)) →
      ∃ task, s₀.Latest (es ++ [e]) svc task ∧ cp.Carries task := by
    intro svc cp hcp hne
    obtain ⟨task, hlatest, hrest⟩ := h svc cp hcp
    exact ⟨task, hlatest.snoc hne, hrest⟩
  intro svc cp hcp
  cases he with
  | quiet hplaced _ hserv =>
    rw [RemoteNode.checkpointOf_eq, hserv, ← RemoteNode.checkpointOf_eq] at hcp
    refine hkept hcp (fun dest n he => ?_)
    rw [he] at hplaced
    cases hplaced
  | registered => exact hkept hcp (fun _ _ he => (by cases he))
  | @migrated svc' _ _ tid task _ hroute htask _ hrem =>
    rw [hrem] at hcp
    by_cases hsvc : svc = svc'
    · subst hsvc
      refine ⟨task, latest_now hr hroute htask, ?_⟩
      rcases RemoteNode.checkpointOf_host_some hcp with rfl | hold
      · exact ⟨rfl, rfl, rfl⟩
      · exact hok tid task cp hroute htask hold
    · rw [RemoteNode.checkpointOf_host_ne hsvc] at hcp
      refine hkept hcp (fun _ _ he => ?_)
      cases he
      exact hsvc rfl
  | failedOver _ _ hrem =>
    rw [hrem] at hcp
    exact hkept hcp (fun _ _ he => (by cases he))

theorem run_current (h₀ : s₀.Fresh) (hr : Lib.Run (Lib.Guarded Unshadowed DistStep) s₀ es s) :
    s₀.Current es s := by
  refine hr.history (P := fun es s => s₀.Current es s) (fun svc cp hcp => ?_)
    (fun es s e t hs ih hstep =>
      ih.step (hs.mono (fun _ _ _ h => h.2)) hstep.1 hstep.2.effect)
  obtain ⟨i, hi⟩ := RemoteNode.checkpointOf_some hcp
  rw [h₀.remote] at hi
  cases hi

/-- Failover restores the most recent checkpoint. -/
theorem failover_restores_latest {s' : System} {replica : TaskId} (h₀ : s₀.Fresh)
    (hr : Lib.Run (Lib.Guarded Unshadowed DistStep) s₀ es s)
    (hf : s.failover svc replica = (s', .ok n)) :
    ∃ task r, s₀.Latest es svc task ∧ s'.kernel.sched.getTask replica = some r ∧
      r.capTable = task.capTable ∧ r.ipcBuffer = task.ipcBuffer ∧ r.msgQueue = task.msgQueue := by
  obtain ⟨cp, r, hcp, hreplica, _, _, hsched⟩ := failover_ok hf
  obtain ⟨task, hlatest, hcaps, hbuffer, hqueue⟩ := run_current h₀ hr svc cp hcp
  have hself := Scheduler.getTask_modify_self s.kernel.sched replica (f := fun r =>
    { r with capTable := cp.capTable, ipcBuffer := cp.ipcBuffer, msgQueue := cp.msgQueue })
    (fun _ => rfl)
  rw [← hsched, hreplica, Option.map_some] at hself
  exact ⟨task, _, hlatest, hself, hcaps, hbuffer, hqueue⟩

def letter : Message :=
  { sender := 2, tag := .raw, version := 1, payload := padPayload [72, 105], len := 2, call := 0
    via := 0 }

/-- A service with a capability and a message in its buffer, a second service and a spare task. -/
def fleet : System :=
  ofTasks [{ Task.new 0 0 0 (CapTable.ofList [⟨.serial, false, true, false, false, 1, none⟩]) with
      ipcBuffer := some letter }, Task.new 0 0 1 CapTable.new, Task.new 0 0 2 CapTable.new]

/-- Both services move to the remote node, the first with its capability and its message. It is
restored in the spare task. -/
def evacuation : List DistEvent :=
  [.registered 7 (.localTask 0), .registered 8 (.localTask 1), .migrated 8 1 (.ok 0),
    .migrated 7 1 (.ok 1), .routed ⟨.service 7, false, true, false, false, 2, none⟩ [1] (.remote 1)]

theorem failover_restores_latest_once : ∃ s s' task r,
    Lib.Run (Lib.Guarded Unshadowed DistStep) fleet evacuation s ∧
    s.failover 7 2 = (s', .ok 1) ∧ fleet.Latest evacuation 7 task ∧
    s'.kernel.sched.getTask 2 = some r ∧ r.ipcBuffer = some letter ∧
    r.capTable = task.capTable ∧ r.ipcBuffer = task.ipcBuffer ∧ r.msgQueue = task.msgQueue := by
  have hnone : ∀ (s : System) (svc : ServiceId) (n : Nat), s.remote.checkpointOf svc = none →
      s.Unshadowed (.migrated svc 1 (.ok n)) := by
    intro s svc n hs tid task cp _ _ hcp
    cases hs.symm.trans hcp
  obtain ⟨s, s', r, hr, hf, hget, hbuf⟩ : ∃ s s' r,
      Lib.Run (Lib.Guarded Unshadowed DistStep) fleet evacuation s ∧
      s.failover 7 2 = (s', .ok 1) ∧ s'.kernel.sched.getTask 2 = some r ∧
      r.ipcBuffer = some letter :=
    ⟨_, _, _, .cons ⟨trivial, .register ..⟩ (.cons ⟨trivial, .register ..⟩
      (.cons ⟨hnone _ _ _ rfl, .migrate rfl⟩ (.cons ⟨hnone _ _ _ rfl, .migrate rfl⟩
        (.cons ⟨trivial, .route rfl⟩ (.nil _))))), rfl, rfl, rfl⟩
  obtain ⟨task, r', hlatest, hget', hcarried⟩ := failover_restores_latest (fresh_ofTasks _) hr hf
  cases hget.symm.trans hget'
  exact ⟨s, s', task, r, hr, hf, hlatest, hget, hbuf, hcarried⟩

def endowed : System :=
  ofTasks [Task.new 0 0 1 (CapTable.ofList [⟨.serial, false, true, false, false, 1, none⟩]),
    Task.new 0 0 2 CapTable.new]

/-- A service is migrated, failed over, changed and migrated again. The second
failover restores the first checkpoint, without the capability. -/
theorem failover_restores_first : ∃ u s s' task r,
    Lib.Run DistStep (ofTasks [Task.new 0 0 0 CapTable.new, Task.new 0 0 1 CapTable.new])
      [.registered 7 (.localTask 0), .migrated 7 1 (.ok 0), .failedOver 7 1 (.ok 0),
        .localChange endowed.kernel] u ∧
    u.registry.resolve 7 = some (.localTask 1) ∧ u.kernel.sched.getTask 1 = some task ∧
    Lib.Run DistStep u [.migrated 7 1 (.ok 1)] s ∧ s.failover 7 2 = (s', .ok 0) ∧
    s'.kernel.sched.getTask 2 = some r ∧ r.capTable ≠ task.capTable := by
  refine ⟨_, _, _, _, _, .cons (.register ..) (.cons (.migrate rfl) (.cons (.failover rfl)
    (.cons (.localChange ..) (.nil _)))), rfl, rfl, .cons (.migrate rfl) (.nil _), rfl, rfl, ?_⟩
  intro h
  have hslot := congrArg (fun c => (c.slots ⟨0, by decide⟩).isSome) h
  cases hslot

end System

end Runix
