import Runix.Dist
import Runix.Lib.Run

namespace Runix

open Lib (Table)

def DistEvent.placed : DistEvent → Option (ServiceId × Location)
  | .registered svc loc => some (svc, loc)
  | .migrated svc dest (.ok _) => some (svc, .remote dest)
  | .failedOver svc replica (.ok _) => some (svc, .localTask replica)
  | _ => none

def DistEvent.service : DistEvent → Option ServiceId
  | .registered svc _ => some svc
  | .migrated svc _ _ => some svc
  | .failedOver svc _ _ => some svc
  | _ => none

theorem DistEvent.service_of_placed {e : DistEvent} {svc : ServiceId} {loc : Location}
    (h : e.placed = some (svc, loc)) : e.service = some svc := by
  cases e with
  | registered svc' loc' =>
    cases h
    rfl
  | migrated svc' dest r =>
    cases r with
    | error => cases h
    | ok n =>
      cases h
      rfl
  | failedOver svc' replica r =>
    cases r with
    | error => cases h
    | ok n =>
      cases h
      rfl
  | routed | pumped | localChange => cases h

def services (es : List DistEvent) : Finset ServiceId := (es.filterMap DistEvent.service).toFinset

def installed (es : List DistEvent) (svc : ServiceId) : Option Location :=
  es.reverse.findSome? (fun e => Table.held svc e.placed)

def Registered (es : List DistEvent) (svc : ServiceId) : Prop := ∃ loc, .registered svc loc ∈ es

def routedTo : Option Location → Routed
  | some (.localTask tid) => .localTask tid
  | some (.remote node) => .remote node
  | none => .unknown

theorem installed_snoc (es : List DistEvent) (e : DistEvent) (svc : ServiceId) :
    installed (es ++ [e]) svc = (Table.held svc e.placed).or (installed es svc) := by
  simp only [installed, List.reverse_append, List.reverse_singleton, List.singleton_append,
    List.findSome?_cons]
  cases Table.held svc e.placed <;> rfl

theorem services_subset_snoc (es : List DistEvent) (e : DistEvent) :
    services es ⊆ services (es ++ [e]) := by
  intro svc hsvc
  simp only [services, List.mem_toFinset, List.filterMap_append, List.mem_append] at hsvc ⊢
  exact .inl hsvc

theorem mem_services_snoc {e : DistEvent} {svc : ServiceId} (es : List DistEvent)
    (h : e.service = some svc) : svc ∈ services (es ++ [e]) := by
  simp [services, h]

theorem Registered.snoc {es : List DistEvent} {svc : ServiceId} (h : Registered es svc)
    (e : DistEvent) : Registered (es ++ [e]) svc := by
  obtain ⟨loc, hloc⟩ := h
  exact ⟨loc, List.mem_append_left _ hloc⟩

/-- A registration is never forgotten. -/
theorem Registered.installed {es : List DistEvent} {svc : ServiceId} (h : Registered es svc) :
    installed es svc ≠ none := by
  obtain ⟨loc, hloc⟩ := h
  intro hnone
  have := List.findSome?_eq_none_iff.mp hnone _ (List.mem_reverse.mpr hloc)
  rw [DistEvent.placed, Table.held_self] at this
  cases this

namespace System
variable {s t : System} {e : DistEvent} {svc : ServiceId} {dest : NodeId} {replica : TaskId} {n : Nat}

inductive Effect (s : System) : DistEvent → System → Prop where
  | quiet {e : DistEvent} {t : System} (hplaced : e.placed = none) (hreg : t.registry = s.registry)
      (hserv : t.remote.services = s.remote.services) (hid : t.remote.id = s.remote.id) : Effect s e t
  | registered (svc : ServiceId) (loc : Location) : Effect s (.registered svc loc) (s.register svc loc)
  | migrated {svc : ServiceId} {dest : NodeId} {n : Nat} {tid : TaskId} {task : Task} {t : System}
      (hroute : s.registry.resolve svc = some (.localTask tid))
      (htask : s.kernel.sched.getTask tid = some task)
      (hreg : t.registry = s.registry.set svc (.remote dest))
      (hrem : t.remote = s.remote.host svc task.checkpoint) : Effect s (.migrated svc dest (.ok n)) t
  | failedOver {svc : ServiceId} {replica : TaskId} {n : Nat} {cp : TaskCheckpoint} {t : System}
      (hcp : s.remote.checkpointOf svc = some cp)
      (hreg : t.registry = s.registry.set svc (.localTask replica)) (hrem : t.remote = s.remote) :
      Effect s (.failedOver svc replica (.ok n)) t

theorem migrate_error {u : Unit} (h : s.migrate svc dest = (t, .error u)) : t = s := by
  unfold migrate at h
  split at h
  · split at h
    · cases h
      rfl
    · cases h
  · cases h
    rfl

theorem migrate_ok (h : s.migrate svc dest = (t, .ok n)) : ∃ tid task,
    s.registry.resolve svc = some (.localTask tid) ∧ s.kernel.sched.getTask tid = some task ∧
      t.registry = s.registry.set svc (.remote dest) ∧
      t.remote = s.remote.host svc task.checkpoint := by
  unfold migrate at h
  split at h
  · rename_i tid hroute
    split at h
    · cases h
    · rename_i task htask
      cases h
      exact ⟨tid, task, hroute, htask, rfl, rfl⟩
  · cases h

theorem failover_error {u : Unit} (h : s.failover svc replica = (t, .error u)) : t = s := by
  unfold failover at h
  split at h
  · cases h
    rfl
  · split at h
    · cases h
      rfl
    · cases h

theorem failover_ok (h : s.failover svc replica = (t, .ok n)) : ∃ cp r,
    s.remote.checkpointOf svc = some cp ∧ s.kernel.sched.getTask replica = some r ∧
      t.registry = s.registry.set svc (.localTask replica) ∧ t.remote = s.remote ∧
      t.kernel.sched = s.kernel.sched.modify replica (fun r =>
        { r with capTable := cp.capTable, ipcBuffer := cp.ipcBuffer, msgQueue := cp.msgQueue }) := by
  unfold failover at h
  split at h
  · cases h
  · rename_i cp hcp
    split at h
    · cases h
    · rename_i r hr
      cases h
      exact ⟨cp, r, hcp, hr, rfl, rfl, rfl⟩

theorem transportSend_services (n : RemoteNode) (node : NodeId) (msg : Message) :
    (n.transportSend node msg).services = n.services ∧ (n.transportSend node msg).id = n.id := by
  unfold RemoteNode.transportSend
  split <;> exact ⟨rfl, rfl⟩

theorem pumpLoop_services {rounds : Nat} : ∀ {n n' : RemoteNode} {count count' : Nat},
    n.pumpLoop rounds count = some (n', count') → n'.services = n.services ∧ n'.id = n.id := by
  induction rounds with
  | zero =>
    intro n n' count count' h
    rw [RemoteNode.pumpLoop] at h
    split at h
    · cases h
      exact ⟨rfl, rfl⟩
    · cases h
  | succ rounds ih =>
    intro n n' count count' h
    rw [RemoteNode.pumpLoop] at h
    split at h
    · cases h
      exact ⟨rfl, rfl⟩
    · split at h
      · obtain ⟨hserv, hid⟩ := ih h
        exact ⟨hserv, hid⟩
      · cases h

theorem quiet_route {cap : Capability} {payload : List UInt8} {r : Routed}
    (h : s.routeSend cap payload = (t, r)) : s.Effect (.routed cap payload r) t := by
  unfold routeSend at h
  split at h
  · split at h
    · cases h
      exact .quiet rfl rfl rfl rfl
    · cases h
      exact .quiet rfl rfl rfl rfl
    · cases h
      obtain ⟨hserv, hid⟩ := transportSend_services s.remote _ (s.routedMessage payload)
      exact .quiet rfl rfl hserv hid
  · cases h
    exact .quiet rfl rfl rfl rfl

theorem DistStep.effect (h : DistStep s e t) : s.Effect e t := by
  cases h with
  | register svc loc => exact .registered svc loc
  | route h => exact quiet_route h
  | @migrate _ svc dest r h =>
    cases r with
    | error u =>
      cases migrate_error h
      exact .quiet rfl rfl rfl rfl
    | ok n =>
      obtain ⟨tid, task, hroute, htask, hreg, hrem⟩ := migrate_ok h
      exact .migrated hroute htask hreg hrem
  | pump h =>
    obtain ⟨⟨node, count⟩, hloop, heq⟩ := Option.map_eq_some_iff.mp h
    cases heq
    obtain ⟨hserv, hid⟩ := pumpLoop_services hloop
    exact .quiet rfl rfl hserv hid
  | @failover _ svc replica r h =>
    cases r with
    | error u =>
      cases failover_error h
      exact .quiet rfl rfl rfl rfl
    | ok n =>
      obtain ⟨cp, _, hcp, _, hreg, hrem, _⟩ := failover_ok h
      exact .failedOver hcp hreg hrem
  | localChange kernel => exact .quiet rfl rfl rfl rfl

/-- The routing table changes by the installed route and by nothing else. -/
theorem Effect.registry (h : s.Effect e t) :
    (e.placed = none ∧ t.registry = s.registry) ∨
      ∃ svc loc, e.placed = some (svc, loc) ∧ t.registry = s.registry.set svc loc := by
  cases h with
  | quiet hplaced hreg => exact .inl ⟨hplaced, hreg⟩
  | registered svc loc => exact .inr ⟨svc, loc, rfl, rfl⟩
  | migrated _ _ hreg => exact .inr ⟨_, _, rfl, hreg⟩
  | failedOver _ hreg => exact .inr ⟨_, _, rfl, hreg⟩

theorem Effect.id (h : s.Effect e t) : t.remote.id = s.remote.id := by
  cases h with
  | quiet _ _ _ hid => exact hid
  | registered => rfl
  | migrated _ _ _ hrem => rw [hrem, RemoteNode.host_eq]
  | failedOver _ _ hrem => rw [hrem]

/-- A call about another service leaves the route alone. -/
theorem Effect.resolve_ne (h : s.Effect e t) (hsvc : e.service ≠ some svc) :
    t.registry.resolve svc = s.registry.resolve svc := by
  rcases h.registry with ⟨_, hreg⟩ | ⟨svc', loc, hplaced, hreg⟩
  · rw [hreg]
  · have hne : svc ≠ svc' := fun he => hsvc (he ▸ DistEvent.service_of_placed hplaced)
    rw [hreg, ServiceRegistry.resolve_eq, ServiceRegistry.set_entries, Table.lookup_put_ne hne,
      ServiceRegistry.resolve_eq]

theorem routeSend_result {cap : Capability} (h : cap.resource = .service svc)
    (payload : List UInt8) :
    (s.routeSend cap payload).2 = routedTo (s.registry.resolve svc) := by
  simp only [routeSend, h]
  cases hloc : s.registry.resolve svc with
  | none => rfl
  | some loc => cases loc <;> rfl

def Offered (q : MessageQueue) (msg : Message) (q' : MessageQueue) : Prop :=
  if q.count = msgQueueCapacity then q' = q else q'.contents = q.contents ++ [msg]

inductive Sent (s : System) (msg : Message) : Option Location → System → Prop where
  | nowhere : Sent s msg none s
  | absent {tid : TaskId} (h : s.kernel.sched.getTask tid = none) :
      Sent s msg (some (.localTask tid)) s
  | task {tid : TaskId} {task : Task} {q : MessageQueue} (hlt : tid < maxTasks)
      (h : s.kernel.sched.getTask tid = some task) (hq : Offered task.msgQueue msg q) :
      Sent s msg (some (.localTask tid))
        (s.modifySched (fun sched => sched.set ⟨tid, hlt⟩ (some { task with msgQueue := q })))
  | unreached {node : NodeId} (h : s.remote.id ≠ node) : Sent s msg (some (.remote node)) s
  | node {q : MessageQueue} (hq : Offered s.remote.inbox msg q) :
      Sent s msg (some (.remote s.remote.id)) { s with remote := { s.remote with inbox := q } }

theorem offered_enqueue (q : MessageQueue) (msg : Message) :
    Offered q msg ((q.enqueue msg).getD q) := by
  unfold Offered
  cases hq : q.enqueue msg with
  | none => rw [if_pos (Lib.Ring.enqueue_none.mp hq), Option.getD_none]
  | some q' =>
    have hroom : q.count ≠ msgQueueCapacity := fun hfull => by
      rw [Lib.Ring.enqueue_none.mpr hfull] at hq
      cases hq
    rw [if_neg hroom, Option.getD_some]
    exact Lib.Ring.contents_enqueue hq

theorem routeSend_sent {cap : Capability} (h : cap.resource = .service svc)
    (payload : List UInt8) :
    s.Sent (s.routedMessage payload) (s.registry.resolve svc) (s.routeSend cap payload).1 := by
  simp only [routeSend, h]
  cases hloc : s.registry.resolve svc with
  | none => exact .nowhere
  | some loc =>
    cases loc with
    | localTask tid =>
      simp only [modifySched]
      cases hget : s.kernel.sched.getTask tid with
      | none =>
        rw [Scheduler.modify_none hget]
        exact .absent hget
      | some task =>
        have hlt := (Scheduler.getTask_some hget).2.1
        rw [Scheduler.modify_some hget hlt]
        exact .task hlt hget (offered_enqueue _ _)
    | remote node =>
      simp only [RemoteNode.transportSend]
      split
      · rename_i hid
        subst hid
        exact .node (offered_enqueue _ _)
      · rename_i hid
        exact .unreached hid

/-- The routing table refines the abstract one, and only registered services have
routes and checkpoints. -/
structure Refines (es : List DistEvent) (s : System) : Prop where
  distinct : Table.Distinct s.registry.entries
  keys : ∀ i svc loc, s.registry.entries i = some (svc, loc) → svc ∈ services es
  resolve : ∀ svc, s.registry.resolve svc = installed es svc
  routed : ∀ svc, installed es svc ≠ none → Registered es svc
  hosted : ∀ i svc cp, s.remote.services i = some (svc, cp) → Registered es svc

theorem resolve_new (svc : ServiceId) : ServiceRegistry.new.resolve svc = none := by
  rw [ServiceRegistry.resolve_eq, Table.lookup_eq_none]
  intro i v hi
  cases hi

theorem Fresh.refines (h : s.Fresh) : s.Refines [] where
  distinct i j svc v w hi := by
    rw [h.registry] at hi
    cases hi
  keys i svc loc hi := by
    rw [h.registry] at hi
    cases hi
  resolve svc := by
    rw [h.registry, resolve_new]
    rfl
  routed svc hsvc := absurd rfl hsvc
  hosted i svc cp hi := by
    rw [h.remote] at hi
    cases hi

/-- A write of one more route, in a history that does not involve more services
than the table has entries. -/
theorem Refines.resolve_snoc {es : List DistEvent} (h : s.Refines es) (he : s.Effect e t)
    (hcard : (services (es ++ [e])).card ≤ maxServices) (svc : ServiceId) :
    t.registry.resolve svc = installed (es ++ [e]) svc := by
  rw [installed_snoc]
  rcases he.registry with ⟨hplaced, hreg⟩ | ⟨svc', loc, hplaced, hreg⟩
  · rw [hplaced, hreg, h.resolve]
    rfl
  · have hkeys : ∀ i k v, s.registry.entries i = some (k, v) → k ∈ services (es ++ [e]) :=
      fun i k v hi => services_subset_snoc es e (h.keys i k v hi)
    have hroom := h.distinct.room hkeys
      (mem_services_snoc es (DistEvent.service_of_placed hplaced)) hcard
    rw [hreg, hplaced, ServiceRegistry.resolve_eq, ServiceRegistry.set_entries,
      Table.lookup_put hroom]
    by_cases hsvc : svc = svc'
    · rw [hsvc, Function.update_self, Table.held_self]
      rfl
    · rw [Function.update_of_ne hsvc, ← ServiceRegistry.resolve_eq, h.resolve]
      simp [Table.held, Ne.symm hsvc]

/-- The service of a successful call was registered before, or is registered by it. -/
theorem Refines.registered_snoc {es : List DistEvent} (h : s.Refines es) (he : s.Effect e t)
    {loc : Location} (hplaced : e.placed = some (svc, loc)) : Registered (es ++ [e]) svc := by
  cases he with
  | quiet hnone => cases hnone.symm.trans hplaced
  | registered svc' loc' =>
    cases hplaced
    exact ⟨loc, List.mem_append_right _ List.mem_cons_self⟩
  | migrated hroute =>
    cases hplaced
    rw [h.resolve] at hroute
    exact (h.routed svc (by rw [hroute]; simp)).snoc _
  | failedOver hcp =>
    cases hplaced
    obtain ⟨i, hi⟩ := RemoteNode.checkpointOf_some hcp
    exact (h.hosted i svc _ hi).snoc _

theorem Refines.step {es : List DistEvent} (h : s.Refines es) (he : s.Effect e t)
    (hcard : (services (es ++ [e])).card ≤ maxServices) : t.Refines (es ++ [e]) where
  distinct := by
    rcases he.registry with ⟨_, hreg⟩ | ⟨svc, loc, _, hreg⟩
    · rw [hreg]
      exact h.distinct
    · rw [hreg, ServiceRegistry.set_entries]
      exact h.distinct.put
  keys i svc loc hi := by
    rcases he.registry with ⟨_, hreg⟩ | ⟨svc', loc', hplaced, hreg⟩
    · rw [hreg] at hi
      exact services_subset_snoc es e (h.keys i svc loc hi)
    · rw [hreg, ServiceRegistry.set_entries] at hi
      rcases Table.put_eq_some hi with hnew | hold
      · cases hnew
        exact mem_services_snoc es (DistEvent.service_of_placed hplaced)
      · exact services_subset_snoc es e (h.keys i svc loc hold)
  resolve := h.resolve_snoc he hcard
  routed svc hsvc := by
    rw [installed_snoc] at hsvc
    cases hheld : Table.held svc e.placed with
    | none =>
      rw [hheld] at hsvc
      exact (h.routed svc hsvc).snoc e
    | some loc => exact h.registered_snoc he (Table.held_eq_some.mp hheld)
  hosted i svc cp hi := by
    cases he with
    | quiet _ _ hserv =>
      rw [hserv] at hi
      exact (h.hosted i svc cp hi).snoc _
    | registered => exact (h.hosted i svc cp hi).snoc _
    | migrated hroute _ _ hrem =>
      rw [hrem] at hi
      rcases RemoteNode.host_services hi with hold | hnew
      · exact (h.hosted i svc cp hold).snoc _
      · cases hnew
        rw [h.resolve] at hroute
        exact (h.routed svc (by rw [hroute]; simp)).snoc _
    | failedOver _ _ hrem =>
      rw [hrem] at hi
      exact (h.hosted i svc cp hi).snoc _

theorem run_refines {s₀ : System} {es : List DistEvent} (h₀ : s₀.Fresh)
    (hr : Lib.Run DistStep s₀ es s) (hcard : (services es).card ≤ maxServices) : s.Refines es := by
  refine hr.history (P := fun es s => (services es).card ≤ maxServices → s.Refines es)
    (fun _ => h₀.refines) (fun es s e t _ ih hstep hcard => ?_) hcard
  have hpart := Finset.card_le_card (services_subset_snoc es e)
  exact (ih (Nat.le_trans hpart hcard)).step hstep.effect hcard

/-- Routing refines a finite map: a send goes where the latest successful call put the service,
and nowhere else. -/
theorem routing_refines_map {s₀ : System} {es : List DistEvent} (h₀ : s₀.Fresh)
    (hr : Lib.Run DistStep s₀ es s) (hcard : (services es).card ≤ maxServices) :
    (∀ cap svc payload, cap.resource = .service svc →
      s.Sent (s.routedMessage payload) (installed es svc) (s.routeSend cap payload).1 ∧
      (s.routeSend cap payload).2 = routedTo (installed es svc) ∧
      ((s.routeSend cap payload).2 = .unknown ↔ ¬ Registered es svc)) ∧
    (∀ e t svc, DistStep s e t → e.service ≠ some svc → ∀ cap payload, cap.resource = .service svc →
      t.Sent (t.routedMessage payload) (installed es svc) (t.routeSend cap payload).1 ∧
      (t.routeSend cap payload).2 = (s.routeSend cap payload).2) ∧
    (∀ i j svc loc loc', s.registry.entries i = some (svc, loc) →
      s.registry.entries j = some (svc, loc') → i = j) ∧
    (∀ svc dest t, s.migrate svc dest = (t, .error ()) → ∀ cap payload,
      t.routeSend cap payload = s.routeSend cap payload) ∧
    (∀ svc replica t, s.failover svc replica = (t, .error ()) → ∀ cap payload,
      t.routeSend cap payload = s.routeSend cap payload) := by
  have h := run_refines h₀ hr hcard
  refine ⟨fun cap svc payload hcap => ?_, fun e t svc hstep hsvc cap payload hcap => ?_, h.distinct,
    fun svc dest t ht cap payload => ?_, fun svc replica t ht cap payload => ?_⟩
  · rw [routeSend_result hcap, ← h.resolve]
    refine ⟨routeSend_sent hcap payload, rfl, ?_, fun hnever => ?_⟩
    · intro hunknown hreg
      rw [h.resolve] at hunknown
      cases hloc : installed es svc with
      | none => exact hreg.installed hloc
      | some loc =>
        rw [hloc] at hunknown
        cases loc <;> cases hunknown
    · rw [h.resolve, not_not.mp (fun hsome => hnever (h.routed svc hsome))]
      rfl
  · have hsame := hstep.effect.resolve_ne hsvc
    refine ⟨?_, by rw [routeSend_result hcap, routeSend_result hcap, hsame]⟩
    rw [← h.resolve, ← hsame]
    exact routeSend_sent hcap payload
  · rw [migrate_error ht]
  · rw [failover_error ht]

def Printable (s : System) : Prop := ∀ msg ∈ s.remote.inbox.contents, msg.len ≤ 128

theorem pumpLoop_drains {rounds : Nat} : ∀ (n : RemoteNode) (count : Nat), n.inbox.count = rounds →
    (∀ msg ∈ n.inbox.contents, msg.len ≤ 128) → ∃ n', n.pumpLoop rounds count = some (n', count + rounds) ∧
      n'.inbox.contents = [] ∧ n'.delivered = n.delivered + rounds := by
  induction rounds with
  | zero =>
    intro n count hcount _
    exact ⟨n, by simp [RemoteNode.pumpLoop, hcount], n.inbox.contents_eq_nil.mpr hcount, rfl⟩
  | succ rounds ih =>
    intro n count hcount hlen
    rcases n.inbox.contents_dequeue with ⟨hempty, _⟩ | ⟨msg, inbox, hdeq, hcontents⟩
    · rw [n.inbox.contents_eq_nil.mp hempty] at hcount
      cases hcount
    · rw [hcontents] at hlen
      have hrest : inbox.count = rounds := by
        rw [← n.inbox.length_contents, hcontents, List.length_cons, inbox.length_contents] at hcount
        omega
      obtain ⟨n', hloop, hnil, hdelivered⟩ := ih
        { n with inbox := inbox, delivered := n.delivered + 1 } (count + 1) hrest
        (fun m hm => hlen m (List.mem_cons_of_mem _ hm))
      refine ⟨n', ?_, hnil, hdelivered.trans (by simp only; omega)⟩
      rw [RemoteNode.pumpLoop, hdeq]
      simp only [hlen msg List.mem_cons_self, if_true]
      rw [hloop, Nat.add_right_comm, Nat.add_assoc]

/-- A pump delivers everything in the inbox. -/
theorem Printable.pump (h : s.Printable) : ∃ t, s.pumpRemote = some (t, s.remote.inbox.count) ∧
    t.remote.inbox.contents = [] ∧ t.remote.delivered = s.remote.delivered + s.remote.inbox.count := by
  obtain ⟨n', hloop, hnil, hdelivered⟩ := pumpLoop_drains s.remote 0 rfl h
  rw [Nat.zero_add] at hloop
  exact ⟨{ s with remote := n' }, by rw [pumpRemote, hloop]; rfl, hnil, hdelivered⟩

theorem Printable.transportSend (h : s.Printable) (node : NodeId) (payload : List UInt8) :
    ∀ msg ∈ (s.remote.transportSend node (s.routedMessage payload)).inbox.contents, msg.len ≤ 128 := by
  unfold RemoteNode.transportSend
  split
  · cases hq : s.remote.inbox.enqueue (s.routedMessage payload) with
    | none => exact h
    | some inbox =>
      intro msg hmsg
      simp only [Option.getD_some, Lib.Ring.contents_enqueue hq, List.mem_append,
        List.mem_singleton] at hmsg
      rcases hmsg with hold | rfl
      · exact h msg hold
      · exact Nat.min_le_right ..
  · exact h

theorem Printable.step (h : s.Printable) (hstep : DistStep s e t) : t.Printable := by
  cases hstep with
  | register | localChange => exact h
  | route ht =>
    unfold routeSend at ht
    split at ht
    · split at ht
      · cases ht
        exact h
      · cases ht
        exact h
      · cases ht
        exact h.transportSend _ _
    · cases ht
      exact h
  | @migrate _ _ _ r ht =>
    cases r with
    | error u =>
      cases migrate_error ht
      exact h
    | ok n =>
      obtain ⟨_, _, _, _, _, hrem⟩ := migrate_ok ht
      rw [RemoteNode.host_eq] at hrem
      rw [Printable, hrem]
      exact h
  | pump ht =>
    obtain ⟨t', ht', hnil, _⟩ := h.pump
    cases ht'.symm.trans ht
    rw [Printable, hnil]
    intro msg hmsg
    cases hmsg
  | @failover _ _ _ r ht =>
    cases r with
    | error u =>
      cases failover_error ht
      exact h
    | ok n =>
      obtain ⟨_, _, _, _, _, hrem, _⟩ := failover_ok ht
      rw [Printable, hrem]
      exact h

def ofTasks (ts : List Task) : System where
  kernel := .ofTasks ts 1 none
  registry := ServiceRegistry.new
  remote := RemoteNode.new 1

theorem fresh_ofTasks (ts : List Task) : (ofTasks ts).Fresh := ⟨rfl, rfl⟩

/-- A service is registered, migrated and failed over to another task, which then gets the
messages. -/
theorem routing_refines_map_failover : ∃ s,
    Lib.Run DistStep (ofTasks [Task.new 0 0 0 CapTable.new, Task.new 0 0 1 CapTable.new])
      [.registered 7 (.localTask 0), .migrated 7 1 (.ok 0), .failedOver 7 1 (.ok 0)] s ∧
    ∀ cap payload, cap.resource = .service 7 → (s.routeSend cap payload).2 = .localTask 1 ∧
      ((s.routeSend cap payload).1.kernel.sched.getTask 1).map (fun t => t.msgQueue.contents) =
        some [s.routedMessage payload] := by
  have hr : ∃ s, Lib.Run DistStep
        (ofTasks [Task.new 0 0 0 CapTable.new, Task.new 0 0 1 CapTable.new])
        [.registered 7 (.localTask 0), .migrated 7 1 (.ok 0), .failedOver 7 1 (.ok 0)] s ∧
      (s.kernel.sched.getTask 1).map (fun t => t.msgQueue) = some MessageQueue.new :=
    ⟨_, .cons (.register ..) (.cons (.migrate rfl) (.cons (.failover rfl) (.nil _))), rfl⟩
  obtain ⟨s, hr, hempty⟩ := hr
  refine ⟨s, hr, fun cap payload hcap => ?_⟩
  obtain ⟨hsent, hresult, _⟩ := (routing_refines_map (fresh_ofTasks _) hr (by decide)).1 cap 7 payload
    hcap
  refine ⟨hresult, ?_⟩
  generalize (s.routeSend cap payload).1 = t at hsent
  obtain ⟨task, htask, hqueue⟩ := Option.map_eq_some_iff.mp hempty
  cases hsent with
  | absent hnone => cases htask.symm.trans hnone
  | task hlt hget hq =>
    cases htask.symm.trans hget
    rw [Offered, hqueue, if_neg (by decide)] at hq
    have hid := (Scheduler.getTask_some htask).1
    simp [modifySched, Scheduler.getTask, hlt, hid, hq, MessageQueue.new]

end System

end Runix
