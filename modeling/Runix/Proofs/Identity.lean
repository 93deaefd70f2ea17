import Runix.Services
import Runix.Proofs.Authority
import Runix.Lib.Naming

namespace Runix
open Lib Relation

/-- The identity has been drawn from the counter. Counter `0` is a counter
that has wrapped: nothing is left. -/
def Spent (counter id : Nat) : Prop := counter = 0 ∨ id < counter

theorem Spent.next {counter id : Nat} (h : Spent counter id) (h0 : counter ≠ 0)
    (hlt : counter < 2 ^ 64) : Spent ((counter + 1) % 2 ^ 64) id := by
  unfold Spent at *
  omega

theorem spent_self {counter : Nat} (hlt : counter < 2 ^ 64) :
    Spent ((counter + 1) % 2 ^ 64) counter := by
  unfold Spent
  omega

theorem not_spent_self {counter : Nat} (h0 : counter ≠ 0) : ¬ Spent counter counter := by
  unfold Spent
  omega

/-- No client of the key-value service is 100 above a client of the log
service, whose reply identities start 100 higher. -/
def Separate (clients : Service → Fin maxTasks → Prop) : Prop :=
  ∀ i j, clients .kv i → clients .log j → i.val ≠ j.val + 100

def IsReplyId (clients : Service → Fin maxTasks → Prop) (id : Nat) : Prop :=
  ∃ svc client, clients svc client ∧ id = svc.replyId client

/-- The hard-coded identities begin at 8200. -/
theorem le_replyId (svc : Service) (client : Fin maxTasks) : 8200 ≤ svc.replyId client := by
  cases svc <;> simp only [Service.replyId, Service.replyBase] <;> omega

theorem replyId_inj {clients : Service → Fin maxTasks → Prop} (hc : Separate clients)
    {svc svc' : Service} {i j : Fin maxTasks} (hi : clients svc i) (hj : clients svc' j)
    (h : svc.replyId i = svc'.replyId j) : svc = svc' ∧ i = j := by
  have hi' := i.isLt
  have hj' := j.isLt
  unfold maxTasks at hi' hj'
  suffices hs : svc = svc' from
    ⟨hs, Fin.ext (by subst hs; exact Nat.add_left_cancel h)⟩
  unfold Service.replyId at h
  cases svc <;> cases svc' <;> simp only [Service.replyBase] at h <;> first | rfl | omega | skip
  · exact absurd (by omega) (hc i j hi hj)
  · exact absurd (by omega) (hc j i hj hi)

section
variable {clients : Service → Fin maxTasks → Prop} (hc : Separate clients)

/-- Capabilities named by their identities; the reply channels are the fixed
records of slot 1 of their services. -/
def capNaming : Naming (Fin maxTasks) (Fin maxCaps) Capability Nat where
  name := Capability.id
  fixed p c := ∃ svc client, clients svc client ∧ p = (svc.task, replySlot) ∧
    c = svc.replyCap client
  coherent := by
    rintro _ _ _ _ ⟨svc, i, hi, rfl, rfl⟩ ⟨svc', j, hj, rfl, rfl⟩ h
    obtain ⟨rfl, rfl⟩ := replyId_inj hc hi hj h
    exact ⟨rfl, rfl⟩

theorem capNaming_reserved {id : Nat} : (capNaming hc).Reserved id ↔ IsReplyId clients id := by
  constructor
  · rintro ⟨_, _, ⟨svc, client, hclient, _, rfl⟩, rfl⟩
    exact ⟨svc, client, hclient, rfl⟩
  · rintro ⟨svc, client, hclient, rfl⟩
    exact ⟨_, _, ⟨svc, client, hclient, rfl, rfl⟩, rfl⟩

end

namespace System

def view (s : System) : Naming.State (Fin maxTasks) (Fin maxCaps) Capability Nat where
  live := s.kernel.sched.store
  saved r := ∃ i svc cp, s.remote.services i = some (svc, cp) ∧ r = cp.capTable.slots
  spent := Spent s.kernel.nextCapId

@[simp] theorem view_live (s : System) : s.view.live = s.kernel.sched.store := rfl

def upcoming (counter : Nat) : Nat → List Nat
  | 0 => []
  | n + 1 => counter :: upcoming ((counter + 1) % 2 ^ 64) n

def draws (s : System) : SystemAction → List Nat
  | .syscall ⟨_, .capGrant ..⟩ | .syscall ⟨_, .spawnTask _⟩ | .insert .. | .ensureService _ =>
    upcoming s.kernel.nextCapId 1
  | .create _ caps => upcoming s.kernel.nextCapId caps.length
  | .syncDemoGuarded | .benchContend _ => upcoming s.kernel.nextCapId 2
  | _ => []

/-- The identity is a legal one to draw: the counter has not wrapped, and the
identity is not one of the hard-coded ones in use. -/
def Drawable (clients : Service → Fin maxTasks → Prop) (id : Nat) : Prop :=
  id ≠ 0 ∧ ¬ IsReplyId clients id

/-- The conditions under which an operation respects identities. Tables are
not cloned, services answer the named clients only, and a checkpoint is restored
only where none of its capabilities is live elsewhere. -/
def Careful (clients : Service → Fin maxTasks → Prop) (s : System) (a : SystemAction) : Prop :=
  (∀ id ∈ s.draws a, Drawable clients id) ∧
  match a with
  | .reply svc client => clients svc client
  | .syncDemoGuarded => False
  | .benchContend n => n ≤ 1
  | .failover svc replica => ∀ cp, s.remote.checkpointOf svc = some cp →
      ∀ j c, cp.capTable.slots j = some c → ¬ IsReplyId clients c.id ∧
        ∀ q d, q.1.val ≠ replica → s.kernel.sched.store q = some d → d.id ≠ c.id
  | _ => True

/-- The second state is reached by disciplined steps, and its counter fits
into 64 bits if the first one's does. -/
def Reaches (N : Naming (Fin maxTasks) (Fin maxCaps) Capability Nat) (s t : System) : Prop :=
  s.kernel.nextCapId < 2 ^ 64 →
    t.kernel.nextCapId < 2 ^ 64 ∧ ReflTransGen N.Step s.view t.view

section
variable {N : Naming (Fin maxTasks) (Fin maxCaps) Capability Nat} {s t u : System}

theorem Reaches.trans (h : Reaches N s t) (h' : Reaches N t u) : Reaches N s u := by
  intro hlt
  obtain ⟨hlt₁, hsteps⟩ := h hlt
  obtain ⟨hlt₂, hsteps'⟩ := h' hlt₁
  exact ⟨hlt₂, hsteps.trans hsteps'⟩

/-- An operation that only removes capabilities from live tables. -/
theorem reaches_of_sub (hremote : t.remote = s.remote)
    (hcounter : t.kernel.nextCapId = s.kernel.nextCapId)
    (hstore : ∀ p c, t.kernel.sched.store p = some c → s.kernel.sched.store p = some c) :
    Reaches N s t := by
  intro hlt
  refine ⟨hcounter ▸ hlt, .single (.drop hstore ?_ ?_)⟩
  · simp [view, hremote]
  · simp [view, hcounter]

theorem reaches_of_eq (hremote : t.remote = s.remote)
    (hcounter : t.kernel.nextCapId = s.kernel.nextCapId)
    (hstore : t.kernel.sched.store = s.kernel.sched.store) : Reaches N s t :=
  reaches_of_sub hremote hcounter (fun _ _ h => hstore ▸ h)

end

section
variable {clients : Service → Fin maxTasks → Prop} (hc : Separate clients) {s t : System}

/-- An identity is drawn and the capability it was meant for is dropped. -/
theorem reaches_draw (hd : Drawable clients s.kernel.nextCapId) (hremote : t.remote = s.remote)
    (hcounter : t.kernel.nextCapId = (s.kernel.nextCapId + 1) % 2 ^ 64)
    (hstore : t.kernel.sched.store = s.kernel.sched.store) : Reaches (capNaming hc) s t := by
  intro hlt
  refine ⟨by omega, .single (.drop (fun p c h => ?_) ?_ fun id hid => ?_)⟩
  · simpa only [view_live, hstore] using h
  · simp [view, hremote]
  · simpa only [view, hcounter] using Spent.next hid hd.1 hlt

/-- A capability with the next identity goes into a slot. -/
theorem reaches_issue {p : Slot} {c : Capability} (hd : Drawable clients s.kernel.nextCapId)
    (hremote : t.remote = s.remote)
    (hcounter : t.kernel.nextCapId = (s.kernel.nextCapId + 1) % 2 ^ 64)
    (hstore : t.kernel.sched.store =
      Function.update s.kernel.sched.store p (some { c with id := s.kernel.nextCapId })) :
    Reaches (capNaming hc) s t := by
  intro hlt
  refine ⟨by omega, .single (.issue (a := { c with id := s.kernel.nextCapId })
    (not_spent_self hd.1) (fun h => hd.2 ((capNaming_reserved hc).mp h)) hstore ?_
    (fun id hid => ?_) ?_)⟩
  · simp [view, hremote]
  · simpa only [view, hcounter] using Spent.next hid hd.1 hlt
  · simp only [view, hcounter]
    exact spent_self hlt

/-- The capability system calls, by what they do to the store. -/
theorem reaches_store {σ σ' : Slot → Option Capability} {n n' : Nat} (h : StoreStep (σ, n) (σ', n'))
    (hσ : s.kernel.sched.store = σ) (hn : s.kernel.nextCapId = n)
    (hσ' : t.kernel.sched.store = σ') (hn' : t.kernel.nextCapId = n')
    (hd : n' ≠ n → Drawable clients n) (hremote : t.remote = s.remote) :
    Reaches (capNaming hc) s t := by
  subst hσ hn
  have hmoves : (s.kernel.nextCapId + 1) % 2 ^ 64 ≠ s.kernel.nextCapId := by omega
  cases h with
  | idle => exact reaches_of_eq hremote hn' hσ'
  | draw => exact reaches_draw hc (hd hmoves) hremote hn' hσ'
  | mint => exact reaches_issue hc (hd hmoves) hremote hn' hσ'
  | @derive _ _ _ _ c d _ _ _ _ =>
    exact reaches_issue hc (c := { c with origin := some d.id }) (hd hmoves) hremote hn' hσ'
  | revoke _ hw _ =>
    exact reaches_of_sub hremote hn' (fun q d hq => (hw.kept_cleared (hσ' ▸ hq)).2)

theorem reaches_syscall {a : CapAction} {k : Kernel} (h : capSystem s.kernel a = some k)
    (hd : ∀ id ∈ s.draws (.syscall a), Drawable clients id) :
    Reaches (capNaming hc) s { s with kernel := k } := by
  refine reaches_store hc (capSystem_step h) rfl rfl rfl rfl (fun hne => ?_) rfl
  obtain ⟨caller, request⟩ := a
  cases request with
  | capGrant | spawnTask => exact hd _ (by simp [draws, upcoming])
  | capRevoke target capIdx =>
    obtain rfl := Option.some.inj h
    exact absurd (Kernel.dispatchCapRevoke_nextCapId ..) hne

theorem reaches_insertCap {task : TaskId} {cap : Capability} (h : s.insertCap task cap = some t)
    (hd : Drawable clients s.kernel.nextCapId) : Reaches (capNaming hc) s t := by
  unfold insertCap at h
  split at h
  · cases h
  · rename_i u hu
    split at h
    · rename_i slot table counter hins
      cases h
      obtain ⟨rfl, p, _, hstore⟩ := Kernel.store_insert hu hins
      exact reaches_issue hc hd rfl rfl hstore
    · rename_i counter hins
      cases h
      exact reaches_draw hc hd rfl (Kernel.insert_none_counter hins) rfl

theorem set_set (s : Scheduler) (i : Fin maxTasks) (t u : Option Task) :
    (s.set i t).set i u = s.set i u := by
  simp [Scheduler.set]

theorem reaches_spawn_empty {N : Naming (Fin maxTasks) (Fin maxCaps) Capability Nat}
    (s : System) (i : Fin maxTasks) : Reaches N s (s.spawn i CapTable.new) := by
  refine reaches_of_sub rfl rfl fun p c hp => ?_
  simp only [spawn, modifySched, Scheduler.store_set] at hp
  split at hp
  · simp [Task.new, CapTable.new] at hp
  · exact hp

/-- Insertions into the table of a task under construction. -/
theorem reaches_insertAll (s : System) (i : Fin maxTasks) (table : CapTable)
    (caps : List Capability)
    (hd : ∀ id ∈ upcoming s.kernel.nextCapId caps.length, Drawable clients id) :
    Reaches (capNaming hc) (s.spawn i table)
      ((s.setCounter (table.insertAll s.kernel.nextCapId caps).2).spawn i
        (table.insertAll s.kernel.nextCapId caps).1) := by
  induction caps generalizing s table with
  | nil => exact reaches_of_eq rfl rfl rfl
  | cons cap caps ih =>
    simp only [List.length_cons, upcoming, List.mem_cons, forall_eq_or_imp] at hd
    have hrest := ih (s.setCounter ((s.kernel.nextCapId + 1) % 2 ^ 64))
    rcases CapTable.insert_cases table s.kernel.nextCapId cap with ⟨j, _, heq⟩ | ⟨_, heq⟩
    · simp only [CapTable.insertAll, heq]
      refine Reaches.trans ?_ (hrest _ hd.2)
      refine reaches_issue hc (p := (i, j)) (c := cap) hd.1 rfl rfl ?_
      simp only [spawn, modifySched]
      rw [← set_set _ i (some (Task.new s.kernel.stackBase s.kernel.memory.activePml4 i table))]
      exact Scheduler.store_set_slot (Scheduler.set_tasks_self ..) rfl
    · simp only [CapTable.insertAll, heq]
      refine Reaches.trans ?_ (hrest _ hd.2)
      exact reaches_draw hc hd.1 rfl rfl rfl

theorem reaches_spawnWith (s : System) (i : Fin maxTasks) (caps : List Capability)
    (hd : ∀ id ∈ upcoming s.kernel.nextCapId caps.length, Drawable clients id) :
    Reaches (capNaming hc) s (s.spawnWith caps [i]) :=
  (reaches_spawn_empty s i).trans (reaches_insertAll hc s i CapTable.new caps hd)

theorem reaches_spawnClones {N : Naming (Fin maxTasks) (Fin maxCaps) Capability Nat}
    (s : System) (is : List (Fin maxTasks)) : Reaches N s (s.spawnClones CapTable.new is) := by
  induction is generalizing s with
  | nil => exact reaches_of_eq rfl rfl rfl
  | cons i is ih => exact (reaches_spawn_empty s i).trans (ih (s.spawn i CapTable.new))

theorem reaches_ensureService (s : System) (svc : Service)
    (hd : Drawable clients s.kernel.nextCapId) : Reaches (capNaming hc) s (s.ensureService svc) := by
  unfold ensureService
  split
  · exact reaches_spawnWith hc s svc.task _ (by simpa [upcoming] using hd)
  · exact reaches_of_eq rfl rfl rfl

theorem contendTasks_one {n : Nat} (h : n ≤ 1) :
    contendTasks (contenders n) = [⟨90, by decide⟩] := by
  have hone : contenders n = 1 := by
    unfold contenders
    omega
  rw [hone]
  rfl

theorem reaches_revoke {N : Naming (Fin maxTasks) (Fin maxCaps) Capability Nat} (s : System)
    (task : TaskId) (capIdx : Nat) : Reaches N s (s.modifySched (fun sched =>
      sched.modify task (fun t => { t with capTable := (t.capTable.kernelRevoke capIdx).2 }))) := by
  refine reaches_of_sub rfl rfl fun p c hp => ?_
  simp only [modifySched] at hp
  cases hu : s.kernel.sched.getTask task with
  | none => rwa [Scheduler.modify_none hu] at hp
  | some u =>
    obtain ⟨_, hlt, htask⟩ := Scheduler.getTask_some hu
    rw [Scheduler.modify_some hu hlt, Scheduler.store_set] at hp
    split at hp
    · rename_i hi
      refine Scheduler.store_eq_some.mpr ⟨u, hi ▸ htask, ?_⟩
      simp only [CapTable.kernelRevoke, CapTable.clear, Option.bind_some] at hp
      split at hp
      · by_cases hj : p.2 = ⟨capIdx, by assumption⟩
        · simp [hj] at hp
        · simpa [Function.update_of_ne hj] using hp
      · exact hp
    · exact hp

theorem reaches_reply {svc : Service} {client : Fin maxTasks} (hclient : clients svc client)
    (h : s.installReply svc client = some t) : Reaches (capNaming hc) s t := by
  unfold installReply at h
  split at h
  · cases h
  · rename_i u hu
    cases h
    obtain ⟨_, hlt, htask⟩ := Scheduler.getTask_some hu
    have hstore : (s.kernel.sched.modify svc.task (fun me =>
        { me with capTable := me.capTable.put replySlot (svc.replyCap client) })).store =
        Function.update s.kernel.sched.store (svc.task, replySlot)
          (some (svc.replyCap client)) := by
      rw [Scheduler.modify_some hu hlt]
      exact Scheduler.store_set_slot htask rfl
    have hstep := Naming.Step.post (N := capNaming hc) (s := s.view)
      (p := (svc.task, replySlot)) (a := svc.replyCap client) ⟨svc, client, hclient, rfl, rfl⟩
    rw [view_live, ← hstore] at hstep
    exact fun hcounter => ⟨hcounter, .single hstep⟩

theorem reaches_migrate {N : Naming (Fin maxTasks) (Fin maxCaps) Capability Nat} (s : System)
    (svc : ServiceId) (dest : NodeId) : Reaches N s (s.migrate svc dest).1 := by
  unfold migrate
  split
  · rename_i tid _
    split
    · exact reaches_of_eq rfl rfl rfl
    · rename_i u hu
      obtain ⟨_, hlt, htask⟩ := Scheduler.getTask_some hu
      intro hcounter
      refine ⟨hcounter, .head (.save s.view ⟨tid, hlt⟩) (.single (.drop ?_ ?_ fun _ h => h))⟩
      · intro p c hp
        simp only [view, modifySched, hlt, dite_true, Scheduler.store_set] at hp
        split at hp
        · cases hp
        · exact hp
      · rintro r ⟨i, svc', cp, hi, rfl⟩
        rcases RemoteNode.host_services hi with hi | he
        · exact .inl ⟨i, svc', cp, hi, rfl⟩
        · cases he
          refine .inr (funext fun j => ?_)
          simp [Naming.State.row, view, Scheduler.store, htask, Task.checkpoint]
  · exact reaches_of_eq rfl rfl rfl

theorem reaches_failover (s : System) (svc : ServiceId) (replica : TaskId)
    (hok : Careful clients s (.failover svc replica)) :
    Reaches (capNaming hc) s (s.failover svc replica).1 := by
  unfold failover
  split
  · exact reaches_of_eq rfl rfl rfl
  · rename_i cp hcp
    split
    · exact reaches_of_eq rfl rfl rfl
    · rename_i u hu
      obtain ⟨_, hlt, htask⟩ := Scheduler.getTask_some hu
      obtain ⟨i, hi⟩ := RemoteNode.checkpointOf_some hcp
      have halone := hok.2 cp hcp
      intro hcounter
      refine ⟨hcounter, .single ?_⟩
      have hstore : (s.kernel.sched.modify replica (fun t => { t with
          capTable := cp.capTable, ipcBuffer := cp.ipcBuffer, msgQueue := cp.msgQueue })).store =
          Naming.putRow s.view.live ⟨replica, hlt⟩ cp.capTable.slots := by
        funext p
        rw [Scheduler.modify_some hu hlt, Scheduler.store_set]
        rfl
      have hstep := Naming.Step.restore (N := capNaming hc) (s := s.view) (i := ⟨replica, hlt⟩)
        (r := cp.capTable.slots) ⟨i, svc, cp, hi, rfl⟩
        (fun j c hj h => (halone j c hj).1 ((capNaming_reserved hc).mp h))
        (fun j c q d hj hq hd => (halone j c hj).2 q d (fun he => hq (Fin.ext he)) hd)
      rw [← hstore] at hstep
      exact hstep

/-- Every careful operation consists of disciplined steps. -/
theorem step_reaches {a : SystemAction} (hok : Careful clients s a) (h : s.step a = some t) :
    Reaches (capNaming hc) s t := by
  have hd := hok.1
  cases a with
  | syscall a =>
    obtain ⟨k, hk, rfl⟩ := Option.map_eq_some_iff.mp h
    exact reaches_syscall hc hk hd
  | insert task cap => exact reaches_insertCap hc h (hd _ (by simp [draws, upcoming]))
  | reply svc client => exact reaches_reply hc hok.2 h
  | syncDemoGuarded => exact hok.2.elim
  | create i caps =>
    cases h
    exact reaches_spawnWith hc s i caps hd
  | revoke task capIdx =>
    cases h
    exact reaches_revoke s task capIdx
  | ensureService svc =>
    cases h
    exact reaches_ensureService hc s svc (hd _ (by simp [draws, upcoming]))
  | syncDemoUnguarded =>
    cases h
    exact reaches_spawnClones s _
  | benchContend n =>
    cases h
    rw [benchContend, contendTasks_one hok.2]
    exact reaches_spawnWith hc s _ _ hd
  | register svc loc =>
    cases h
    exact reaches_of_eq rfl rfl rfl
  | migrate svc dest =>
    cases h
    exact reaches_migrate s svc dest
  | failover svc replica =>
    cases h
    exact reaches_failover hc s svc replica hok

theorem run_reaches {as : List SystemAction}
    (hr : Run (Guarded (Careful clients) (Steps step)) s as t) : Reaches (capNaming hc) s t := by
  induction hr with
  | nil => exact reaches_of_eq rfl rfl rfl
  | cons head _ ih => exact (step_reaches hc head.1 head.2).trans ih

theorem sound_boot (memory : Memory) (stackBase : Nat) :
    (capNaming hc).Sound (boot memory stackBase).view where
  distinct p q c d hp := by cases hp
  rows r hr := by
    obtain ⟨i, svc, cp, hi, _⟩ := hr
    cases hi
  known c hpresent := by
    rcases hpresent with ⟨p, hp⟩ | ⟨r, j, ⟨i, svc, cp, hi, _⟩, _⟩
    · cases hp
    · cases hi
  home p q c hp := by cases hp
  agree c d hpresent := by
    rcases hpresent with ⟨p, hp⟩ | ⟨r, j, ⟨i, svc, cp, hi, _⟩, _⟩
    · cases hp
    · cases hi

/-- In runs of careful operations, identities are unique in every state, and
an identity seen once stands for the same capability ever after. -/
theorem identities_unique (hc : Separate clients) {memory : Memory} {stackBase : Nat}
    {as bs : List SystemAction}
    (hs : Run (Guarded (Careful clients) (Steps step)) (boot memory stackBase) as s)
    (ht : Run (Guarded (Careful clients) (Steps step)) s bs t) :
    (∀ p q c d, t.kernel.sched.store p = some c → t.kernel.sched.store q = some d →
      c.id = d.id → p = q) ∧
    (∀ p q c d, s.kernel.sched.store p = some c → t.kernel.sched.store q = some d →
      c.id = d.id → c = d) := by
  obtain ⟨hlt, hsteps⟩ := run_reaches hc hs (Nat.one_lt_two_pow (by decide))
  obtain ⟨_, hsteps'⟩ := run_reaches hc ht hlt
  have hsound := (sound_boot hc memory stackBase).steps hsteps
  refine ⟨(hsound.steps hsteps').distinct, fun p q c d hp hq he => ?_⟩
  exact hsound.same hsteps' (Naming.State.present_live hp) (Naming.State.present_live hq) he

theorem drawable_low {counter n : Nat} (h0 : counter ≠ 0) (h : counter + n ≤ 8200) :
    ∀ id ∈ upcoming counter n, Drawable clients id := by
  induction n generalizing counter with
  | zero => simp [upcoming]
  | succ n ih =>
    have hnext : (counter + 1) % 2 ^ 64 = counter + 1 := by omega
    simp only [upcoming, hnext, List.mem_cons, forall_eq_or_imp]
    refine ⟨⟨h0, ?_⟩, ih (by omega) (by omega)⟩
    rintro ⟨svc, client, _, rfl⟩
    have := le_replyId svc client
    omega

end

def bare : System := boot ⟨fun _ => 0, ⟨0, 0⟩, 0⟩ 0

/-- Two contenders of the benchmark hold the same identities. -/
theorem contenders_share_identity : ∃ t p q c d,
    Run (Steps step) bare [.ensureService .sync, .benchContend 2] t ∧
      p ≠ q ∧ t.kernel.sched.store p = some c ∧ t.kernel.sched.store q = some d ∧ c.id = d.id :=
  ⟨_, (⟨90, by decide⟩, ⟨0, by decide⟩), (⟨91, by decide⟩, ⟨0, by decide⟩), _, _,
    .cons rfl (.cons rfl (.nil _)), by decide, rfl, rfl, rfl⟩

def migrated : System :=
  (((bare.benchContend 1).register 1 (.localTask 90)).migrate 1 1).1.spawnWith [] [⟨76, by decide⟩]

theorem migrated_tasks : ∀ i : Fin maxTasks, i.val ≠ 76 →
    (migrated.kernel.sched.tasks i).isNone = true := by
  decide

theorem migrated_checkpoint : ∀ j, (migrated.remote.checkpointOf 1).all (fun cp =>
    (cp.capTable.slots j).all (fun c => decide (c.id < 8200))) = true := by
  decide

theorem migrated_careful : Careful (fun _ i => i.val < 100) migrated (.failover 1 76) := by
  refine ⟨by simp [draws], fun cp hcp j c hj => ⟨?_, fun q d hq hd => ?_⟩⟩
  · have hlow := migrated_checkpoint j
    simp only [hcp, Option.all_some, hj, decide_eq_true_eq] at hlow
    rintro ⟨svc, client, _, he⟩
    have := le_replyId svc client
    omega
  · have hnone := Option.isNone_iff_eq_none.mp (migrated_tasks q.1 hq)
    simp [Scheduler.store, hnone] at hd

/-- The checkpoint of a contender is restored in the other task, which then
asks the key-value service. -/
theorem identities_unique_restored : ∃ s t,
    Run (Guarded (Careful fun _ i => i.val < 100) (Steps step)) bare
      [.benchContend 1, .register 1 (.localTask 90), .migrate 1 1, .create ⟨76, by decide⟩ []] s ∧
    Run (Guarded (Careful fun _ i => i.val < 100) (Steps step)) s
      [.failover 1 76, .ensureService .kv, .reply .kv ⟨76, by decide⟩] t ∧
    ∀ p q c d, t.kernel.sched.store p = some c → t.kernel.sched.store q = some d →
      c.id = d.id → p = q := by
  have hsep : Separate (fun _ i => i.val < 100) := by
    intro i j hi hj
    omega
  have hs : Run (Guarded (Careful fun _ i => i.val < 100) (Steps step)) bare
      [.benchContend 1, .register 1 (.localTask 90), .migrate 1 1, .create ⟨76, by decide⟩ []]
      migrated := by
    refine .cons ⟨⟨drawable_low (by decide) (by decide), by decide⟩, rfl⟩ ?_
    refine .cons ⟨⟨by simp [draws], trivial⟩, rfl⟩ ?_
    refine .cons ⟨⟨by simp [draws], trivial⟩, rfl⟩ ?_
    exact .cons ⟨⟨by simp [draws, upcoming], trivial⟩, rfl⟩ (.nil _)
  obtain ⟨t, ht⟩ : ∃ t, Run (Guarded (Careful fun _ i => i.val < 100) (Steps step)) migrated
      [.failover 1 76, .ensureService .kv, .reply .kv ⟨76, by decide⟩] t :=
    ⟨_, .cons ⟨migrated_careful, rfl⟩
      (.cons ⟨⟨drawable_low (by decide) (by decide), trivial⟩, rfl⟩
        (.cons ⟨⟨by simp [draws], by decide⟩, rfl⟩ (.nil _)))⟩
  exact ⟨migrated, t, hs, ht, (identities_unique hsep hs ht).1⟩

end System

end Runix
