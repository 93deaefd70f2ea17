import Runix.Rpc
import Runix.Lib.Dialogue
import Runix.Proofs.Proceed

namespace Runix

open Lib (Errand Turn Dialogue)

abbrev Calls := Dialogue (Fin maxTasks) SendArgs SendArgs

namespace Rpc

def ClientOk (P : Parties) (i : Fin maxTasks) (at_ : ClientAt) (p : Pc) (t : Task) :
    Errand SendArgs SendArgs → Prop
  | .idle => at_ = .idle ∧ p = .user ∧ t.Awake ∧ t.ipcBuffer = none
  | .left => at_ = .idle ∧ p = .dead ∧ t.state = .terminated
  | .asking a => at_ = .called a ∧ p = .send a ∧ a.capIdx = P.slot i ∧ t.Awake ∧ t.ipcBuffer = none
  | .parked a => at_ = .called a ∧ (p = .sendWait a ∨ p = .sendCheck a) ∧
      t.state = .blockedOnSend P.server
  | .served a => t.ipcBuffer = none ∧
      (at_ = .called a ∧ (p = .sendWait a ∨ p = .sendCheck a) ∧ t.Awake ∨
        at_ = .waiting a ∧ Machine.Receives p t)
  | .answered a b => at_ = .waiting a ∧ (p = .receive ∨ p = .receiveWait) ∧ t.Awake ∧
      t.ipcBuffer = some (b.message P.server)

def ServiceOk (at_ : ServiceAt) (p : Pc) (t : Task) :
    Turn (Fin maxTasks) SendArgs SendArgs → Prop
  | .free => at_ = .ready ∧ t.ipcBuffer = none ∧ Machine.Receives p t
  | .mail i a => at_ = .ready ∧ (p = .receive ∨ p = .receiveWait) ∧ t.Awake ∧
      t.ipcBuffer = some (a.message i)
  | .working i a => p = .user ∧ t.Awake ∧ t.ipcBuffer = none ∧
      (at_ = .serving (a.message i) ∨ (∃ reply, at_ = .handled (a.message i) reply) ∨
        (∃ reply, at_ = .opened (a.message i) reply) ∧ t.capTable.channel replySlot = some i.val)
  | .answering i a b => at_ = .replying (a.message i) b ∧ p = .send b ∧ b.capIdx = replySlot ∧
      t.capTable.channel replySlot = some i.val ∧ t.Awake ∧ t.ipcBuffer = none
  | .stuck i a b => at_ = .replying (a.message i) b ∧ (p = .sendWait b ∨ p = .sendCheck b) ∧
      t.state = .blockedOnSend i
  | .sentOff => (∃ q b, at_ = .replying q b ∧ (p = .sendWait b ∨ p = .sendCheck b)) ∧ t.Awake ∧
      t.ipcBuffer = none

section
variable {P : Parties} {i : Fin maxTasks} {t t' : Task} {p p' : Pc}

theorem ClientOk.like {at_ : ClientAt} {errand : Errand SendArgs SendArgs}
    (h : ClientOk P i at_ p t errand) (hl : t.Like t') (hp : Machine.Paused p p') :
    ClientOk P i at_ p' t' errand := by
  cases errand with
  | idle =>
    obtain ⟨hat, rfl, ha, hb⟩ := h
    cases hp
    exact ⟨hat, rfl, hl.awake ha, hl.buffer.trans hb⟩
  | left =>
    obtain ⟨hat, rfl, hst⟩ := h
    cases hp
    exact ⟨hat, rfl, hl.state_eq hst (by simp) (by simp)⟩
  | asking a =>
    obtain ⟨hat, rfl, hcap, ha, hb⟩ := h
    cases hp
    exact ⟨hat, rfl, hcap, hl.awake ha, hl.buffer.trans hb⟩
  | parked a =>
    obtain ⟨hat, hpc, hst⟩ := h
    exact ⟨hat, hp.parked hpc, hl.state_eq hst (by simp) (by simp)⟩
  | served a =>
    obtain ⟨hb, ⟨hat, hpc, ha⟩ | ⟨hat, hr⟩⟩ := h
    · exact ⟨hl.buffer.trans hb, .inl ⟨hat, hp.parked hpc, hl.awake ha⟩⟩
    · exact ⟨hl.buffer.trans hb, .inr ⟨hat, hr.like hl hp⟩⟩
  | answered a b =>
    obtain ⟨hat, hpc, ha, hb⟩ := h
    exact ⟨hat, hp.receiving hpc, hl.awake ha, hl.buffer.trans hb⟩

theorem ServiceOk.like {at_ : ServiceAt} {turn : Turn (Fin maxTasks) SendArgs SendArgs}
    (h : ServiceOk at_ p t turn) (hl : t.Like t') (hp : Machine.Paused p p') :
    ServiceOk at_ p' t' turn := by
  cases turn with
  | free => exact ⟨h.1, hl.buffer.trans h.2.1, h.2.2.like hl hp⟩
  | mail i a =>
    obtain ⟨hat, hpc, ha, hb⟩ := h
    exact ⟨hat, hp.receiving hpc, hl.awake ha, hl.buffer.trans hb⟩
  | working i a =>
    obtain ⟨rfl, ha, hb, hat⟩ := h
    cases hp
    refine ⟨rfl, hl.awake ha, hl.buffer.trans hb, ?_⟩
    rw [hl.caps]
    exact hat
  | answering i a b =>
    obtain ⟨hat, rfl, hcap, hch, ha, hb⟩ := h
    cases hp
    refine ⟨hat, rfl, hcap, ?_, hl.awake ha, hl.buffer.trans hb⟩
    rw [hl.caps]
    exact hch
  | stuck i a b =>
    obtain ⟨hat, hpc, hst⟩ := h
    exact ⟨hat, hp.parked hpc, hl.state_eq hst (by simp) (by simp)⟩
  | sentOff =>
    obtain ⟨⟨q, b, hat, hpc⟩, ha, hb⟩ := h
    exact ⟨⟨q, b, hat, hp.parked hpc⟩, hl.awake ha, hl.buffer.trans hb⟩

end

variable {σ : Type} {P : Parties} {r r' : Rpc σ} {x y : Calls} {i j k : Fin maxTasks}
  {m m' : Machine} {t u : Task}

/-- A client is where the dialogue says. While its request is parked and it has the processor,
it is about to give it up. -/
structure ClientHolds (P : Parties) (m : Machine) (at_ : ClientAt) (i : Fin maxTasks)
    (errand : Errand SendArgs SendArgs) (t : Task) : Prop where
  task : m.sched.tasks i = some t
  queue : t.msgQueue.contents = []
  channel : t.capTable.channel (P.slot i) = some P.server.val
  ok : ClientOk P i at_ (m.pc i) t errand
  waits : ∀ a, errand = .parked a → m.cpu = .task i → m.pc i = .sendWait a

structure ServiceHolds (P : Parties) (m : Machine) (at_ : ServiceAt)
    (turn : Turn (Fin maxTasks) SendArgs SendArgs) (t : Task) : Prop where
  task : m.sched.tasks P.server = some t
  queue : t.msgQueue.contents = []
  ok : ServiceOk at_ (m.pc P.server) t turn
  waits : ∀ i a b, turn = .stuck i a b → m.cpu = .task P.server → m.pc P.server = .sendWait b

theorem ClientHolds.keeps {at_ : ClientAt} {errand : Errand SendArgs SendArgs}
    (h : ClientHolds P m at_ i errand t) (hk : m.Keeps m' i) :
    ∃ t', ClientHolds P m' at_ i errand t' := by
  obtain ⟨t', ht', hl⟩ := hk.task t h.task
  refine ⟨t', ht', hl.queue ▸ h.queue, hl.caps ▸ h.channel, h.ok.like hl hk.pc, ?_⟩
  rintro a rfl hcpu
  obtain ⟨hcpu', hpc⟩ := hk.cpu t _ h.task h.ok.2.2 hcpu
  exact hpc.trans (h.waits a rfl hcpu')

theorem ServiceHolds.keeps {at_ : ServiceAt} {turn : Turn (Fin maxTasks) SendArgs SendArgs}
    (h : ServiceHolds P m at_ turn t) (hk : m.Keeps m' P.server) :
    ∃ t', ServiceHolds P m' at_ turn t' := by
  obtain ⟨t', ht', hl⟩ := hk.task t h.task
  refine ⟨t', ht', hl.queue ▸ h.queue, h.ok.like hl hk.pc, ?_⟩
  rintro i a b rfl hcpu
  obtain ⟨hcpu', hpc⟩ := hk.cpu t _ h.task h.ok.2.2 hcpu
  exact hpc.trans (h.waits i a b rfl hcpu')

structure Refines (P : Parties) (r : Rpc σ) (x : Calls) : Prop where
  sound : r.machine.Sound
  wf : x.Wf
  outside : r.machine.sched.Outside P.party
  clients : ∀ i, P.client i = true → ∃ t, ClientHolds P r.machine (r.client i) i (x.errand i) t
  service : ∃ t, ServiceHolds P r.machine r.service x.turn t
  served : ∀ i a, x.turn.Serves i a → P.client i = true
  asked : ∀ i a, (i, a) ∈ x.asked → a.call < r.machine.calls
  answers : r.answers = x.answers.map (fun e => (e.2.1.message e.1, e.2.2))
  results : r.results = x.results.map (fun e => (e.1, e.2.1, .ok (e.2.2.message P.server)))

section
variable {p : Pc} {id : TaskId}

theorem not_blockedOnSend_of_receives (h : Machine.Receives p t) : t.state ≠ .blockedOnSend id := by
  intro hst
  rcases h with ⟨_, ha⟩ | ⟨_, ha | hr⟩
  · exact ha.not_blockedOnSend id hst
  · exact ha.not_blockedOnSend id hst
  · cases hst.symm.trans hr

/-- A client blocks on a send with its request only. -/
theorem ClientOk.sending {at_ : ClientAt} {errand : Errand SendArgs SendArgs}
    (h : ClientOk P i at_ p t errand) (hst : t.state = .blockedOnSend id) :
    id = P.server ∧ ∃ a, errand = .parked a := by
  cases errand with
  | idle => exact absurd hst (h.2.2.1.not_blockedOnSend id)
  | left => cases hst.symm.trans h.2.2
  | asking a => exact absurd hst (h.2.2.2.1.not_blockedOnSend id)
  | parked a =>
    cases hst.symm.trans h.2.2
    exact ⟨rfl, a, rfl⟩
  | served a =>
    rcases h.2 with ⟨_, _, ha⟩ | ⟨_, hr⟩
    · exact absurd hst (ha.not_blockedOnSend id)
    · exact absurd hst (not_blockedOnSend_of_receives hr)
  | answered a b => exact absurd hst (h.2.2.1.not_blockedOnSend id)

theorem ClientOk.receiving {at_ : ClientAt} {errand : Errand SendArgs SendArgs}
    (h : ClientOk P i at_ p t errand) (hst : t.state = .blockedOnReceive) :
    ∃ a, errand = .served a ∧ at_ = .waiting a ∧ (p = .receive ∨ p = .receiveWait) := by
  cases errand with
  | idle => exact absurd hst h.2.2.1.not_blockedOnReceive
  | left => cases hst.symm.trans h.2.2
  | asking a => exact absurd hst h.2.2.2.1.not_blockedOnReceive
  | parked a => cases hst.symm.trans h.2.2
  | served a =>
    rcases h.2 with ⟨_, _, ha⟩ | ⟨hat, ⟨_, ha⟩ | ⟨hpc, _⟩⟩
    · exact absurd hst ha.not_blockedOnReceive
    · exact absurd hst ha.not_blockedOnReceive
    · exact ⟨a, rfl, hat, hpc⟩
  | answered a b => exact absurd hst h.2.2.1.not_blockedOnReceive

/-- The service can run, waits for a client to receive or waits for a request. -/
theorem ServiceOk.cases {at_ : ServiceAt} {turn : Turn (Fin maxTasks) SendArgs SendArgs}
    (h : ServiceOk at_ p t turn) :
    t.Awake ∨ (∃ i a b, turn = .stuck i a b ∧ t.state = .blockedOnSend i) ∨
      turn = .free ∧ at_ = .ready ∧ (p = .receive ∨ p = .receiveWait) ∧
        t.state = .blockedOnReceive := by
  cases turn with
  | free =>
    obtain ⟨hat, _, ⟨_, ha⟩ | ⟨hpc, ha | hst⟩⟩ := h
    · exact .inl ha
    · exact .inl ha
    · exact .inr (.inr ⟨rfl, hat, hpc, hst⟩)
  | mail i a => exact .inl h.2.2.1
  | working | sentOff => exact .inl h.2.1
  | answering i a b => exact .inl h.2.2.2.2.1
  | stuck i a b => exact .inr (.inl ⟨i, a, b, rfl, h.2.2⟩)

theorem ServiceOk.sending {at_ : ServiceAt} {turn : Turn (Fin maxTasks) SendArgs SendArgs}
    (h : ServiceOk at_ p t turn) (hst : t.state = .blockedOnSend id) :
    ∃ i a b, turn = .stuck i a b ∧ id = i := by
  rcases h.cases with ha | ⟨i, a, b, hturn, hst'⟩ | ⟨_, _, _, hst'⟩
  · exact absurd hst (ha.not_blockedOnSend id)
  · cases hst.symm.trans hst'
    exact ⟨i, a, b, hturn, rfl⟩
  · cases hst.symm.trans hst'

theorem ServiceOk.receiving {at_ : ServiceAt} {turn : Turn (Fin maxTasks) SendArgs SendArgs}
    (h : ServiceOk at_ p t turn) (hst : t.state = .blockedOnReceive) :
    turn = .free ∧ at_ = .ready ∧ (p = .receive ∨ p = .receiveWait) := by
  rcases h.cases with ha | ⟨_, _, _, _, hst'⟩ | ⟨hturn, hat, hpc, _⟩
  · exact absurd hst ha.not_blockedOnReceive
  · cases hst.symm.trans hst'
  · exact ⟨hturn, hat, hpc⟩

/-- The service never ends. -/
theorem ServiceOk.not_terminated {at_ : ServiceAt} {turn : Turn (Fin maxTasks) SendArgs SendArgs}
    (h : ServiceOk at_ p t turn) : t.state ≠ .terminated := by
  intro hst
  rcases h.cases with ha | ⟨_, _, _, _, hst'⟩ | ⟨_, _, _, hst'⟩
  · exact ha.not_terminated hst
  · cases hst.symm.trans hst'
  · cases hst.symm.trans hst'

/-- A served client is on its way to the reply. -/
theorem ClientOk.served_state {at_ : ClientAt} {a : SendArgs}
    (h : ClientOk P i at_ p t (.served a)) : t.Awake ∨ t.state = .blockedOnReceive := by
  rcases h.2 with ⟨_, _, ha⟩ | ⟨_, ⟨_, ha⟩ | ⟨_, ha⟩⟩
  · exact .inl ha
  · exact .inl ha
  · exact ha

end

namespace Refines

/-- Somebody Awake who does not have the processor is Ready. -/
theorem ready_of_awake (h : Refines P r x) (ht : r.machine.sched.tasks j = some t) (ha : t.Awake)
    (hcpu : r.machine.cpu ≠ .task j) : t.state = .ready :=
  ha.resolve_right (fun hrun => hcpu (h.sound.sole.running j t ht hrun))

/-- Who waits for a party to receive: a client for the service, or the service for the client
that it answers. -/
theorem blocked_on_party (h : Refines P r x) (ht : r.machine.sched.tasks k = some t)
    (hst : t.state = .blockedOnSend j.val) (hj : P.party j = true) :
    (P.client k = true ∧ j = P.server ∧ ∃ a, x.errand k = .parked a) ∨
      k = P.server ∧ ∃ a b, x.turn = .stuck j a b := by
  cases hk : P.party k with
  | false =>
    obtain ⟨a, hs⟩ := h.sound.rendezvous.sending k t j ht hst
    have hch := hs.channel
    rw [← Scheduler.channel_eq ht] at hch
    cases hj.symm.trans (h.outside k _ j hk hch)
  | true =>
    rcases Parties.party_cases hk with hclient | rfl
    · obtain ⟨t', hh⟩ := h.clients k hclient
      cases hh.task.symm.trans ht
      obtain ⟨hid, ha⟩ := hh.ok.sending hst
      exact .inl ⟨hclient, Fin.ext hid, ha⟩
    · obtain ⟨t', hh⟩ := h.service
      cases hh.task.symm.trans ht
      obtain ⟨i, a, b, hturn, hid⟩ := hh.ok.sending hst
      cases Fin.ext hid
      exact .inr ⟨rfl, a, b, hturn⟩

/-- The client for which the service waits is about to receive. -/
theorem awake_of_stuck (h : Refines P r x) {a b : SendArgs} (hturn : x.turn = .stuck i a b) :
    P.client i = true ∧ x.errand i = .served a ∧
      ∃ t, r.machine.sched.tasks i = some t ∧ t.Awake := by
  have hserves : x.turn.Serves i a := by rw [hturn]; exact ⟨rfl, rfl⟩
  have hclient := h.served i a hserves
  have hserved := (h.wf.served hserves).1
  obtain ⟨t, hh⟩ := h.clients i hclient
  refine ⟨hclient, hserved, t, hh.task, ?_⟩
  have hok := hh.ok
  rw [hserved] at hok
  refine hok.served_state.resolve_right (fun hst => ?_)
  obtain ⟨u, hs⟩ := h.service
  have huok := hs.ok
  rw [hturn] at huok
  obtain ⟨c, hsend⟩ := h.sound.rendezvous.sending P.server u i hs.task huok.2.2
  exact (hsend.target_state hh.task).2 hst

/-- The service is Awake, or the client for which it waits is. -/
theorem progress (h : Refines P r x) {a : SendArgs} (hi : P.client i = true)
    (hp : x.errand i = .parked a) :
    (∃ t, r.machine.sched.tasks P.server = some t ∧ t.Awake) ∨
      ∃ j b c, x.turn = .stuck j b c := by
  obtain ⟨t, hh⟩ := h.clients i hi
  have hok := hh.ok
  rw [hp] at hok
  obtain ⟨u, hs⟩ := h.service
  obtain ⟨c, hsend⟩ := h.sound.rendezvous.sending i t P.server hh.task hok.2.2
  have htarget := hsend.target_state hs.task
  rcases hs.ok.cases with ha | ⟨j, b, c, hturn, _⟩ | ⟨_, _, _, hst⟩
  · exact .inl ⟨u, hs.task, ha⟩
  · exact .inr ⟨j, b, c, hturn⟩
  · exact absurd hst htarget.2

/-- When a party on the processor is blocked on a send, some other task is Ready. -/
theorem someone_ready (h : Refines P r x) (hk : P.party k = true) (hcpu : r.machine.cpu = .task k)
    (ht : r.machine.sched.tasks k = some t) {id : TaskId} (hst : t.state = .blockedOnSend id) :
    ∃ j u, j ≠ k ∧ r.machine.sched.tasks j = some u ∧ u.state = .ready := by
  have away : ∀ j, j ≠ k → r.machine.cpu ≠ .task j := by
    rintro j hj hc
    cases hcpu.symm.trans hc
    exact hj rfl
  have stuck : ∀ j b c, x.turn = .stuck j b c → j ≠ k →
      ∃ j u, j ≠ k ∧ r.machine.sched.tasks j = some u ∧ u.state = .ready := by
    intro j b c hturn hj
    obtain ⟨_, _, u, hu, ha⟩ := h.awake_of_stuck hturn
    exact ⟨j, u, hj, hu, h.ready_of_awake hu ha (away j hj)⟩
  rcases Parties.party_cases hk with hclient | rfl
  · obtain ⟨t', hh⟩ := h.clients k hclient
    cases hh.task.symm.trans ht
    obtain ⟨_, a, hp⟩ := hh.ok.sending hst
    rcases h.progress hclient hp with ⟨u, hu, ha⟩ | ⟨j, b, c, hturn⟩
    · have hne := (P.server_ne hclient).symm
      exact ⟨P.server, u, hne, hu, h.ready_of_awake hu ha (away _ hne)⟩
    · refine stuck j b c hturn ?_
      rintro rfl
      cases hp.symm.trans (h.awake_of_stuck hturn).2.1
  · obtain ⟨t', hh⟩ := h.service
    cases hh.task.symm.trans ht
    obtain ⟨j, b, c, hturn, _⟩ := hh.ok.sending hst
    exact stuck j b c hturn (P.server_ne (h.awake_of_stuck hturn).1)

/-- Parties wait for parties. -/
theorem waits_for_party (h : Refines P r x) (hk : P.party k = true)
    (ht : r.machine.sched.tasks k = some t) (hst : t.state = .blockedOnSend j.val) :
    P.party j = true := by
  rcases Parties.party_cases hk with hclient | rfl
  · obtain ⟨t', hh⟩ := h.clients k hclient
    cases hh.task.symm.trans ht
    cases Fin.ext (hh.ok.sending hst).1
    exact Parties.party_server P
  · obtain ⟨t', hh⟩ := h.service
    cases hh.task.symm.trans ht
    obtain ⟨c, a, b, hturn, hid⟩ := hh.ok.sending hst
    cases Fin.ext hid
    exact Parties.party_of_client (h.awake_of_stuck hturn).1

theorem calm (h : Refines P r x) : r.machine.Calm P.party :=
  ⟨h.sound, h.outside, fun _ _ _ hk ht hst => h.waits_for_party hk ht hst,
    fun _ _ _ hk hcpu ht hst => h.someone_ready hk hcpu ht hst⟩

end Refines

end Rpc

end Runix
