import Runix.Proofs.Refinement
import Runix.Service.Kv

namespace Runix

open Lib (Dialogue)

namespace Rpc

variable {σ : Type} {P : Parties} {r r' : Rpc σ} {i j : Fin maxTasks} {act : Action}

def Handled (handle : Scheduler → σ → Message → Option (Answer σ)) (q : Message)
    (reply : List UInt8) (r : Rpc σ) (act : RpcAction) : Prop :=
  act = .serve ∧ r.service = .serving q ∧
    ∃ answer, handle r.machine.sched r.store q = some answer ∧ answer.bytes = some reply

/-- Somewhere in the run the service has handled the request, with the scheduler and the store of
that moment, and the reply came of it. -/
def Computed (P : Parties) (handle : Scheduler → σ → Message → Option (Answer σ)) (r₀ : Rpc σ)
    (as : List RpcAction) (q : Message) (reply : List UInt8) : Prop :=
  Lib.Occurred (Rpc.step P handle) (Handled handle q reply) r₀ as

structure Honest (P : Parties) (computed : Message → List UInt8 → Prop) (r : Rpc σ) : Prop where
  pending : ∀ q reply, r.service = .handled q reply ∨ r.service = .opened q reply →
    computed q reply
  answers : ∀ q b, (q, b) ∈ r.answers → ∃ reply call, computed q reply ∧
    checkSend call replySlot P.svc.replyTag 1 reply = .ok b

section
variable {handle : Scheduler → σ → Message → Option (Answer σ)}
  {computed : Message → List UInt8 → Prop}

theorem Honest.mono {computed' : Message → List UInt8 → Prop} (h : Honest P computed r)
    (hsub : ∀ q reply, computed q reply → computed' q reply) : Honest P computed' r where
  pending q reply hq := hsub q reply (h.pending q reply hq)
  answers q b hin := by
    obtain ⟨reply, call, hcomputed, hcheck⟩ := h.answers q b hin
    exact ⟨reply, call, hsub q reply hcomputed, hcheck⟩

theorem Honest.note (h : Honest P computed r) (e : Event) : Honest P computed (r.note P e) := by
  have same : ∀ r' : Rpc σ, r'.service = r.service → r'.answers = r.answers → Honest P computed r' :=
    fun r' hs ha => ⟨by rw [hs]; exact h.pending, by rw [ha]; exact h.answers⟩
  cases e with
  | sendReturned i call capIdx result =>
    simp only [Rpc.note]
    split
    · exact ⟨by simp, h.answers⟩
    · split
      · split <;> exact same _ rfl rfl
      · exact h
  | receiveReturned i result =>
    simp only [Rpc.note]
    split
    · split <;> exact ⟨by simp, h.answers⟩
    · split
      · split <;> exact same _ rfl rfl
      · exact h
  | delivered msg receiver => exact h

theorem Honest.follow (h : Honest P computed r) (m' : Machine) : Honest P computed (r.follow P m') := by
  unfold Rpc.follow
  induction r.machine.since m' with
  | nil => exact ⟨h.pending, h.answers⟩
  | cons e evs ih => exact ih.note e

theorem Honest.enter (h : Honest P computed r) (hs : r.enter act = some r') :
    Honest P computed r' := by
  obtain ⟨m', _, rfl⟩ := enter_some hs
  exact ⟨h.pending, h.answers⟩

theorem Honest.service_step (h : Honest P computed r) {act : RpcAction}
    (hnew : ∀ q reply, Handled handle q reply r act → computed q reply)
    (hs : r.serviceStep P handle act = some r') : Honest P computed r' := by
  cases act with
  | listen =>
    simp only [serviceStep] at hs
    split at hs
    · exact h.enter hs
    · cases hs
  | serve =>
    simp only [serviceStep] at hs
    split at hs
    · rename_i q hat
      obtain ⟨answer, hanswer, hs⟩ := Option.bind_eq_some_iff.mp hs
      obtain ⟨reply, hreply, hs⟩ := Option.bind_eq_some_iff.mp hs
      cases hs
      refine ⟨fun q' reply' hq => ?_, h.answers⟩
      rcases hq with hq | hq
      · cases hq
        exact hnew q reply ⟨rfl, hat, answer, hanswer, hreply⟩
      · cases hq
    · cases hs
  | openReply =>
    simp only [serviceStep] at hs
    split at hs
    · rename_i q reply hat
      obtain ⟨sched, hopen, rfl⟩ := Option.map_eq_some_iff.mp hs
      refine ⟨fun q' reply' hq => ?_, h.answers⟩
      rcases hq with hq | hq
      · cases hq
      · cases hq
        exact h.pending q reply (.inl hat)
    · cases hs
  | reply =>
    simp only [serviceStep] at hs
    split at hs
    · rename_i q reply hat
      split at hs
      · rename_i b hb
        refine Honest.enter ⟨by simp, fun q' b' hin => ?_⟩ hs
        rcases List.mem_cons.mp hin with heq | hin
        · cases heq
          exact ⟨reply, _, h.pending q reply (.inr hat), hb⟩
        · exact h.answers q' b' hin
      · cases hs
    · cases hs
  | _ => cases hs

theorem Honest.client_step (h : Honest P computed r) {act : RpcAction}
    (hs : r.clientStep P i act = some r') : Honest P computed r' := by
  cases act with
  | call tag version payload =>
    simp only [clientStep] at hs
    split at hs
    · exact Honest.enter (r := r.setClient i _) ⟨h.pending, h.answers⟩ hs
    · cases hs
  | await | pause | leave =>
    simp only [clientStep] at hs
    split at hs
    · exact h.enter hs
    · cases hs
  | _ => cases hs

theorem Honest.step (h : Honest P computed r) {act : RpcAction}
    (hnew : ∀ q reply, Handled handle q reply r act → computed q reply)
    (hs : r.step P handle act = some r') : Honest P computed r' := by
  cases act with
  | boot sp =>
    simp only [Rpc.step] at hs
    split at hs
    · exact h.enter hs
    · cases hs
  | proceed sp | tick sp =>
    obtain ⟨m', _, rfl⟩ := Option.map_eq_some_iff.mp hs
    exact h.follow m'
  | other act =>
    simp only [Rpc.step] at hs
    split at hs
    · split at hs
      · cases hs
      · obtain ⟨m', _, rfl⟩ := Option.map_eq_some_iff.mp hs
        exact h.follow m'
    · cases hs
  | call | await | pause | leave | listen | serve | openReply | reply =>
    rcases partyStep_some hs with ⟨_, hs⟩ | ⟨_, _, _, hs⟩
    · exact h.service_step hnew hs
    · exact h.client_step hs

end

structure AtBoot (P : Parties) (r : Rpc σ) : Prop where
  machine : r.machine.AtBoot
  user : ∀ i, r.machine.pc i = .user
  outside : r.machine.sched.Outside P.party
  clients : ∀ i, P.client i = true → r.client i = .idle ∧ ∃ t, r.machine.sched.tasks i = some t ∧
    t.ipcBuffer = none ∧ t.msgQueue.contents = [] ∧
    t.capTable.channel (P.slot i) = some P.server.val
  service : r.service = .ready ∧ ∃ t, r.machine.sched.tasks P.server = some t ∧
    t.ipcBuffer = none ∧ t.msgQueue.contents = []
  answers : r.answers = []
  results : r.results = []

theorem AtBoot.refines (h : r.AtBoot P) : Refines P r Dialogue.new where
  sound := h.machine.sound
  wf := Dialogue.wf_new
  outside := h.outside
  clients i hi := by
    obtain ⟨hat, t, ht, hb, hq, hch⟩ := h.clients i hi
    exact ⟨t, ht, hq, hch, ⟨hat, h.user i, .inl (h.machine.ready i t ht), hb⟩,
      nofun⟩
  service := by
    obtain ⟨hat, t, ht, hb, hq⟩ := h.service
    exact ⟨t, ht, hq, ⟨hat, hb, .inl ⟨h.user _, .inl (h.machine.ready _ t ht)⟩⟩,
      fun _ _ _ hp => by cases hp⟩
  served i a hs := hs.elim
  asked i a ha := by cases ha
  answers := h.answers
  results := h.results

section
variable {handle : Scheduler → σ → Message → Option (Answer σ)} {r₀ : Rpc σ} {as : List RpcAction}

/-- The run lemma. -/
theorem run_refines (hb : r₀.AtBoot P)
    (hr : Lib.Run (Lib.Guarded P.Keeps (Lib.Steps (Rpc.step P handle))) r₀ as r) :
    ∃ x, Refines P r x := by
  refine hr.invariant (P := fun r => ∃ x, Refines P r x) ⟨_, hb.refines⟩ (fun s a t hs hstep => ?_)
  obtain ⟨x, hx⟩ := hs
  obtain ⟨y, _, hy⟩ := hx.step hstep.1 hstep.2
  exact ⟨y, hy⟩

theorem run_honest (hb : r₀.AtBoot P)
    (hr : Lib.Run (Lib.Guarded P.Keeps (Lib.Steps (Rpc.step P handle))) r₀ as r) :
    Honest P (Computed P handle r₀ as) r := by
  have hstart : Honest P (Computed P handle r₀ []) r₀ := by
    refine ⟨fun q reply hq => ?_, fun q b hin => ?_⟩
    · rw [hb.service.1] at hq
      rcases hq with hq | hq <;> cases hq
    · rw [hb.answers] at hin
      cases hin
  refine hr.history (P := fun as r => Honest P (Computed P handle r₀ as) r) hstart
    (fun as s a t hrun hs hstep => ?_)
  have hsnoc := fun q reply => Lib.occurred_snoc (P := Handled handle q reply) (a := a)
    (hrun.mono (fun _ _ _ h => h.2))
  exact (hs.mono (fun q reply h => (hsnoc q reply).mpr (.inl h))).step
    (fun q reply h => (hsnoc q reply).mpr (.inr h)) hstep.2

theorem message_inj {a c : SendArgs} (h : a.message i = c.message j) : i = j ∧ a = c := by
  cases a
  cases c
  simp only [SendArgs.message, Message.mk.injEq] at h
  obtain ⟨hsender, rfl, rfl, rfl, rfl, rfl, rfl⟩ := h
  exact ⟨Fin.ext hsender, rfl⟩

/-- Whatever the order in which the tasks run, and whatever tasks without a channel to the parties
do: every call of a client that came back came back with the reply that the service computed for
it in this run; no request is answered twice, and no reply is handed out twice. -/
theorem calls_answered (hb : r₀.AtBoot P)
    (hr : Lib.Run (Lib.Guarded P.Keeps (Lib.Steps (Rpc.step P handle))) r₀ as r) :
    (∀ i a result, (i, a, result) ∈ r.results → ∃ b reply call,
      result = .ok (b.message P.server) ∧ (a.message i, b) ∈ r.answers ∧
      Computed P handle r₀ as (a.message i) reply ∧
      checkSend call replySlot P.svc.replyTag 1 reply = .ok b) ∧
    (r.answers.map Prod.fst).Nodup ∧ (r.results.map (fun e => (e.1, e.2.1))).Nodup := by
  obtain ⟨x, hx⟩ := run_refines hb hr
  have hhonest := run_honest hb hr
  refine ⟨fun i a result hin => ?_, ?_, ?_⟩
  · rw [hx.results] at hin
    obtain ⟨e, he, heq⟩ := List.mem_map.mp hin
    cases heq
    have hanswer : (e.2.1.message e.1, e.2.2) ∈ r.answers := by
      rw [hx.answers]
      exact List.mem_map.mpr ⟨e, hx.wf.results e he, rfl⟩
    obtain ⟨reply, call, hcomputed, hcheck⟩ := hhonest.answers _ _ hanswer
    exact ⟨e.2.2, reply, call, rfl, hanswer, hcomputed, hcheck⟩
  · have hkeys : r.answers.map Prod.fst =
        (x.answers.map Dialogue.key).map (fun k => k.2.message k.1) := by
      rw [hx.answers, List.map_map, List.map_map]
      rfl
    rw [hkeys]
    refine hx.wf.once.map (fun k k' heq => ?_)
    obtain ⟨h1, h2⟩ := message_inj heq
    exact Prod.ext h1 h2
  · have hkeys : r.results.map (fun e => (e.1, e.2.1)) = x.results.map Dialogue.key := by
      rw [hx.results, List.map_map]
      rfl
    rw [hkeys]
    exact hx.wf.got

def pairParties : Parties where
  svc := .kv
  client i := decide (i = ⟨0, by decide⟩)
  slot _ := 0
  apart := by decide

def pairTasks : List Task :=
  [Task.new 0 0 0 (CapTable.ofList [⟨.ipcChannel 82, true, true, true, false, 1, none⟩]),
    Task.new 0 0 82 CapTable.new]

def pairRpc : Rpc KvStore where
  machine := Machine.boot (Scheduler.ofList pairTasks)
  store := KvStore.new
  client _ := .idle
  service := .ready
  answers := []
  results := []

theorem pair_atBoot : pairRpc.AtBoot pairParties where
  machine := Machine.atBoot_ofList (by decide) (by decide)
  user _ := rfl
  outside k slot p hk hch := by
    obtain ⟨t, ht, _⟩ := Option.bind_eq_some_iff.mp hch
    have hid := Scheduler.indexed_ofList pairTasks k t ht
    have hmem := List.mem_of_find?_eq_some ht
    simp only [pairTasks, List.mem_cons, List.not_mem_nil, or_false] at hmem
    rcases hmem with rfl | rfl
    · cases (Fin.ext hid : (⟨0, by decide⟩ : Fin maxTasks) = k)
      cases hk
    · cases (Fin.ext hid : (⟨82, by decide⟩ : Fin maxTasks) = k)
      cases hk
  clients i hi := by
    obtain rfl : i = ⟨0, by decide⟩ := of_decide_eq_true hi
    exact ⟨rfl, _, rfl, rfl, by decide, by decide⟩
  service := ⟨rfl, _, rfl, rfl, by decide⟩
  answers := rfl
  results := rfl

def pairRun : List RpcAction :=
  let sp : StackPointer := ⟨1, Nat.one_ne_zero⟩
  [.boot sp, .call 0 1 [], .proceed sp, .proceed sp, .listen, .proceed sp, .serve, .openReply,
    .reply, .proceed sp, .proceed sp, .proceed sp, .await, .proceed sp]

/-- The reply refuses the request, which names no slot. -/
theorem calls_answered_pair : ∃ r e b reply,
    Lib.Run (Lib.Guarded pairParties.Keeps (Lib.Steps (Rpc.step pairParties kvService))) pairRpc
      pairRun r ∧ r.results = [e] ∧ e.2.2 = .ok (b.message pairParties.server) ∧
    (e.2.1.message e.1, b) ∈ r.answers ∧
    Computed pairParties kvService pairRpc pairRun (e.2.1.message e.1) reply := by
  have hlen : (Lib.execute (Rpc.step pairParties kvService) pairRpc pairRun).map
      (fun r => r.results.length) = some 1 := by
    decide +kernel
  obtain ⟨r, hr, hone⟩ := Option.map_eq_some_iff.mp hlen
  obtain ⟨e, he⟩ := List.length_eq_one_iff.mp hone
  have hrun := (Lib.run_of_execute hr).guard pairParties.Keeps (by simp [pairRun, Parties.Keeps])
  obtain ⟨b, reply, _, hok, hanswer, hcomputed, _⟩ := (calls_answered pair_atBoot hrun).1 e.1 e.2.1 e.2.2
    (by rw [he]; exact List.mem_cons_self)
  exact ⟨r, e, b, reply, hrun, he, hok, hanswer, hcomputed⟩

/-- Whatever the order in which the tasks run, the parties do not wait for each other in a
circle: when a client is blocked, the service can run, or the client can to which the service
brings a reply. -/
theorem calls_not_deadlocked (hb : r₀.AtBoot P)
    (hr : Lib.Run (Lib.Guarded P.Keeps (Lib.Steps (Rpc.step P handle))) r₀ as r)
    {i : Fin maxTasks} (hi : P.client i = true) {t : Task}
    (ht : r.machine.sched.tasks i = some t) (hblocked : t.state.Blocked) :
    ∃ s, r.machine.sched.tasks P.server = some s ∧
      (s.Awake ∨ ∃ j u, P.client j = true ∧ j ≠ i ∧ s.state = .blockedOnSend j ∧
        r.machine.sched.tasks j = some u ∧ u.Awake) := by
  obtain ⟨x, hx⟩ := run_refines hb hr
  obtain ⟨s, hv⟩ := hx.service
  obtain ⟨t', hh⟩ := hx.clients i hi
  cases ht.symm.trans hh.task
  refine ⟨s, hv.task, ?_⟩
  cases hst : t.state with
  | blockedOnSend id =>
    obtain ⟨_, a, hp⟩ := hh.ok.sending hst
    rcases hx.progress hi hp with ⟨s', hs', ha⟩ | ⟨j, b, c, hturn⟩
    · cases hv.task.symm.trans hs'
      exact .inl ha
    · obtain ⟨hj, hserved, u, hu, ha⟩ := hx.awake_of_stuck hturn
      have hok := hv.ok
      rw [hturn] at hok
      refine .inr ⟨j, u, hj, ?_, hok.2.2, hu, ha⟩
      rintro rfl
      cases hp.symm.trans hserved
  | blockedOnReceive =>
    obtain ⟨a, hp, _⟩ := hh.ok.receiving hst
    have hserves : x.turn.Serves i a := by
      have hfair := hx.wf.clients i
      simp only [Dialogue.ClientFair, hp] at hfair
      exact hfair.1
    rcases hv.ok.cases with ha | ⟨j, c, d, hturn, _⟩ | ⟨hturn, _⟩
    · exact .inl ha
    · rw [hturn] at hserves
      obtain ⟨rfl, _⟩ := hserves
      obtain ⟨_, _, u, hu, ha⟩ := hx.awake_of_stuck hturn
      cases ht.symm.trans hu
      exact absurd hst ha.not_blockedOnReceive
    · rw [hturn] at hserves
      exact hserves.elim
  | ready | running | terminated =>
    rw [hst] at hblocked
    cases hblocked

/-- The client is parked, and the service can run. -/
theorem calls_not_deadlocked_pair : ∃ r t s,
    Lib.Run (Lib.Guarded pairParties.Keeps (Lib.Steps (Rpc.step pairParties kvService))) pairRpc
      (pairRun.take 3) r ∧
    r.machine.sched.tasks ⟨0, by decide⟩ = some t ∧ t.state = .blockedOnSend 82 ∧
    r.machine.sched.tasks pairParties.server = some s ∧ (s.Awake ∨ ∃ j u,
      pairParties.client j = true ∧ j ≠ ⟨0, by decide⟩ ∧ s.state = .blockedOnSend j ∧
        r.machine.sched.tasks j = some u ∧ u.Awake) := by
  have hstate : (Lib.execute (Rpc.step pairParties kvService) pairRpc (pairRun.take 3)).bind
      (fun r => (r.machine.sched.tasks ⟨0, by decide⟩).map Task.state) =
        some (.blockedOnSend 82) := by
    decide +kernel
  obtain ⟨r, hr, ht⟩ := Option.bind_eq_some_iff.mp hstate
  obtain ⟨t, ht, hst⟩ := Option.map_eq_some_iff.mp ht
  have hrun := (Lib.run_of_execute hr).guard pairParties.Keeps (by simp [pairRun, Parties.Keeps])
  obtain ⟨s, hs, hawake⟩ := calls_not_deadlocked pair_atBoot hrun (by decide) ht
    (hst ▸ .send 82)
  exact ⟨r, t, s, hrun, ht, hst, hs, hawake⟩

end

end Rpc

end Runix
