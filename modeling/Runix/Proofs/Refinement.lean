import Runix.Proofs.RpcStates

namespace Runix

open Lib (Errand Turn Dialogue)

namespace Rpc

variable {σ : Type} {P : Parties} {r r' : Rpc σ} {x y : Calls} {i j k : Fin maxTasks}
  {m m' : Machine} {t u : Task} {a b : SendArgs} {act : Action} {sp : StackPointer} {p : Pc}

theorem follow_eq {evs : List Event} (h : m'.trace = evs ++ r.machine.trace) :
    r.follow P m' = evs.foldr (fun e r => r.note P e) { r with machine := m' } := by
  rw [follow, Machine.since_eq h]

theorem follow_same (h : m'.trace = r.machine.trace) :
    r.follow P m' = { r with machine := m' } := by
  have hnone : m'.trace = [] ++ r.machine.trace := h
  rw [follow_eq hnone, List.foldr_nil]

/-- The parties do not see what returns to other tasks. -/
theorem note_outsider {e : Event} (hi : P.party i = false) (he : e.By i) : r.note P e = r := by
  have hclient : P.client i = false := by
    cases hc : P.client i with
    | false => rfl
    | true => cases hi.symm.trans (Parties.party_of_client hc)
  have hserver : i ≠ P.server := by
    rintro rfl
    cases hi.symm.trans (Parties.party_server P)
  cases e with
  | sendReturned j n c result =>
    cases he
    simp [note, hserver, hclient]
  | receiveReturned j result =>
    cases he
    simp [note, hserver, hclient]
  | delivered msg receiver => rfl

theorem follow_outsider {evs : List Event} (hi : P.party i = false)
    (h : m'.trace = evs ++ r.machine.trace) (he : ∀ e ∈ evs, e.By i) :
    r.follow P m' = { r with machine := m' } := by
  rw [follow_eq h]
  clear h
  induction evs with
  | nil => rfl
  | cons e evs ih =>
    rw [List.foldr_cons, ih (fun e' he' => he e' (List.mem_cons_of_mem _ he'))]
    exact note_outsider hi (he e List.mem_cons_self)

namespace Refines

/-- What does not depend on the parties. -/
theorem stepped (h : Refines P r x) (hs : r.machine.step act = some m')
    (hact : act.Outside P.party) :
    m'.Sound ∧ m'.sched.Outside P.party ∧ r.machine.calls ≤ m'.calls :=
  ⟨h.sound.step (Machine.not_revoke_of_outside hact) hs, h.sound.outside_step h.outside hs hact,
    (Machine.step_effect h.sound.wf hs).calls_le⟩

/-- A step that leaves all parties where they are. -/
theorem kept (h : Refines P r x)
    (hm : m'.Sound ∧ m'.sched.Outside P.party ∧ r.machine.calls ≤ m'.calls)
    (hk : ∀ k, P.party k = true → r.machine.Keeps m' k) : Refines P { r with machine := m' } x where
  sound := hm.1
  wf := h.wf
  outside := hm.2.1
  clients i hi := by
    obtain ⟨t, hh⟩ := h.clients i hi
    exact hh.keeps (hk i (Parties.party_of_client hi))
  service := by
    obtain ⟨t, hh⟩ := h.service
    exact hh.keeps (hk P.server (Parties.party_server P))
  served := h.served
  asked i a ha := Nat.lt_of_lt_of_le (h.asked i a ha) hm.2.2
  answers := h.answers
  results := h.results

/-- One client goes on, the others stay. -/
theorem others (h : Refines P r x) {c : Fin maxTasks} {at_ : ClientAt}
    {errand : Errand SendArgs SendArgs} (hat : r'.client = Function.update r.client c at_)
    (herrand : y.errand = Function.update x.errand c errand)
    (hkeep : ∀ k, P.client k = true → k ≠ c → r.machine.Keeps r'.machine k)
    (hc : ∃ t, ClientHolds P r'.machine at_ c errand t) :
    ∀ i, P.client i = true → ∃ t, ClientHolds P r'.machine (r'.client i) i (y.errand i) t := by
  intro i hi
  rw [hat, herrand]
  by_cases hic : i = c
  · subst hic
    rw [Function.update_self, Function.update_self]
    exact hc
  · obtain ⟨t, hh⟩ := h.clients i hi
    rw [Function.update_of_ne hic, Function.update_of_ne hic]
    exact hh.keeps (hkeep i hi hic)

/-- All clients stay. -/
theorem all_stay (h : Refines P r x) (hat : r'.client = r.client) (herrand : y.errand = x.errand)
    (hkeep : ∀ k, P.client k = true → r.machine.Keeps r'.machine k) :
    ∀ i, P.client i = true → ∃ t, ClientHolds P r'.machine (r'.client i) i (y.errand i) t := by
  intro i hi
  obtain ⟨t, hh⟩ := h.clients i hi
  rw [hat, herrand]
  exact hh.keeps (hkeep i hi)

/-- Tasks that are no party do not disturb the parties. -/
theorem outsider (h : Refines P r x) (hi : r.machine.cpu = .task i) (hp : P.party i = false)
    (hact : act.Outside P.party) (hs : r.machine.step act = some m') :
    Refines P (r.follow P m') x := by
  obtain ⟨evs, htrace, hby⟩ := (Machine.step_effect h.sound.wf hs).events hi
  rw [follow_outsider hp htrace hby]
  exact h.kept (h.stepped hs hact) (fun k hk => h.calm.outsider hi hp hact hs hk)

/-- A decision to give up the processor. -/
theorem switch (h : Refines P r x) (hi : r.machine.cpu = .task i)
    (hp : Machine.Paused (r.machine.pc i) p) (hs : r.machine.step act = some m')
    (hact : act.Outside P.party)
    (heq : m' = (r.machine.setPc i p).switchTo (r.machine.sched.reschedule i) sp) :
    Refines P (r.follow P m') x ∧ r.follow P m' = { r with machine := m' } := by
  obtain ⟨hkeep, htrace⟩ := h.calm.switch hi hp heq
  have hfollow : r.follow P m' = { r with machine := m' } := follow_same htrace
  rw [hfollow]
  exact ⟨h.kept (h.stepped hs hact) hkeep, rfl⟩

end Refines

theorem note_sent (hi : P.client i = true) (hat : r.client i = .called a) (m' : Machine)
    (call capIdx : Nat) :
    Rpc.note P { r with machine := m' } (.sendReturned i call capIdx (.ok ())) =
      Rpc.setClient { r with machine := m' } i (.waiting a) := by
  simp [note, P.server_ne hi, hi, hat]

theorem note_got (hi : P.client i = true) (hat : r.client i = .waiting a) (m' : Machine)
    (result : Except IpcError Message) :
    Rpc.note P { r with machine := m' } (.receiveReturned i result) =
      Rpc.conclude { r with machine := m' } i a result := by
  simp [note, P.server_ne hi, hi, hat]

theorem note_replied (m' : Machine) (call capIdx : Nat) (result : Except IpcError Unit) :
    Rpc.note P { r with machine := m' } (.sendReturned P.server call capIdx result) =
      { r with machine := m', service := .ready } := by
  simp [note]

theorem note_taken (m' : Machine) (msg : Message) :
    Rpc.note P { r with machine := m' } (.receiveReturned P.server (.ok msg)) =
      { r with machine := m', service := .serving msg } := by
  simp [note]

/-- A call of the kernel from the code of a party. -/
theorem enter_some (hs : r.enter act = some r') :
    ∃ m', r.machine.step act = some m' ∧ r' = { r with machine := m' } := by
  obtain ⟨m', hm', heq⟩ := Option.map_eq_some_iff.mp hs
  exact ⟨m', hm', heq.symm⟩

theorem partyStep_some {handle : Scheduler → σ → Message → Option (Answer σ)} {act : RpcAction}
    (hs : r.partyStep P handle act = some r') :
    (r.machine.cpu = .task P.server ∧ r.serviceStep P handle act = some r') ∨
      ∃ k, r.machine.cpu = .task k ∧ P.client k = true ∧ r.clientStep P k act = some r' := by
  unfold partyStep at hs
  split at hs
  · rename_i k hk
    have hi := Machine.running_some hk
    split at hs
    · rename_i heq
      exact .inl ⟨heq ▸ hi, hs⟩
    · split at hs
      · rename_i hc
        exact .inr ⟨k, hi, hc, hs⟩
      · cases hs
  · cases hs

def Simulates (P : Parties) (r' : Rpc σ) (x : Calls) : Prop :=
  ∃ y, (y = x ∨ x.Step y) ∧ Refines P r' y

namespace Refines

/-- A step of the parties, and what it is in the dialogue. -/
theorem advance (h : Refines P r x) (hxy : y = x ∨ x.Step y)
    (hm : r'.machine.Sound ∧ r'.machine.sched.Outside P.party ∧
      r.machine.calls ≤ r'.machine.calls)
    (hasked : y.asked = x.asked)
    (hclients : ∀ i, P.client i = true →
      ∃ t, ClientHolds P r'.machine (r'.client i) i (y.errand i) t)
    (hservice : ∃ t, ServiceHolds P r'.machine r'.service y.turn t)
    (hserved : ∀ i a, y.turn.Serves i a → P.client i = true)
    (hanswers : r'.answers = y.answers.map (fun e => (e.2.1.message e.1, e.2.2)))
    (hresults : r'.results =
      y.results.map (fun e => (e.1, e.2.1, .ok (e.2.2.message P.server)))) : Simulates P r' x := by
  refine ⟨y, hxy, ?_⟩
  have hwf : y.Wf := by
    rcases hxy with rfl | hstep
    · exact h.wf
    · exact h.wf.step hstep
  exact ⟨hm.1, hwf, hm.2.1, hclients, hservice, hserved,
    fun i a ha => Nat.lt_of_lt_of_le (h.asked i a (hasked ▸ ha)) hm.2.2, hanswers, hresults⟩

/-- The request of a client reaches the service, or is parked. -/
theorem send_request (h : Refines P r x) (hi : r.machine.cpu = .task i) (hc : P.client i = true)
    (herrand : x.errand i = .asking a) (hs : r.machine.step (.proceed sp) = some m') :
    Simulates P (r.follow P m') x := by
  obtain ⟨t, hh⟩ := h.clients i hc
  obtain ⟨u, hv⟩ := h.service
  have hok := hh.ok
  rw [herrand] at hok
  obtain ⟨hat, hpc, hcap, hawake, hbuffer⟩ := hok
  have hne := P.server_ne hc
  rcases Machine.step_send h.sound.wf hi hpc hs hh.task (hcap ▸ hh.channel) hv.task
    hv.ok.not_terminated with ⟨hrecv, hw, htrace⟩ | ⟨hw, htrace⟩
  · obtain ⟨hturn, hready, hspc⟩ := hv.ok.receiving hrecv
    have hfollow := (follow_eq htrace).trans (note_sent hc hat m' a.call a.capIdx)
    rw [hfollow]
    refine h.advance (.inr (.post herrand hturn)) (h.stepped hs trivial) rfl
      (h.others rfl rfl (fun k hk hki => hw.keeps hki (Function.update_of_ne (P.server_ne hk) ..))
        ?_) ?_ (fun j c hserves => ?_) h.answers h.results
    · exact ⟨t, hw.task ((Function.update_of_ne hne ..).trans hh.task), hh.queue,
        hh.channel, ⟨hbuffer, .inr ⟨rfl, .inl ⟨hw.pc_self, hawake⟩⟩⟩, nofun⟩
    · refine ⟨_, hw.task (Function.update_self ..), hv.queue, ?_,
        fun _ _ _ hp => by cases hp⟩
      exact ⟨hready, hw.pc_other hne.symm ▸ hspc, .inl rfl, rfl⟩
    · exact hserves.1 ▸ hc
  · rw [follow_same htrace]
    refine h.advance (.inr (.park herrand)) (h.stepped hs trivial) rfl
      (h.others (Function.update_eq_self i r.client).symm rfl
        (fun k _ hki => hw.keeps_others hki) ?_)
      (hv.keeps (hw.keeps_others hne.symm)) h.served h.answers
      h.results
    refine ⟨_, hw.task (Function.update_self ..), hh.queue, hh.channel,
      ⟨hat, .inl hw.pc_self, rfl⟩, fun c hp _ => ?_⟩
    cases hp
    exact hw.pc_self

/-- A client learns that its request was taken. -/
theorem request_taken (h : Refines P r x) (hi : r.machine.cpu = .task i) (hc : P.client i = true)
    (herrand : x.errand i = .served a) (hat : r.client i = .called a)
    (hpc : r.machine.pc i = .sendCheck a) (hs : r.machine.step (.proceed sp) = some m') :
    Simulates P (r.follow P m') x := by
  obtain ⟨t, hh⟩ := h.clients i hc
  obtain ⟨u, hv⟩ := h.service
  have hok := hh.ok
  rw [herrand, hat, hpc] at hok
  obtain ⟨hbuffer, ⟨_, _, hawake⟩ | ⟨hwaiting, _⟩⟩ := hok
  · obtain ⟨hw, htrace⟩ := Machine.step_check h.sound.wf hi hpc hs hh.task hbuffer
    have hfollow := (follow_eq htrace).trans (note_sent hc hat m' a.call a.capIdx)
    rw [hfollow]
    refine h.advance (.inl rfl) (h.stepped hs trivial) rfl
      (h.others rfl (Function.update_eq_self i x.errand).symm (fun k _ hki => hw.keeps hki rfl) ?_)
      (hv.keeps (hw.keeps (P.server_ne hc).symm rfl)) h.served h.answers h.results
    rw [herrand]
    exact ⟨t, hw.task hh.task, hh.queue, hh.channel,
      ⟨hbuffer, .inr ⟨rfl, .inl ⟨hw.pc_self, hawake⟩⟩⟩, nofun⟩
  · cases hwaiting

/-- A client that comes to receive takes the reply from the service that waits for it, or
waits itself. -/
theorem await_reply (h : Refines P r x) (hi : r.machine.cpu = .task i) (hc : P.client i = true)
    (herrand : x.errand i = .served a) (hat : r.client i = .waiting a)
    (hpc : r.machine.pc i = .receive) (hs : r.machine.step (.proceed sp) = some m') :
    Simulates P (r.follow P m') x := by
  obtain ⟨t, hh⟩ := h.clients i hc
  obtain ⟨v, hv⟩ := h.service
  have hok := hh.ok
  rw [herrand] at hok
  have hbuffer : t.ipcBuffer = none := hok.1
  have hne := P.server_ne hc
  have hfree : t.state ≠ .blockedOnSend i := by
    intro hst
    obtain ⟨_, hp⟩ := (hh.ok.sending hst).2
    cases herrand.symm.trans hp
  rcases Machine.step_receive h.sound.wf hi hpc hs hh.task hh.queue hfree with
    ⟨msg, hmsg, _⟩ | ⟨j, u, _, hj, hu, hst, hw, htrace⟩ | ⟨_, hw, htrace⟩
  · cases hbuffer.symm.trans hmsg
  · rcases h.blocked_on_party hu hst (Parties.party_of_client hc) with
      ⟨_, hserver, _⟩ | ⟨rfl, c, b, hturn⟩
    · exact absurd hserver hne
    · cases hu.symm.trans hv.task
      have hsok := hv.ok
      rw [hturn] at hsok
      obtain ⟨hreplying, hspc, _⟩ := hsok
      have hca : c = a := by
        have hserved := (h.wf.served (i := i) (a := c) (by rw [hturn]; exact ⟨rfl, rfl⟩)).1
        exact (Errand.served.inj (herrand.symm.trans hserved)).symm
      subst hca
      have hmsg := h.sound.rendezvous.parked_message hu hst hspc
      have hfollow := (follow_eq (htrace _ hmsg)).trans (note_got hc hat m' _)
      rw [hfollow]
      refine h.advance (.inr (.pull hturn)) (h.stepped hs trivial) rfl
        (h.others rfl rfl (fun k hk hki => hw.keeps hki ?_) ?_) ?_ (fun _ _ hserves => hserves.elim)
        h.answers ?_
      · rw [Function.update_of_ne hki, Function.update_of_ne (P.server_ne hk)]
      · exact ⟨_, hw.task (Function.update_self ..), hh.queue, hh.channel,
          ⟨rfl, hw.pc_self, .inr rfl, hbuffer⟩, nofun⟩
      · rw [← hw.pc_other hne.symm] at hspc
        exact ⟨_, hw.task ((Function.update_of_ne hne.symm ..).trans
          (Function.update_self ..)), hv.queue, ⟨⟨_, b, hreplying, hspc⟩, .inl rfl, rfl⟩,
          fun _ _ _ hp => by cases hp⟩
      · change _ :: r.results = _
        rw [h.results]
        rfl
  · rw [follow_same htrace]
    refine h.advance (.inl rfl) (h.stepped hs trivial) rfl
      (h.others (Function.update_eq_self i r.client).symm (Function.update_eq_self i x.errand).symm
        (fun k _ hki => hw.keeps_others hki) ?_)
      (hv.keeps (hw.keeps_others hne.symm)) h.served h.answers h.results
    rw [herrand]
    exact ⟨_, hw.task (Function.update_self ..), hh.queue, hh.channel,
      ⟨hbuffer, .inr ⟨hat, .inr ⟨.inr hw.pc_self, .inr rfl⟩⟩⟩, nofun⟩

/-- A client reads the reply that was put before it. -/
theorem read_reply (h : Refines P r x) (hi : r.machine.cpu = .task i) (hc : P.client i = true)
    (herrand : x.errand i = .answered a b) (hpc : r.machine.pc i = .receive)
    (hs : r.machine.step (.proceed sp) = some m') : Simulates P (r.follow P m') x := by
  obtain ⟨t, hh⟩ := h.clients i hc
  obtain ⟨v, hv⟩ := h.service
  have hok := hh.ok
  rw [herrand] at hok
  obtain ⟨hat, _, hawake, hbuffer⟩ := hok
  have hne := P.server_ne hc
  rcases Machine.step_receive h.sound.wf hi hpc hs hh.task hh.queue (hawake.not_blockedOnSend i)
    with ⟨msg, hmsg, hw, htrace⟩ | ⟨_, _, hnone, _⟩ | ⟨hnone, _⟩
  · cases hbuffer.symm.trans hmsg
    have hfollow := (follow_eq htrace).trans (note_got hc hat m' _)
    rw [hfollow]
    refine h.advance (.inr (.read herrand)) (h.stepped hs trivial) rfl (h.others rfl rfl
        (fun k _ hki => hw.keeps_others hki) ?_)
      (hv.keeps (hw.keeps_others hne.symm)) h.served h.answers ?_
    · exact ⟨_, hw.task (Function.update_self ..), hh.queue, hh.channel,
        ⟨rfl, hw.pc_self, hawake, rfl⟩, nofun⟩
    · change _ :: r.results = _
      rw [h.results]
      rfl
  · cases hbuffer.symm.trans hnone
  · cases hbuffer.symm.trans hnone

/-- The service comes to receive: it takes the request of a client that waits for it, or waits
itself. -/
theorem take_request (h : Refines P r x) (hi : r.machine.cpu = .task P.server)
    (hturn : x.turn = .free) (hpc : r.machine.pc P.server = .receive)
    (hs : r.machine.step (.proceed sp) = some m') : Simulates P (r.follow P m') x := by
  obtain ⟨t, hv⟩ := h.service
  have hok := hv.ok
  rw [hturn] at hok
  obtain ⟨hready, hbuffer, hrecv⟩ := hok
  rcases Machine.step_receive h.sound.wf hi hpc hs hv.task hv.queue
    (not_blockedOnSend_of_receives hrecv) with
    ⟨msg, hmsg, _⟩ | ⟨j, u, _, hj, hu, hst, hw, htrace⟩ | ⟨_, hw, htrace⟩
  · cases hbuffer.symm.trans hmsg
  · rcases h.blocked_on_party hu hst (Parties.party_server P) with
      ⟨hclient, _, a, herrand⟩ | ⟨heq, _⟩
    · obtain ⟨u', hh⟩ := h.clients j hclient
      cases hu.symm.trans hh.task
      have hcok := hh.ok
      rw [herrand] at hcok
      obtain ⟨hat, hcpc, _⟩ := hcok
      have hmsg := h.sound.rendezvous.parked_message hu hst hcpc
      have hfollow := (follow_eq (htrace _ hmsg)).trans (note_taken m' _)
      rw [hfollow]
      refine h.advance (.inr (.take herrand hturn)) (h.stepped hs trivial) rfl
        (h.others (Function.update_eq_self j r.client).symm rfl (fun k hk hkj => ?_) ?_) ?_
        (fun _ _ hserves => hserves.1 ▸ hclient) h.answers h.results
      · refine hw.keeps (P.server_ne hk) ?_
        rw [Function.update_of_ne (P.server_ne hk), Function.update_of_ne hkj]
      · rw [← hw.pc_other hj] at hcpc
        exact ⟨_, hw.task ((Function.update_of_ne hj ..).trans
          (Function.update_self ..)), hh.queue, hh.channel,
          ⟨rfl, .inl ⟨hat, hcpc, .inl rfl⟩⟩, nofun⟩
      · exact ⟨_, hw.task (Function.update_self ..), hv.queue,
          ⟨hw.pc_self, .inr rfl, hbuffer, .inl rfl⟩, fun _ _ _ hp => by cases hp⟩
    · exact absurd heq hj
  · rw [follow_same htrace]
    refine h.advance (.inl rfl) (h.stepped hs trivial) rfl
      (h.all_stay rfl rfl (fun k hk => hw.keeps_others (P.server_ne hk))) ?_ h.served
      h.answers h.results
    rw [hturn]
    exact ⟨_, hw.task (Function.update_self ..), hv.queue,
      ⟨hready, hbuffer, .inr ⟨.inr hw.pc_self, .inr rfl⟩⟩, fun _ _ _ hp => by cases hp⟩

/-- The service reads the request that was put before it. -/
theorem read_request (h : Refines P r x) (hi : r.machine.cpu = .task P.server)
    (hturn : x.turn = .mail i a) (hpc : r.machine.pc P.server = .receive)
    (hs : r.machine.step (.proceed sp) = some m') : Simulates P (r.follow P m') x := by
  obtain ⟨t, hv⟩ := h.service
  have hok := hv.ok
  rw [hturn] at hok
  obtain ⟨_, _, hawake, hbuffer⟩ := hok
  have hclient : P.client i = true := h.served i a (by rw [hturn]; exact ⟨rfl, rfl⟩)
  rcases Machine.step_receive h.sound.wf hi hpc hs hv.task hv.queue (hawake.not_blockedOnSend _)
    with ⟨msg, hmsg, hw, htrace⟩ | ⟨_, _, hnone, _⟩ | ⟨hnone, _⟩
  · cases hbuffer.symm.trans hmsg
    have hfollow := (follow_eq htrace).trans (note_taken m' _)
    rw [hfollow]
    refine h.advance (.inr (.fetch hturn)) (h.stepped hs trivial) rfl
      (h.all_stay rfl rfl (fun k hk => hw.keeps_others (P.server_ne hk))) ?_
      (fun _ _ hserves => hserves.1 ▸ hclient) h.answers h.results
    exact ⟨_, hw.task (Function.update_self ..), hv.queue,
      ⟨hw.pc_self, hawake, rfl, .inl rfl⟩, fun _ _ _ hp => by cases hp⟩
  · cases hbuffer.symm.trans hnone
  · cases hbuffer.symm.trans hnone

/-- The reply reaches a client that waits for it; otherwise the service waits. -/
theorem send_reply (h : Refines P r x) (hi : r.machine.cpu = .task P.server)
    (hturn : x.turn = .answering i a b) (hs : r.machine.step (.proceed sp) = some m') :
    Simulates P (r.follow P m') x := by
  obtain ⟨t, hv⟩ := h.service
  have hok := hv.ok
  rw [hturn] at hok
  obtain ⟨hreplying, hpc, hcap, hch, hawake, hbuffer⟩ := hok
  have hserves : x.turn.Serves i a := by rw [hturn]; exact ⟨rfl, rfl⟩
  have hclient := h.served i a hserves
  have herrand := (h.wf.served hserves).1
  have hne := P.server_ne hclient
  obtain ⟨u, hh⟩ := h.clients i hclient
  have hcok := hh.ok
  rw [herrand] at hcok
  have halive : u.state ≠ .terminated := by
    intro hst
    rcases hcok.served_state with ha | hr
    · exact ha.not_terminated hst
    · cases hst.symm.trans hr
  rcases Machine.step_send h.sound.wf hi hpc hs hv.task (hcap ▸ hch) hh.task halive with
    ⟨hrecv, hw, htrace⟩ | ⟨hw, htrace⟩
  · obtain ⟨c, hc, hat, hcpc⟩ := hcok.receiving hrecv
    cases hc
    have hfollow := (follow_eq htrace).trans (note_replied m' b.call b.capIdx _)
    rw [hfollow]
    refine h.advance (.inr (.push hturn)) (h.stepped hs trivial) rfl
      (h.others (Function.update_eq_self i r.client).symm rfl
        (fun k hk hki => hw.keeps (P.server_ne hk) (Function.update_of_ne hki ..)) ?_) ?_
      (fun _ _ hnone => hnone.elim) h.answers h.results
    · rw [← hw.pc_other hne] at hcpc
      exact ⟨_, hw.task (Function.update_self ..), hh.queue, hh.channel,
        ⟨hat, hcpc, .inl rfl, rfl⟩, nofun⟩
    · exact ⟨t, hw.task ((Function.update_of_ne hne.symm ..).trans
        hv.task), hv.queue, ⟨rfl, hbuffer, .inl ⟨hw.pc_self, hawake⟩⟩, fun _ _ _ hp => by cases hp⟩
  · rw [follow_same htrace]
    refine h.advance (.inr (.stick hturn)) (h.stepped hs trivial) rfl
      (h.all_stay rfl rfl (fun k hk => hw.keeps_others (P.server_ne hk))) ?_
      (fun _ _ hsame => hsame.1 ▸ hclient) h.answers h.results
    refine ⟨_, hw.task (Function.update_self ..), hv.queue,
      ⟨hreplying, .inl hw.pc_self, rfl⟩, fun _ _ _ hp _ => ?_⟩
    cases hp
    exact hw.pc_self

/-- The service learns that its reply was taken. -/
theorem reply_taken (h : Refines P r x) (hi : r.machine.cpu = .task P.server)
    (hturn : x.turn = .sentOff) (hpc : r.machine.pc P.server = .sendCheck b)
    (hs : r.machine.step (.proceed sp) = some m') : Simulates P (r.follow P m') x := by
  obtain ⟨t, hv⟩ := h.service
  have hok := hv.ok
  rw [hturn] at hok
  obtain ⟨_, hawake, hbuffer⟩ := hok
  obtain ⟨hw, htrace⟩ := Machine.step_check h.sound.wf hi hpc hs hv.task hbuffer
  have hfollow := (follow_eq htrace).trans (note_replied m' b.call b.capIdx _)
  rw [hfollow]
  refine h.advance (.inr (.settle hturn)) (h.stepped hs trivial) rfl
    (h.all_stay rfl rfl (fun k hk => hw.keeps (P.server_ne hk) rfl)) ?_
    (fun _ _ hnone => hnone.elim) h.answers h.results
  exact ⟨t, hw.task hv.task, hv.queue,
    ⟨rfl, hbuffer, .inl ⟨hw.pc_self, hawake⟩⟩, fun _ _ _ hp => by cases hp⟩

theorem simulates (h : Refines P r x) : Simulates P r x := ⟨x, .inl rfl, h⟩

/-- A party that waits gives up the processor. -/
theorem wait (h : Refines P r x) (hi : r.machine.cpu = .task i)
    (hp : r.machine.pc i = .receiveWait ∨ ∃ a, r.machine.pc i = .sendWait a)
    (hs : r.machine.step (.proceed sp) = some m') : Simulates P (r.follow P m') x := by
  obtain ⟨p, hpaused, heq⟩ := Machine.step_wait h.sound.wf hi hp hs
  exact (h.switch hi hpaused hs trivial heq).1.simulates

theorem client_proceeds (h : Refines P r x) (hi : r.machine.cpu = .task i)
    (hc : P.client i = true) (hs : r.machine.step (.proceed sp) = some m') :
    Simulates P (r.follow P m') x := by
  obtain ⟨t, hh⟩ := h.clients i hc
  have hok := hh.ok
  cases herrand : x.errand i with
  | idle =>
    rw [herrand] at hok
    exact Machine.proceed_idle hi (.inl hok.2.1) hs
  | left =>
    rw [herrand] at hok
    exact Machine.proceed_idle hi (.inr hok.2.1) hs
  | asking a => exact h.send_request hi hc herrand hs
  | parked a => exact h.wait hi (.inr ⟨a, hh.waits a herrand hi⟩) hs
  | served a =>
    rw [herrand] at hok
    obtain ⟨_, ⟨hat, hpc | hpc, _⟩ | ⟨hat, ⟨hpc, _⟩ | ⟨hpc | hpc, _⟩⟩⟩ := hok
    · exact h.wait hi (.inr ⟨a, hpc⟩) hs
    · exact h.request_taken hi hc herrand hat hpc hs
    · exact Machine.proceed_idle hi (.inl hpc) hs
    · exact h.await_reply hi hc herrand hat hpc hs
    · exact h.wait hi (.inl hpc) hs
  | answered a b =>
    rw [herrand] at hok
    rcases hok.2.1 with hpc | hpc
    · exact h.read_reply hi hc herrand hpc hs
    · exact h.wait hi (.inl hpc) hs

theorem service_proceeds (h : Refines P r x) (hi : r.machine.cpu = .task P.server)
    (hs : r.machine.step (.proceed sp) = some m') : Simulates P (r.follow P m') x := by
  obtain ⟨t, hv⟩ := h.service
  have hok := hv.ok
  cases hturn : x.turn with
  | free =>
    rw [hturn] at hok
    obtain ⟨_, _, ⟨hpc, _⟩ | ⟨hpc | hpc, _⟩⟩ := hok
    · exact Machine.proceed_idle hi (.inl hpc) hs
    · exact h.take_request hi hturn hpc hs
    · exact h.wait hi (.inl hpc) hs
  | mail i a =>
    rw [hturn] at hok
    rcases hok.2.1 with hpc | hpc
    · exact h.read_request hi hturn hpc hs
    · exact h.wait hi (.inl hpc) hs
  | working i a =>
    rw [hturn] at hok
    exact Machine.proceed_idle hi (.inl hok.1) hs
  | answering i a b => exact h.send_reply hi hturn hs
  | stuck i a b => exact h.wait hi (.inr ⟨b, hv.waits i a b hturn hi⟩) hs
  | sentOff =>
    rw [hturn] at hok
    obtain ⟨⟨_, b, _, hpc | hpc⟩, _⟩ := hok
    · exact h.wait hi (.inr ⟨b, hpc⟩) hs
    · exact h.reply_taken hi hturn hpc hs

/-- What the kernel does for the running task, and the timer. -/
theorem kernel (h : Refines P r x) (hact : act = .proceed sp ∨ act = .tick sp)
    (hs : r.machine.step act = some m') : Simulates P (r.follow P m') x := by
  cases hcpu : r.machine.cpu with
  | halted => simp [Machine.step, hcpu] at hs
  | boot =>
    rcases hact with rfl | rfl
    · simp [Machine.step, hcpu] at hs
    · rw [h.sound.boot_tick hcpu hs, follow_same rfl]
      exact h.simulates
  | task i =>
    cases hp : P.party i with
    | false =>
      refine (h.outsider hcpu hp ?_ hs).simulates
      rcases hact with rfl | rfl <;> trivial
    | true =>
      rcases hact with rfl | rfl
      · rcases Parties.party_cases hp with hc | rfl
        · exact h.client_proceeds hcpu hc hs
        · exact h.service_proceeds hcpu hs
      · exact (h.switch hcpu (.here _) hs trivial
          (Machine.step_tick_eq h.sound.wf hcpu hs)).1.simulates

/-- A client makes a request. -/
theorem call (h : Refines P r x) (hi : r.machine.cpu = .task i) (hc : P.client i = true)
    (hat : r.client i = .idle) {tag version : UInt16} {payload : List UInt8}
    (ha : checkSend r.machine.calls (P.slot i) tag version payload = .ok a)
    (hs : r.machine.step (.sendTyped (P.slot i) tag version payload) = some m') :
    Simulates P { r.setClient i (.called a) with machine := m' } x := by
  obtain ⟨t, hh⟩ := h.clients i hc
  obtain ⟨u, hv⟩ := h.service
  obtain ⟨hp, hw, hcalls⟩ := Machine.step_call h.sound.wf hi hs ha
  obtain ⟨hcall, hcap⟩ := checkSend_ok ha
  have hok := hh.ok
  rw [hat, hp] at hok
  have herrand : x.errand i = .idle := by
    cases he : x.errand i with
    | idle => rfl
    | _ => simp [he, ClientOk] at hok
  have hfresh : (i, a) ∉ x.asked := by
    intro hin
    have hlt := h.asked i a hin
    omega
  rw [herrand] at hok
  obtain ⟨_, _, hawake, hbuffer⟩ := hok
  refine ⟨_, .inr (.ask herrand hfresh), h.sound.step rfl hs, h.wf.step (.ask herrand hfresh),
    h.sound.outside_step h.outside hs trivial, h.others rfl rfl (fun k _ hki => hw.keeps hki rfl) ?_,
    hv.keeps (hw.keeps (P.server_ne hc).symm rfl), h.served, fun j b hin => ?_, h.answers,
    h.results⟩
  · exact ⟨t, hw.task hh.task, hh.queue, hh.channel,
      ⟨rfl, hw.pc_self, hcap, hawake, hbuffer⟩, nofun⟩
  · change b.call < m'.calls
    rw [hcalls]
    rcases List.mem_cons.mp hin with heq | hin
    · cases heq
      omega
    · exact Nat.lt_succ_of_lt (h.asked j b hin)

/-- A client goes to fetch the reply. -/
theorem await (h : Refines P r x) (hi : r.machine.cpu = .task i) (hc : P.client i = true)
    (hat : r.client i = .waiting a) (hs : r.machine.step .receiveTyped = some m') :
    Simulates P { r with machine := m' } x := by
  obtain ⟨t, hh⟩ := h.clients i hc
  obtain ⟨u, hv⟩ := h.service
  obtain ⟨hp, hw⟩ := Machine.step_listen hi hs
  have hok := hh.ok
  rw [hat, hp] at hok
  have hserved : x.errand i = .served a ∧ t.ipcBuffer = none ∧ t.Awake := by
    cases he : x.errand i with
    | served c =>
      rw [he] at hok
      obtain ⟨hb, ⟨heq, _⟩ | ⟨heq, ⟨_, ha⟩ | ⟨hpc | hpc, _⟩⟩⟩ := hok
      · cases heq
      · cases heq
        exact ⟨rfl, hb, ha⟩
      · cases hpc
      · cases hpc
    | _ => simp [he, ClientOk] at hok
  obtain ⟨herrand, hbuffer, hawake⟩ := hserved
  refine h.advance (.inl rfl) (h.stepped hs trivial) rfl
    (h.others (Function.update_eq_self i r.client).symm (Function.update_eq_self i x.errand).symm
      (fun k _ hki => hw.keeps hki rfl) ?_)
    (hv.keeps (hw.keeps (P.server_ne hc).symm rfl)) h.served h.answers h.results
  rw [herrand]
  exact ⟨t, hw.task hh.task, hh.queue, hh.channel,
    ⟨hbuffer, .inr ⟨hat, .inr ⟨.inl hw.pc_self, .inl hawake⟩⟩⟩, nofun⟩

/-- A client without a request under way ends. -/
theorem leave (h : Refines P r x) (hi : r.machine.cpu = .task i) (hc : P.client i = true)
    (hat : r.client i = .idle) (hs : r.machine.step .terminate = some m') :
    Simulates P { r with machine := m' } x := by
  obtain ⟨t, hh⟩ := h.clients i hc
  obtain ⟨u, hv⟩ := h.service
  obtain ⟨htask, hpc⟩ := Machine.step_terminate h.sound.wf hi hh.task hs
  have hok := hh.ok
  rw [hat] at hok
  have herrand : x.errand i = .idle := by
    cases he : x.errand i with
    | idle => rfl
    | left =>
      rw [he] at hok
      exact absurd hok.2.2 (h.sound.sole.onCpu i t hi hh.task).2
    | _ => simp [he, ClientOk] at hok
  rw [herrand] at hok
  have he := Machine.step_effect h.sound.wf hs
  have hkeep : ∀ k, P.party k = true → k ≠ i → r.machine.Keeps m' k := by
    intro k hk hki
    refine he.keeps hi hki rfl (by simp) (fun a hp => ?_) (fun v hkv hst => ?_)
    · rw [hok.2.1] at hp
      rcases hp with hp | hp <;> cases hp
    · rcases h.blocked_on_party hkv hst (Parties.party_of_client hc) with
        ⟨_, hserver, _⟩ | ⟨_, a, b, hturn⟩
      · exact P.server_ne hc hserver
      · cases herrand.symm.trans (h.awake_of_stuck hturn).2.1
  refine h.advance (.inr (.leave herrand)) (h.stepped hs trivial) rfl
    (h.others (Function.update_eq_self i r.client).symm rfl
      (fun k hk hki => hkeep k (Parties.party_of_client hk) hki) ?_)
    (hv.keeps (hkeep _ (Parties.party_server P) (P.server_ne hc).symm)) h.served h.answers h.results
  exact ⟨_, htask, hh.queue, hh.channel, ⟨hat, hpc, rfl⟩, nofun⟩

/-- The service goes to receive. -/
theorem listen (h : Refines P r x) (hi : r.machine.cpu = .task P.server)
    (hat : r.service = .ready) (hs : r.machine.step .receiveTyped = some m') :
    Simulates P { r with machine := m' } x := by
  obtain ⟨t, hv⟩ := h.service
  obtain ⟨hp, hw⟩ := Machine.step_listen hi hs
  have hok := hv.ok
  rw [hat, hp] at hok
  have hturn : x.turn = .free := by
    cases ht : x.turn with
    | free => rfl
    | _ => simp [ht, ServiceOk] at hok
  rw [hturn] at hok
  obtain ⟨_, hbuffer, ⟨_, hawake⟩ | ⟨hpc | hpc, _⟩⟩ := hok
  · refine h.advance (.inl rfl) (h.stepped hs trivial) rfl
      (h.all_stay rfl rfl (fun k hk => hw.keeps (P.server_ne hk) rfl)) ?_ h.served h.answers
      h.results
    rw [hturn]
    exact ⟨t, hw.task hv.task, hv.queue,
      ⟨hat, hbuffer, .inr ⟨.inl hw.pc_self, .inl hawake⟩⟩, fun _ _ _ hp => by cases hp⟩
  · cases hpc
  · cases hpc

/-- The service is at work on a request. -/
theorem working (h : Refines P r x) {q : Message}
    (hq : r.service = .serving q ∨ (∃ reply, r.service = .handled q reply) ∨
      ∃ reply, r.service = .opened q reply) :
    ∃ i a, x.turn = .working i a ∧ q = a.message i := by
  obtain ⟨t, hv⟩ := h.service
  have hok := hv.ok
  cases ht : x.turn with
  | working i a =>
    rw [ht] at hok
    refine ⟨i, a, rfl, ?_⟩
    rcases hok.2.2.2 with hat | ⟨_, hat⟩ | ⟨⟨_, hat⟩, _⟩ <;> rw [hat] at hq <;>
      simpa [eq_comm] using hq
  | _ => rcases hq with hq | ⟨_, hq⟩ | ⟨_, hq⟩ <;> simp [ht, hq, ServiceOk] at hok

/-- The handler computes a reply. -/
theorem serve (h : Refines P r x) {q : Message} (hat : r.service = .serving q) (store : σ)
    (reply : List UInt8) :
    Simulates P { r with store := store, service := .handled q reply } x := by
  obtain ⟨t, hv⟩ := h.service
  obtain ⟨i, a, hturn, rfl⟩ := h.working (.inl hat)
  have hok := hv.ok
  rw [hturn] at hok
  refine h.advance (.inl rfl) ⟨h.sound, h.outside, le_refl _⟩ rfl
    (h.all_stay rfl rfl (fun k _ => Machine.keeps_same rfl rfl rfl)) ?_ h.served h.answers h.results
  rw [hturn]
  exact ⟨t, hv.task, hv.queue, ⟨hok.1, hok.2.1, hok.2.2.1, .inr (.inl ⟨reply, rfl⟩)⟩,
    fun _ _ _ hp => by cases hp⟩

/-- The service opens the channel to the sender of the request. -/
theorem openReply (h : Refines P r x) {q : Message} {reply : List UInt8} {sched : Scheduler}
    (hat : r.service = .handled q reply)
    (hopen : r.machine.sched.openReply P.svc q.sender = some sched) :
    Simulates P { r with
      machine := { r.machine with sched := sched }, service := .opened q reply } x := by
  obtain ⟨t, hv⟩ := h.service
  obtain ⟨i, a, hturn, rfl⟩ := h.working (.inr (.inl ⟨reply, hat⟩))
  have hok := hv.ok
  rw [hturn] at hok
  obtain ⟨hpc, hawake, hbuffer, _⟩ := hok
  obtain ⟨rfl, hsound, hchannel⟩ := h.sound.openReply hv.task hawake hopen
  refine h.advance (.inl rfl)
    ⟨hsound, Machine.outside_set h.outside (Parties.party_server P) _, le_refl _⟩ rfl
    (h.all_stay rfl rfl (fun k hk => Machine.keeps_same
      (Function.update_of_ne (P.server_ne hk) ..) rfl rfl)) ?_ h.served h.answers h.results
  rw [hturn]
  exact ⟨_, Function.update_self .., hv.queue,
    ⟨hpc, hawake, hbuffer, .inr (.inr ⟨⟨reply, rfl⟩, hchannel⟩)⟩, fun _ _ _ hp => by cases hp⟩

/-- The service sends the reply. -/
theorem reply (h : Refines P r x) (hi : r.machine.cpu = .task P.server) {q : Message}
    {reply : List UInt8} (hat : r.service = .opened q reply)
    (hb : checkSend r.machine.calls replySlot P.svc.replyTag 1 reply = .ok b)
    (hs : r.machine.step (.sendTyped replySlot P.svc.replyTag 1 reply) = some m') :
    Simulates P { r with
      machine := m', service := .replying q b, answers := (q, b) :: r.answers } x := by
  obtain ⟨t, hv⟩ := h.service
  obtain ⟨i, a, hturn, rfl⟩ := h.working (.inr (.inr ⟨reply, hat⟩))
  have hclient : P.client i = true := h.served i a (by rw [hturn]; exact ⟨rfl, rfl⟩)
  obtain ⟨_, hw, _⟩ := Machine.step_call h.sound.wf hi hs hb
  have hok := hv.ok
  rw [hturn, hat] at hok
  obtain ⟨_, hawake, hbuffer, hat' | ⟨_, hat'⟩ | ⟨_, hchannel⟩⟩ := hok
  · cases hat'
  · cases hat'
  · refine h.advance (.inr (.answer b hturn)) (h.stepped hs trivial) rfl
      (h.all_stay rfl rfl (fun k hk => hw.keeps (P.server_ne hk) rfl)) ?_
      (fun _ _ hserves => hserves.1 ▸ hclient) ?_ h.results
    · exact ⟨t, hw.task hv.task, hv.queue,
        ⟨rfl, hw.pc_self, (checkSend_ok hb).2, hchannel, hawake, hbuffer⟩,
        fun _ _ _ hp => by cases hp⟩
    · rw [h.answers]
      rfl

/-- The first entry into the scheduler. -/
theorem boot (h : Refines P r x) (hb : r.machine.cpu = .boot)
    (hs : r.machine.step (.yield sp) = some m') : Simulates P { r with machine := m' } x := by
  exact (h.kept (h.stepped hs trivial) (fun k _ => h.sound.boot hb hs k)).simulates

theorem client_step (h : Refines P r x) (hi : r.machine.cpu = .task i) (hc : P.client i = true)
    {act : RpcAction} (hs : r.clientStep P i act = some r') : Simulates P r' x := by
  cases act with
  | call tag version payload =>
    simp only [clientStep] at hs
    split at hs
    · rename_i a hat ha
      obtain ⟨m', hm', rfl⟩ := enter_some hs
      exact h.call hi hc hat ha hm'
    · cases hs
  | await =>
    simp only [clientStep] at hs
    split at hs
    · rename_i a hat
      obtain ⟨m', hm', rfl⟩ := enter_some hs
      exact h.await hi hc hat hm'
    · cases hs
  | pause sp =>
    simp only [clientStep] at hs
    split at hs
    · obtain ⟨m', hm', rfl⟩ := enter_some hs
      obtain ⟨href, hfollow⟩ := h.switch hi (.here _) hm' trivial
        (Machine.step_yield h.sound.wf hi hm')
      exact hfollow ▸ href.simulates
    · cases hs
  | leave =>
    simp only [clientStep] at hs
    split at hs
    · rename_i hat
      obtain ⟨m', hm', rfl⟩ := enter_some hs
      exact h.leave hi hc hat hm'
    · cases hs
  | _ => cases hs

theorem service_step {handle : Scheduler → σ → Message → Option (Answer σ)} (h : Refines P r x)
    (hi : r.machine.cpu = .task P.server) {act : RpcAction}
    (hs : r.serviceStep P handle act = some r') : Simulates P r' x := by
  cases act with
  | listen =>
    simp only [serviceStep] at hs
    split at hs
    · rename_i hat
      obtain ⟨m', hm', rfl⟩ := enter_some hs
      exact h.listen hi hat hm'
    · cases hs
  | serve =>
    simp only [serviceStep] at hs
    split at hs
    · rename_i q hat
      obtain ⟨answer, _, hs⟩ := Option.bind_eq_some_iff.mp hs
      obtain ⟨reply, _, hs⟩ := Option.bind_eq_some_iff.mp hs
      cases hs
      exact h.serve hat _ _
    · cases hs
  | openReply =>
    simp only [serviceStep] at hs
    split at hs
    · rename_i q reply hat
      obtain ⟨sched, hopen, rfl⟩ := Option.map_eq_some_iff.mp hs
      exact h.openReply hat hopen
    · cases hs
  | reply =>
    simp only [serviceStep] at hs
    split at hs
    · rename_i q reply hat
      split at hs
      · rename_i b hb
        obtain ⟨m', hm', rfl⟩ := enter_some hs
        exact h.reply hi hat hb hm'
      · cases hs
    · cases hs
  | _ => cases hs

/-- Every step of the whole is a step of the dialogue, or none. -/
theorem step {handle : Scheduler → σ → Message → Option (Answer σ)} (h : Refines P r x)
    {act : RpcAction} (hok : P.Keeps r act) (hs : r.step P handle act = some r') :
    Simulates P r' x := by
  cases act with
  | boot sp =>
    simp only [Rpc.step] at hs
    split at hs
    · rename_i hb
      obtain ⟨m', hm', rfl⟩ := enter_some hs
      exact h.boot hb hm'
    · cases hs
  | proceed sp =>
    obtain ⟨m', hm', rfl⟩ := Option.map_eq_some_iff.mp hs
    exact h.kernel (.inl rfl) hm'
  | tick sp =>
    obtain ⟨m', hm', rfl⟩ := Option.map_eq_some_iff.mp hs
    exact h.kernel (.inr rfl) hm'
  | other act =>
    simp only [Rpc.step] at hs
    split at hs
    · rename_i k hk
      split at hs
      · cases hs
      · rename_i hp
        obtain ⟨m', hm', rfl⟩ := Option.map_eq_some_iff.mp hs
        exact (h.outsider (Machine.running_some hk) (by simpa using hp) hok hm').simulates
    · cases hs
  | call | await | pause | leave | listen | serve | openReply | reply =>
    rcases partyStep_some hs with ⟨hi, hs⟩ | ⟨k, hi, hc, hs⟩
    · exact h.service_step hi hs
    · exact h.client_step hi hc hs

end Refines

end Rpc

end Runix
