import Runix.Proofs.Rendezvous

namespace Runix

def Scheduler.Authorised (s : Scheduler) (msg : Message) (r : TaskId) : Prop :=
  ∃ t, s.getTask msg.sender = some t ∧ t.capTable.channel msg.via = some r

namespace Machine

variable {m m' : Machine} {act : Action}

def HandsOver (m m' : Machine) (msg : Message) (r : TaskId) : Prop :=
  ∃ evs, m'.trace = evs ++ m.trace ∧ .delivered msg r ∈ evs

theorem Wf.authorised (h : m.Wf) {i : Fin maxTasks} {t : Task} (ht : m.sched.tasks i = some t)
    {a : SendArgs} {r : TaskId} (hc : t.capTable.channel a.capIdx = some r) :
    m.sched.Authorised (a.message i) r :=
  ⟨t, (h.indexed.getTask i).trans ht, hc⟩

theorem HandsOver.mem {msg : Message} {r : TaskId} (h : m.HandsOver m' msg r) (evs : List Event)
    (he : m'.trace = evs ++ m.trace) : .delivered msg r ∈ evs := by
  obtain ⟨evs', htrace, hmem⟩ := h
  rwa [List.append_cancel_right (he.symm.trans htrace)]

/-- The step lemma: whatever a step hands over is authorised in the state it
starts from. -/
theorem Effect.authorised (he : m.Effect act m') (hw : m.Wf) (h : m.Rendezvous) {msg : Message}
    {r : TaskId} (hd : m.HandsOver m' msg r) : m.sched.Authorised msg r := by
  cases he with
  | entered | asyncEntered | receiveEntered | foundGone | parked | retried | receiveBlocked
    | stayed | switched | idled | started | bootHalted | died | succeeded | created | revoked
    | revokedNothing => cases hd.mem [] rfl
  | refused => cases List.mem_singleton.mp (hd.mem [_] rfl)
  | rejected | gone | consumed | asyncRefused | receivedQueue | receivedBuffer | receiveEmpty =>
    cases List.mem_singleton.mp (hd.mem [_] rfl)
  | deposited _ ht _ hc =>
    have hmem := hd.mem [_, _] rfl
    simp only [List.mem_cons, List.not_mem_nil, or_false, reduceCtorEq] at hmem
    cases hmem
    exact hw.authorised ht hc
  | enqueued _ ht _ hc =>
    have hmem := hd.mem [_, _] rfl
    simp only [List.mem_cons, List.not_mem_nil, or_false, reduceCtorEq] at hmem
    cases hmem
    exact hw.authorised ht hc
  | @receivedSender i _ t j u t' _ _ _ _ _ hu hst _ =>
    obtain ⟨a, ha⟩ := h.sending j u i hu hst
    rw [ha.message] at hd
    have hmem := hd.mem [_, _] rfl
    simp only [List.mem_cons, List.not_mem_nil, or_false, reduceCtorEq, false_or] at hmem
    cases hmem
    exact hw.authorised hu ha.channel

/-- As long as no revocation hits the slot a parked message was sent through,
every message is authorised at the step that delivers it. -/
theorem delivery_authorised {m₀ : Machine} {as : List Action} (hw : m₀.Wf)
    (h0 : ∀ i t, m₀.sched.tasks i = some t → ¬ t.state.Blocked)
    (hr : Lib.Run (Lib.Guarded SparesParked (Lib.Steps step)) m₀ as m)
    (hs : m.step act = some m') {msg : Message} {r : TaskId} (hd : m.HandsOver m' msg r) :
    m.sched.Authorised msg r := by
  obtain ⟨hwf, hrv⟩ := run_rendezvous hw h0 hr
  exact (step_effect hwf hs).authorised hwf hrv hd

def park : List Action :=
  [.yield ⟨1, by decide⟩, .sendTyped 0 0 0 [], .proceed ⟨1, by decide⟩, .proceed ⟨1, by decide⟩]

def parkedMessage : Message := ⟨0, .raw, 0, padPayload [], 0, 0, 0⟩

/-- The second task fetches the parked message. -/
theorem delivery_authorised_parked :
    ∃ m m', Lib.Run (Lib.Guarded SparesParked (Lib.Steps step)) (boot (Scheduler.ofList pair))
        (park ++ [.receiveTyped]) m ∧
      m.step (.proceed ⟨1, by decide⟩) = some m' ∧ m.HandsOver m' parkedMessage 1 ∧
      m.sched.Authorised parkedMessage 1 := by
  obtain ⟨m, m', hr, hs, hd⟩ : ∃ m m',
      Lib.Run (Lib.Steps step) (boot (Scheduler.ofList pair)) (park ++ [.receiveTyped]) m ∧
      m.step (.proceed ⟨1, by decide⟩) = some m' ∧ m.HandsOver m' parkedMessage 1 :=
    ⟨_, _, Lib.run_of_execute rfl, rfl, [_, _], rfl,
      List.mem_cons_of_mem _ (List.mem_singleton.mpr rfl)⟩
  have hr' := hr.guard SparesParked (by simp [park, SparesParked])
  exact ⟨m, m', hr', hs, hd, delivery_authorised wf_pair pair_unblocked hr' hs hd⟩

/-- If the capability is revoked while the message is parked, the second task
fetches the message all the same. -/
theorem revoked_message_delivered :
    ∃ m m', Lib.Run (Lib.Steps step) (boot (Scheduler.ofList pair))
        (park ++ [.revoke 0 0, .receiveTyped]) m ∧
      m.step (.proceed ⟨1, by decide⟩) = some m' ∧ m.HandsOver m' parkedMessage 1 ∧
      ¬ m.sched.Authorised parkedMessage 1 := by
  refine ⟨_, _, Lib.run_of_execute rfl, rfl, ⟨[_, _], rfl, ?_⟩, ?_⟩
  · exact List.mem_cons_of_mem _ (List.mem_singleton.mpr rfl)
  · rintro ⟨t, ht, hc⟩
    cases Option.some.inj ht
    cases hc

end Machine

end Runix
