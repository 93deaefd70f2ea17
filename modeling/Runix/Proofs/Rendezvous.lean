import Runix.Proofs.Step
import Runix.Lib.Run

namespace Runix

inductive TaskState.Blocked : TaskState → Prop where
  | send (r : TaskId) : Blocked (.blockedOnSend r)
  | receive : Blocked .blockedOnReceive

def Action.isRevoke : Action → Bool
  | .revoke _ _ => true
  | _ => false

namespace Pc

def sendArgs : Pc → Option SendArgs
  | .send a | .sendWait a | .sendCheck a => some a
  | _ => none

def inReceive : Pc → Bool
  | .receive | .receiveWait => true
  | _ => false

end Pc

namespace Machine

variable {m m' : Machine} {act : Action}

/-- What a task blocked on a send has left behind: its message, the capability
it was sent through, and a target that has not come to fetch it. -/
structure Sending (m : Machine) (i : Fin maxTasks) (t : Task) (r : TaskId) (a : SendArgs) :
    Prop where
  pc : (m.pc i).sendArgs = some a
  message : t.ipcBuffer = some (a.message i)
  channel : t.capTable.channel a.capIdx = some r
  target : m.sched.Alive r

structure Receiving (m : Machine) (i : Fin maxTasks) (t : Task) : Prop where
  pc : (m.pc i).inReceive = true
  queue : t.msgQueue.contents = []
  buffer : t.ipcBuffer = none

theorem Sending.target_state {i j : Fin maxTasks} {t u : Task} {a : SendArgs}
    (h : m.Sending i t j a) (hu : m.sched.tasks j = some u) :
    u.state ≠ .terminated ∧ u.state ≠ .blockedOnReceive := by
  obtain ⟨k, v, hv, hk, hst⟩ := h.target
  cases Fin.ext hk
  cases hu.symm.trans hv
  exact hst

structure Rendezvous (m : Machine) : Prop where
  sending : ∀ i t r, m.sched.tasks i = some t → t.state = .blockedOnSend r →
    ∃ a, m.Sending i t r a
  receiving : ∀ i t, m.sched.tasks i = some t → t.state = .blockedOnReceive → m.Receiving i t

structure Undisturbed (t₀ t : Task) : Prop where
  state : t₀.state = t.state
  buffer : t₀.ipcBuffer = t.ipcBuffer
  caps : t₀.capTable = t.capTable
  queue : t.state = .blockedOnReceive → t₀.msgQueue = t.msgQueue

/-- The frame rule: a step that touches the control of task `i` alone, blocks
at most task `i`, and takes no target away from a blocked sender. -/
theorem Rendezvous.frame (h : m.Rendezvous) (i : Fin maxTasks)
    (hpc : ∀ k, k ≠ i → m'.pc k = m.pc k)
    (hold : ∀ k t, k ≠ i → m'.sched.tasks k = some t → t.state.Blocked →
      ∃ t₀, m.sched.tasks k = some t₀ ∧ Undisturbed t₀ t)
    (hlive : ∀ r, m.sched.Alive r →
      m'.sched.Alive r ∨ ∀ k t, m'.sched.tasks k = some t → t.state ≠ .blockedOnSend r)
    (hsend : ∀ t r, m'.sched.tasks i = some t → t.state = .blockedOnSend r → ∃ a, m'.Sending i t r a)
    (hrecv : ∀ t, m'.sched.tasks i = some t → t.state = .blockedOnReceive → m'.Receiving i t) :
    m'.Rendezvous := by
  refine ⟨fun k t r ht hst => ?_, fun k t ht hst => ?_⟩
  · by_cases hk : k = i
    · subst hk
      exact hsend t r ht hst
    · obtain ⟨t₀, ht₀, hsame⟩ := hold k t hk ht (hst ▸ .send r)
      obtain ⟨a, ha⟩ := h.sending k t₀ r ht₀ (hsame.state.trans hst)
      refine ⟨a, (hpc k hk).symm ▸ ha.pc, hsame.buffer ▸ ha.message, hsame.caps ▸ ha.channel, ?_⟩
      rcases hlive r ha.target with hr | hr
      · exact hr
      · exact absurd hst (hr k t ht)
  · by_cases hk : k = i
    · subst hk
      exact hrecv t ht hst
    · obtain ⟨t₀, ht₀, hsame⟩ := hold k t hk ht (hst ▸ .receive)
      have ha := h.receiving k t₀ ht₀ (hsame.state.trans hst)
      exact ⟨(hpc k hk).symm ▸ ha.pc, hsame.queue hst ▸ ha.queue, hsame.buffer ▸ ha.buffer⟩

/-- A task outside the two loops is not blocked. -/
theorem Rendezvous.free (h : m.Rendezvous) {i : Fin maxTasks} {t : Task}
    (ht : m.sched.tasks i = some t) (hs : (m.pc i).sendArgs = none)
    (hr : (m.pc i).inReceive = false) : ¬ t.state.Blocked := by
  intro hb
  cases hst : t.state with
  | blockedOnSend r =>
    obtain ⟨a, ha⟩ := h.sending i t r ht hst
    cases hs.symm.trans ha.pc
  | blockedOnReceive => cases hr.symm.trans (h.receiving i t ht hst).pc
  | ready | running | terminated =>
    rw [hst] at hb
    cases hb

/-- Only control moves. -/
theorem Rendezvous.moved (h : m.Rendezvous) (i : Fin maxTasks)
    (hs : m'.sched.tasks = m.sched.tasks)
    (hpc : ∀ k, k ≠ i → m'.pc k = m.pc k)
    (hi : ∀ t, m.sched.tasks i = some t → t.state.Blocked →
      (m'.pc i).sendArgs = (m.pc i).sendArgs ∧ (m'.pc i).inReceive = (m.pc i).inReceive) :
    m'.Rendezvous := by
  refine h.frame i hpc (fun k t _ ht _ => ⟨t, hs ▸ ht, rfl, rfl, rfl, fun _ => rfl⟩)
    (fun r hr => .inl (hr.of_tasks hs)) (fun t r ht hst => ?_) (fun t ht hst => ?_)
  · rw [hs] at ht
    obtain ⟨a, ha⟩ := h.sending i t r ht hst
    exact ⟨a, (hi t ht (hst ▸ .send r)).1.trans ha.pc, ha.message, ha.channel,
      ha.target.of_tasks hs⟩
  · rw [hs] at ht
    have ha := h.receiving i t ht hst
    exact ⟨(hi t ht (hst ▸ .receive)).2.trans ha.pc, ha.queue, ha.buffer⟩

theorem Rendezvous.moved_free (h : m.Rendezvous) {i : Fin maxTasks} {p : Pc}
    (hi : ∀ t, m.sched.tasks i = some t → ¬ t.state.Blocked)
    (hs : m'.sched.tasks = m.sched.tasks)
    (hpc : m'.pc = Function.update m.pc i p) : m'.Rendezvous :=
  h.moved i hs (fun k hk => by rw [hpc, Function.update_of_ne hk])
    (fun t ht hb => absurd hb (hi t ht))

/-- One task is replaced, and the control of one task moves. -/
theorem Rendezvous.replaced (h : m.Rendezvous) (i : Fin maxTasks) {j : Fin maxTasks} {u u' : Task}
    (hu : m.sched.tasks j = some u)
    (hs : m'.sched.tasks = Function.update m.sched.tasks j (some u'))
    (hpc : ∀ k, k ≠ i → m'.pc k = m.pc k)
    (hj : j ≠ i → u'.state.Blocked → Undisturbed u u')
    (hlive : u.state ≠ .terminated → u.state ≠ .blockedOnReceive →
      (u'.state ≠ .terminated ∧ u'.state ≠ .blockedOnReceive) ∨
      ∀ k t, m'.sched.tasks k = some t → t.state ≠ .blockedOnSend j)
    (hsend : ∀ t r, m'.sched.tasks i = some t → t.state = .blockedOnSend r → ∃ a, m'.Sending i t r a)
    (hrecv : ∀ t, m'.sched.tasks i = some t → t.state = .blockedOnReceive → m'.Receiving i t) :
    m'.Rendezvous := by
  refine h.frame i hpc (fun k t hk ht hb => ?_) (fun r hr => ?_) hsend hrecv
  · rw [hs, Function.update_apply] at ht
    split at ht
    · rename_i hkj
      subst hkj
      cases ht
      exact ⟨u, hu, hj hk hb⟩
    · exact ⟨t, ht, rfl, rfl, rfl, fun _ => rfl⟩
  · obtain ⟨k, v, hv, rfl, hterm, hbr⟩ := hr
    by_cases hkj : k = j
    · subst hkj
      cases hu.symm.trans hv
      rcases hlive hterm hbr with hstate | hnone
      · exact .inl ⟨k, u', by rw [hs, Function.update_self], rfl, hstate⟩
      · exact .inr hnone
    · exact .inl ⟨k, v, by rw [hs, Function.update_of_ne hkj, hv], rfl, hterm, hbr⟩

/-- The same when task `i` ends up outside both loops. -/
theorem Rendezvous.replaced_free (h : m.Rendezvous) (i : Fin maxTasks) {j : Fin maxTasks}
    {u u' : Task} (hu : m.sched.tasks j = some u)
    (hs : m'.sched.tasks = Function.update m.sched.tasks j (some u'))
    (hpc : ∀ k, k ≠ i → m'.pc k = m.pc k)
    (hj : j ≠ i → u'.state.Blocked → Undisturbed u u')
    (hlive : u.state ≠ .terminated → u.state ≠ .blockedOnReceive →
      u'.state ≠ .terminated ∧ u'.state ≠ .blockedOnReceive)
    (hi : ∀ t, m'.sched.tasks i = some t → ¬ t.state.Blocked) : m'.Rendezvous :=
  h.replaced i hu hs hpc hj (fun h1 h2 => .inl (hlive h1 h2))
    (fun t r ht hst => absurd (hst ▸ .send r) (hi t ht))
    (fun t ht hst => absurd (hst ▸ .receive) (hi t ht))

/-- Replacing task `i` by an unblocked one in the same state. -/
theorem Rendezvous.rewritten (h : m.Rendezvous) {i : Fin maxTasks} {t t' : Task} {p : Pc}
    (ht : m.sched.tasks i = some t)
    (hs : m'.sched.tasks = Function.update m.sched.tasks i (some t'))
    (hpc : m'.pc = Function.update m.pc i p) (hst : t'.state = t.state)
    (hb : ¬ t.state.Blocked) : m'.Rendezvous := by
  refine h.replaced_free i ht hs (fun k hk => by rw [hpc, Function.update_of_ne hk])
    (fun hne => absurd rfl hne) (fun h1 h2 => hst ▸ ⟨h1, h2⟩) (fun u hu => ?_)
  rw [hs, Function.update_self] at hu
  cases hu
  exact hst ▸ hb

section Free
variable {i : Fin maxTasks} {t : Task} {a : SendArgs}

/-- A task in the send loop is blocked only on the target of its call. -/
theorem Rendezvous.send_blocked (h : m.Rendezvous) (hp : (m.pc i).sendArgs = some a)
    (ht : m.sched.tasks i = some t) (hb : t.state.Blocked) :
    ∃ r, t.state = .blockedOnSend r ∧ m.Sending i t r a := by
  cases hst : t.state with
  | blockedOnSend r =>
    obtain ⟨b, hs⟩ := h.sending i t r ht hst
    cases Option.some.inj (hp.symm.trans hs.pc)
    exact ⟨r, rfl, hs⟩
  | blockedOnReceive =>
    have hpc := (h.receiving i t ht hst).pc
    cases hpi : m.pc i <;> simp [hpi, Pc.sendArgs, Pc.inReceive] at hp hpc
  | ready | running | terminated =>
    rw [hst] at hb
    cases hb

/-- A task about to look for messages is blocked only on that. -/
theorem Rendezvous.receive_blocked (h : m.Rendezvous)
    (hp : m.pc i = .receive ∨ m.pc i = .receiveAsync) (ht : m.sched.tasks i = some t)
    (hb : t.state.Blocked) : t.state = .blockedOnReceive ∧ m.Receiving i t := by
  cases hst : t.state with
  | blockedOnSend r =>
    obtain ⟨b, hs⟩ := h.sending i t r ht hst
    have hpc := hs.pc
    rcases hp with hp | hp <;> (rw [hp] at hpc; cases hpc)
  | blockedOnReceive => exact ⟨rfl, h.receiving i t ht hst⟩
  | ready | running | terminated =>
    rw [hst] at hb
    cases hb

end Free

def SparesParked (m : Machine) : Action → Prop
  | .revoke task capIdx => ∀ i t r msg, m.sched.tasks i = some t → i.val = task →
      t.state = .blockedOnSend r → t.ipcBuffer = some msg → msg.via ≠ capIdx
  | _ => True

theorem update_pc_ne {i k : Fin maxTasks} {p : Pc} (hk : k ≠ i) :
    (m.setPc i p).pc k = m.pc k := by
  rw [setPc_pc, if_neg hk]

theorem Paused.same {p p' : Pc} (h : Paused p p') :
    p'.sendArgs = p.sendArgs ∧ p'.inReceive = p.inReceive := by
  cases h <;> exact ⟨rfl, rfl⟩

/-- Starting a Ready task. -/
theorem Rendezvous.started (h : m.Rendezvous) {j : Fin maxTasks} {u : Task}
    (hu : m.sched.tasks j = some u) (hs : m'.sched = m.sched.started j u) (hpc : m'.pc = m.pc) :
    m'.Rendezvous := by
  have htasks : m'.sched.tasks =
      Function.update m.sched.tasks j (some { u with state := .running }) := by
    rw [hs]
    rfl
  refine h.replaced_free j hu htasks
    (fun k _ => by rw [hpc]) (fun hne => absurd rfl hne) (fun _ _ => by simp) (fun t ht => ?_)
  rw [hs] at ht
  cases (Scheduler.set_tasks_self ..).symm.trans ht
  rintro ⟨⟩

/-- The death of a task, which wakes the senders blocked on it. -/
theorem Rendezvous.killed (h : m.Rendezvous) {i : Fin maxTasks} {t : Task} {p : Pc}
    (hs : m'.sched = m.sched.killed i t) (hpc : m'.pc = Function.update m.pc i p) :
    m'.Rendezvous := by
  have hself : m'.sched.tasks i = some { t with state := .terminated } := by
    simp [hs, Scheduler.killed]
  have hother : ∀ k v, k ≠ i → m'.sched.tasks k = some v →
      ∃ u, m.sched.tasks k = some u ∧ v = u.woken i := by
    intro k v hk hv
    simp only [hs, Scheduler.killed, if_neg hk] at hv
    obtain ⟨u, hu, he⟩ := Option.map_eq_some_iff.mp hv
    exact ⟨u, hu, he.symm⟩
  refine h.frame i (fun k hk => by rw [hpc, Function.update_of_ne hk]) (fun k v hk hv hb => ?_)
    (fun r hr => ?_) (fun v r hv hst => ?_) (fun v hv hst => ?_)
  · obtain ⟨u, hu, rfl⟩ := hother k v hk hv
    unfold Task.woken at hb ⊢
    split at hb
    · cases hb
    · rename_i hne
      rw [if_neg hne]
      exact ⟨u, hu, rfl, rfl, rfl, fun _ => rfl⟩
  · obtain ⟨k, v, hv, rfl, hterm, hbr⟩ := hr
    by_cases hk : k = i
    · subst hk
      refine .inr (fun l w hw hst => ?_)
      by_cases hl : l = k
      · subst hl
        cases hself.symm.trans hw
        cases hst
      · obtain ⟨u, hu, rfl⟩ := hother l w hl hw
        unfold Task.woken at hst
        split at hst
        · cases hst
        · rename_i hne
          exact hne hst
    · refine .inl ⟨k, v.woken i, by simp [hs, Scheduler.killed, hk, hv], rfl, ?_⟩
      unfold Task.woken
      split
      · exact ⟨by simp, by simp⟩
      · exact ⟨hterm, hbr⟩
  · cases hself.symm.trans hv
    cases hst
  · cases hself.symm.trans hv
    cases hst

/-- Being switched out does not disturb a blocked task. -/
theorem Rendezvous.paused (h : m.Rendezvous) {i : Fin maxTasks} {t : Task} {p : Pc} (sp : Nat)
    (ht : m.sched.tasks i = some t) (hp : Paused (m.pc i) p) :
    ((m.setPc i p).setTask i { t.paused with rsp := sp }).Rendezvous := by
  have halive : t.state ≠ .terminated → t.state ≠ .blockedOnReceive →
      t.paused.state ≠ .terminated ∧ t.paused.state ≠ .blockedOnReceive := by
    intro h1 h2
    simp only [Task.paused]
    split
    · exact ⟨by simp, by simp⟩
    · exact ⟨h1, h2⟩
  have hpc : ((m.setPc i p).setTask i { t.paused with rsp := sp }).pc i = p := by
    simp [setPc_pc]
  refine h.replaced i ht rfl (fun k hk => update_pc_ne hk) (fun hne => absurd rfl hne)
    (fun h1 h2 => .inl (halive h1 h2)) (fun v r hv hst => ?_) (fun v hv hst => ?_)
  · cases (Scheduler.set_tasks_self ..).symm.trans hv
    have hst₀ := Task.paused_state hst (by simp)
    obtain ⟨a, ha⟩ := h.sending i t r ht hst₀
    refine ⟨a, ?_, ha.message, ha.channel,
      ha.target.set (hst.trans_ne (by simp)) (hst.trans_ne (by simp))⟩
    rw [hpc, hp.same.1, ha.pc]
  · cases (Scheduler.set_tasks_self ..).symm.trans hv
    have ha := h.receiving i t ht (Task.paused_state hst (by simp))
    exact ⟨by rw [hpc, hp.same.2, ha.pc], ha.queue, ha.buffer⟩

/-- The step lemma. -/
theorem Effect.rendezvous (he : m.Effect act m') (hw : m.Wf) (h : m.Rendezvous)
    (hact : m.SparesParked act) : m'.Rendezvous := by
  cases he with
  | @refused i => exact h.moved i rfl (fun _ _ => rfl) (fun _ _ _ => ⟨rfl, rfl⟩)
  | idled | revokedNothing => exact h
  | bootHalted => exact h.moved ⟨0, maxTasks_pos⟩ rfl (fun _ _ => rfl) (fun _ _ _ => ⟨rfl, rfl⟩)
  | entered _ hp | asyncEntered _ hp | receiveEntered _ hp | asyncRefused _ hp
    | receiveEmpty _ hp =>
    exact h.moved_free (fun t ht => h.free ht (by rw [hp]; rfl) (by rw [hp]; rfl)) rfl rfl
  | @rejected i _ t a _ ht hp hc =>
    refine h.rewritten ht rfl rfl rfl (fun hb => ?_)
    obtain ⟨r, _, hs⟩ := h.send_blocked (by rw [hp]; rfl) ht hb
    cases hc.symm.trans hs.channel
  | @deposited i _ t a j u _ ht hp hc hu hst =>
    refine h.replaced_free i hu rfl (fun k hk => update_pc_ne hk) (fun _ hb => by cases hb)
      (fun _ hbr => absurd hst hbr) (fun t' ht' hb => ?_)
    change (m.setTask j _).sched.tasks i = some t' at ht'
    rw [setTask_tasks] at ht'
    split at ht'
    · cases ht'
      cases hb
    · cases ht.symm.trans ht'
      obtain ⟨r, _, hs⟩ := h.send_blocked (by rw [hp]; rfl) ht hb
      cases hc.symm.trans hs.channel
      exact (hs.target_state hu).2 hst
  | @foundGone i _ t a r _ ht hp hc hg =>
    refine h.moved_free (fun t' ht' hb => ?_) rfl rfl
    obtain ⟨r', _, hs⟩ := h.send_blocked (by rw [hp]; rfl) ht' hb
    cases ht.symm.trans ht'
    cases hc.symm.trans hs.channel
    obtain ⟨k, v, hv, rfl, hterm, _⟩ := hs.target
    exact hterm (hg v (by rw [hw.indexed.getTask, hv]))
  | @parked i _ t a r _ ht hp hc hg =>
    refine h.replaced i ht rfl (fun k hk => update_pc_ne hk) (fun hne => absurd rfl hne)
      (fun _ _ => .inl ⟨by simp, by simp⟩) (fun v r' hv hst => ?_) (fun v hv hst => ?_)
    · cases (Scheduler.set_tasks_self ..).symm.trans hv
      cases hst
      exact ⟨a, by rw [setPc_pc, if_pos rfl]; rfl, rfl, hc, hg.set (by simp) (by simp)⟩
    · cases (Scheduler.set_tasks_self ..).symm.trans hv
      cases hst
  | gone _ ht hp =>
    exact h.rewritten ht rfl rfl rfl (h.free ht (by rw [hp]; rfl) (by rw [hp]; rfl))
  | @consumed i _ t a _ ht hp hb =>
    refine h.moved_free (fun t' ht' hbl => ?_) rfl rfl
    obtain ⟨r, _, hs⟩ := h.send_blocked (by rw [hp]; rfl) ht' hbl
    cases ht.symm.trans ht'
    cases hb.symm.trans hs.message
  | @retried i _ t a _ _ ht hp hb =>
    refine h.moved i rfl (fun k hk => update_pc_ne hk) (fun t' _ _ => ?_)
    rw [setPc_pc, if_pos rfl, hp]
    exact ⟨rfl, rfl⟩
  | @enqueued i _ t a j u queue _ ht hp hc hu hst hq =>
    have hfree := h.free ht (by rw [hp]; rfl) (by rw [hp]; rfl)
    refine h.replaced_free i hu rfl (fun k hk => update_pc_ne hk) (fun _ hb => ?_)
      (fun h1 h2 => by simp [h1, h2]) (fun t' ht' hb => ?_)
    · by_cases hbr : u.state = .blockedOnReceive
      · simp only [hbr, if_true] at hb
        cases hb
      · simp only [hbr, if_false]
        exact ⟨rfl, rfl, rfl, fun h => absurd h hbr⟩
    · change (m.setTask j _).sched.tasks i = some t' at ht'
      rw [setTask_tasks] at ht'
      split at ht'
      · rename_i hij
        subst hij
        cases ht'
        cases ht.symm.trans hu
        simp only at hb
        split at hb
        · cases hb
        · exact hfree hb
      · cases ht.symm.trans ht'
        exact hfree hb
  | receivedQueue _ ht hp hq =>
    refine h.rewritten ht rfl rfl rfl (fun hb => ?_)
    have hr := (h.receive_blocked hp ht hb).2
    cases hq.symm.trans hr.queue
  | receivedBuffer _ ht hp hq hb =>
    refine h.rewritten ht rfl rfl rfl (fun hbl => ?_)
    have hr := (h.receive_blocked hp ht hbl).2
    cases hb.symm.trans hr.buffer
  | @receivedSender i _ t j u t' _ ht hp hq hb hu hst ht' =>
    have h₁ : (m.setTask j { u with ipcBuffer := none, state := .ready }).Rendezvous := by
      refine h.replaced_free j hu rfl (fun _ _ => rfl) (fun hne => absurd rfl hne)
        (fun _ _ => by simp) (fun v hv hbl => ?_)
      cases (Scheduler.set_tasks_self ..).symm.trans hv
      cases hbl
    refine h₁.replaced_free i ht' rfl (fun k hk => update_pc_ne hk) (fun hne => absurd rfl hne)
      (fun _ _ => by simp) (fun v hv hbl => ?_)
    cases (Scheduler.set_tasks_self ..).symm.trans hv
    cases hbl
  | @receiveBlocked i _ t _ ht hp hq hb hs =>
    refine h.replaced i ht rfl (fun k hk => update_pc_ne hk) (fun hne => absurd rfl hne)
      (fun _ _ => .inr (fun k v hv hst => ?_)) (fun v r hv hst => ?_) (fun v hv hst => ?_)
    · change (m.setTask i _).sched.tasks k = some v at hv
      rw [setTask_tasks] at hv
      split at hv
      · cases hv
        cases hst
      · exact hs k v hv hst
    · cases (Scheduler.set_tasks_self ..).symm.trans hv
      cases hst
    · cases (Scheduler.set_tasks_self ..).symm.trans hv
      exact ⟨by rw [setPc_pc, if_pos rfl]; rfl, hq, hb⟩
  | @stayed i _ p _ hp =>
    refine h.moved i rfl (fun k hk => update_pc_ne hk) (fun _ _ _ => ?_)
    rw [setPc_pc, if_pos rfl]
    exact hp.same
  | @switched i _ t p j u sp _ ht hp hj hu hst =>
    have h₁ := h.paused sp ht hp
    exact h₁.started (by rw [setTask_tasks, if_neg hj]; exact hu) rfl rfl
  | started _ hu hst => exact h.started hu rfl rfl
  | died _ ht => exact h.killed rfl rfl
  | @succeeded i t j u _ ht hu hst =>
    have h₁ : ({ m.setPc i .dead with sched := m.sched.killed i t } : Machine).Rendezvous :=
      h.killed rfl rfl
    exact h₁.started hu rfl rfl
  | @created i _ _ _ _ t _ hfree hid hst hrsp hb hq =>
    refine h.frame i (fun k hk => update_pc_ne hk) (fun k v hk hv _ => ?_) (fun r hr => ?_)
      (fun v r hv hv' => ?_) (fun v hv hv' => ?_)
    · change (m.setTask i t).sched.tasks k = some v at hv
      rw [setTask_tasks, if_neg hk] at hv
      exact ⟨v, hv, rfl, rfl, rfl, fun _ => rfl⟩
    · exact .inl (hr.set (by simp [hst]) (by simp [hst]))
    · cases (Scheduler.set_tasks_self ..).symm.trans hv
      cases hst.symm.trans hv'
    · cases (Scheduler.set_tasks_self ..).symm.trans hv
      cases hst.symm.trans hv'
  | @revoked j u capIdx _ hu =>
    refine h.replaced j hu rfl (fun _ _ => rfl) (fun hne => absurd rfl hne)
      (fun h1 h2 => .inl ⟨h1, h2⟩) (fun v r hv hst => ?_) (fun v hv hst => ?_)
    · cases (Scheduler.set_tasks_self ..).symm.trans hv
      obtain ⟨a, ha⟩ := h.sending j u r hu hst
      have hne : a.capIdx ≠ capIdx := hact j u r _ hu rfl hst ha.message
      refine ⟨a, ha.pc, ha.message, ?_, ha.target.set ?_ ?_⟩
      · exact (CapTable.channel_clear hne).trans ha.channel
      · exact hst.trans_ne (by simp)
      · exact hst.trans_ne (by simp)
    · cases (Scheduler.set_tasks_self ..).symm.trans hv
      have ha := h.receiving j u hu hst
      exact ⟨ha.pc, ha.queue, ha.buffer⟩

theorem rendezvous_of_unblocked (h : ∀ i t, m.sched.tasks i = some t → ¬ t.state.Blocked) :
    m.Rendezvous :=
  ⟨fun i t r ht hst => absurd (hst ▸ .send r) (h i t ht),
    fun i t ht hst => absurd (hst ▸ .receive) (h i t ht)⟩

/-- The run lemma. -/
theorem run_rendezvous {m₀ : Machine} {as : List Action} (hw : m₀.Wf)
    (h0 : ∀ i t, m₀.sched.tasks i = some t → ¬ t.state.Blocked)
    (hr : Lib.Run (Lib.Guarded SparesParked (Lib.Steps step)) m₀ as m) : m.Wf ∧ m.Rendezvous := by
  refine hr.invariant (P := fun m => m.Wf ∧ m.Rendezvous) ⟨hw, rendezvous_of_unblocked h0⟩ ?_
  intro s a t hs hstep
  exact ⟨step_wf hs.1 hstep.2, (step_effect hs.1 hstep.2).rendezvous hs.1 hs.2 hstep.1⟩

theorem sparesParked_of_not_revoke (m : Machine) {a : Action} (h : a.isRevoke = false) :
    m.SparesParked a := by
  cases a <;> simp_all [SparesParked, Action.isRevoke]

/-- In every state reached without revocations from one with no blocked task, a
blocked sender has its message parked and a target that takes messages, a
blocked receiver has nothing to receive, and no receive attempt finds a blocked
sender without a message. -/
theorem rendezvous_invariant {m₀ : Machine} {as : List Action} (hw : m₀.Wf)
    (h0 : ∀ i t, m₀.sched.tasks i = some t → ¬ t.state.Blocked)
    (hr : Lib.Run (Lib.Steps step) m₀ as m) (has : ∀ a ∈ as, a.isRevoke = false) :
    (∀ i t r, m.sched.tasks i = some t → t.state = .blockedOnSend r →
      (∃ msg, t.ipcBuffer = some msg ∧ msg.sender = t.id) ∧
      ∃ j u, j.val = r ∧ m.sched.tasks j = some u ∧ u.state ≠ .terminated ∧
        u.state ≠ .blockedOnReceive) ∧
    (∀ i t, m.sched.tasks i = some t → t.state = .blockedOnReceive →
      t.msgQueue.contents = [] ∧ t.ipcBuffer = none ∧
      ∀ j u, m.sched.tasks j = some u → u.state ≠ .blockedOnSend i) ∧
    ∀ i t source, m.sched.tasks i = some t →
      (m.sched.receiveAttempt i).2 ≠ some (source, .error .targetGone) := by
  obtain ⟨hwf, hrv⟩ := run_rendezvous hw h0
    (hr.guard SparesParked (fun a ha s => sparesParked_of_not_revoke s (has a ha)))
  refine ⟨fun i t r ht hst => ?_, fun i t ht hst => ?_, fun i t source ht => ?_⟩
  · obtain ⟨a, ha⟩ := hrv.sending i t r ht hst
    obtain ⟨j, u, hu, hj, hu'⟩ := ha.target
    exact ⟨⟨_, ha.message, (hwf.indexed i t ht).symm⟩, j, u, hj, hu, hu'⟩
  · have ha := hrv.receiving i t ht hst
    refine ⟨ha.queue, ha.buffer, fun j u hu hst' => ?_⟩
    obtain ⟨b, hb⟩ := hrv.sending j u i hu hst'
    exact (hb.target_state ht).2 hst
  · rcases Scheduler.receiveAttempt_cases hwf.indexed ht with ⟨msg, queue, _, heq⟩ |
      ⟨_, ⟨msg, _, heq⟩ | ⟨_, ⟨j, u, t', hu, hst, _, heq⟩ | ⟨_, heq⟩⟩⟩
    · simp [heq]
    · simp [heq]
    · obtain ⟨a, ha⟩ := hrv.sending j u i hu hst
      simp [heq, ha.message, Scheduler.okOrTargetGone]
    · simp [heq]

def pair : List Task :=
  [Task.new 0 0 0 (CapTable.ofList [⟨.ipcChannel 1, true, true, true, false, 1, none⟩]),
    Task.new 0 0 1 CapTable.new]

theorem wf_pair : (boot (Scheduler.ofList pair)).Wf :=
  wf_boot (by decide)

theorem pair_unblocked (i : Fin maxTasks) (t : Task)
    (ht : (boot (Scheduler.ofList pair)).sched.tasks i = some t) : ¬ t.state.Blocked := by
  have hmem := List.mem_of_find?_eq_some ht
  simp only [pair, List.mem_cons, List.not_mem_nil, or_false] at hmem
  rcases hmem with rfl | rfl
  · rintro ⟨⟩
  · rintro ⟨⟩

/-- The first task starts, sends to the second, which is not receiving, and
parks its message. -/
theorem rendezvous_invariant_parked : ∃ m t msg,
    Lib.Run (Lib.Steps step) (boot (Scheduler.ofList pair))
      [.yield ⟨1, by decide⟩, .sendTyped 0 0 0 [], .proceed ⟨1, by decide⟩] m ∧
    m.sched.tasks ⟨0, by decide⟩ = some t ∧ t.state = .blockedOnSend 1 ∧
    t.ipcBuffer = some msg ∧ msg.sender = t.id := by
  have hstate : ((Lib.execute step (boot (Scheduler.ofList pair))
      [.yield ⟨1, by decide⟩, .sendTyped 0 0 0 [], .proceed ⟨1, by decide⟩]).bind
        (fun m => (m.sched.tasks ⟨0, by decide⟩).map Task.state)) = some (.blockedOnSend 1) := by
    decide
  obtain ⟨m, hm, ht⟩ := Option.bind_eq_some_iff.mp hstate
  obtain ⟨t, ht, hst⟩ := Option.map_eq_some_iff.mp ht
  have hr := Lib.run_of_execute hm
  obtain ⟨⟨msg, hmsg, hsender⟩, _⟩ :=
    (rendezvous_invariant wf_pair pair_unblocked hr (by simp [Action.isRevoke])).1 _ t 1 ht hst
  exact ⟨m, t, msg, hr, ht, hst, hmsg, hsender⟩

end Machine

end Runix
