import Runix.Proofs.Ledger

namespace Runix

open Lib (Place Mailboxes Custody)

/-- The arguments of a call that is about to look for its target. -/
def Pc.sends : Pc → Option SendArgs
  | .send a => some a
  | _ => none

/-- Whether the target of a capability waits for a message. -/
def Scheduler.awaits (s : Scheduler) (i : Fin maxTasks) (capIdx : Nat) : Bool :=
  (s.channel i capIdx).any (fun r => (s.getTask r).any (fun t => t.state = .blockedOnReceive))

namespace Machine

variable {m m' : Machine} {act : Action} {w w' : Nat → Place (Fin maxTasks)}

section Routes
variable {i j : Fin maxTasks} {t u : Task} {a : SendArgs} {r : TaskId}

/-- Every call but the one that is moved stays where it is. -/
theorem place_unmoved {n c : Nat} {p q : Place (Fin maxTasks)} (hw : Function.update w c p n = q)
    (hpq : q ≠ p) : n ≠ c ∧ w n = q := by
  have hnc : n ≠ c := by
    rintro rfl
    rw [Function.update_self] at hw
    exact hpq hw.symm
  exact ⟨hnc, (Function.update_of_ne hnc ..).symm.trans hw⟩

/-- A send that delivers its message adds its own return to the trace. -/
theorem returned_of_delivers {k : Fin maxTasks} {n c : Nat} {res : Except IpcError Unit}
    {msg : Message} (hmem : .sendReturned k n c res ∈
      (((m.setTask j u).returnSend i a (.ok ())).log [.delivered msg j]).trace) :
    (k = i ∧ n = a.call ∧ c = a.capIdx ∧ res = .ok ()) ∨ .sendReturned k n c res ∈ m.trace := by
  simp only [returnSend, log, setPc, setTask, List.cons_append, List.nil_append, List.mem_cons,
    reduceCtorEq, false_or] at hmem
  rcases hmem with heq | hold
  · cases heq
    exact .inl ⟨rfl, rfl, rfl, rfl⟩
  · exact .inr hold

/-- A sender parks its message, for the first time or again. -/
theorem Ledger.parks (h : m.Ledger w) (hv : m.Rendezvous) (hn : m.Numbered)
    (ht : m.sched.tasks i = some t) (hp : m.pc i = .send a) (hd : ∀ n, w n ≠ .deposited i) :
    ∃ w', ((m.setTask i { t with
      state := .blockedOnSend r, ipcBuffer := some (a.message i) }).setPc i (.sendWait a)).Ledger
        w' := by
  rcases h.call hp with hnow | hpk
  · have hnp : ∀ n, w n ≠ .parked i := h.not_parked (fun b hb => by
      cases (congrArg Pc.sendArgs hp).symm.trans hb
      simp [hnow])
    have hbuf : m.mail.buffer i = none := by
      simp [mail, Scheduler.mailbox_eq ht, h.buffer_none ht hnp hd]
    refine ⟨Function.update w a.call (.parked i), h.advance hn rfl (Scheduler.channel_same ht rfl)
      (le_refl _) (.enter hnow (by rw [hp]; rfl) _) ?_ (.inl (Function.update_self ..))
      (fun k n hw => ?_) (fun k n hw => ?_) (fun _ _ _ _ hmem => .inl hmem)⟩
    · exact h.custody.place_buffer _ (.inl rfl) (.inl hnow) (fun _ => hbuf)
        (mail_queue_eq (Scheduler.queued_same ht rfl)) (mail_buffer_set (Scheduler.mailbox_set ..) rfl)
        (mail_receipts_eq [] rfl (fun _ _ => rfl))
    · by_cases hna : n = a.call
      · subst hna
        rw [Function.update_self] at hw
        cases hw
        exact ⟨⟨a, by rw [setPc_pc, if_pos rfl]; rfl, rfl⟩, _, r, Scheduler.set_tasks_self .., rfl⟩
      · rw [Function.update_of_ne hna] at hw
        have hki : k ≠ i := fun he => hnp n (he ▸ hw)
        refine h.parked_moved rfl hki hw (fun v r' hv hst => ⟨v, r', ?_, hst⟩)
        rw [setPc_sched, setTask_tasks, if_neg hki, hv]
    · have hw := (place_unmoved hw (by simp)).2
      have hki : k ≠ i := fun he => hd n (he ▸ hw)
      rw [update_pc_ne hki]
      exact h.deposited k n hw
  · obtain ⟨_, _, hs⟩ := h.sending hv (by rw [hp]; rfl) ht hpk
    refine ⟨w, h.moved hn (.set ht rfl hs.message.symm rfl (fun _ _ => ⟨r, rfl⟩)) rfl (le_refl _) rfl
      (.inl hpk) (fun _ _ => by rw [hp]; rfl) (fun _ => hd)⟩

/-- A message is deposited with a waiting receiver. -/
theorem Ledger.deposits (h : m.Ledger w) (hv : m.Rendezvous) (hn : m.Numbered)
    (ht : m.sched.tasks i = some t) (hp : m.pc i = .send a)
    (hc : t.capTable.channel a.capIdx = some j.val) (hu : m.sched.tasks j = some u)
    (hst : u.state = .blockedOnReceive) :
    ∃ w', (((m.setTask j { u with ipcBuffer := some (a.message i), state := .ready }).returnSend i a
      (.ok ())).log [.delivered (a.message i) j]).Ledger w' := by
  have hsend : (m.pc i).sendArgs = some a := by rw [hp]; rfl
  have hnow : w a.call = .nowhere := by
    refine (h.call hp).resolve_right (fun hpk => ?_)
    obtain ⟨r, _, hs⟩ := h.sending hv hsend ht hpk
    cases hc.symm.trans hs.channel
    exact (hs.target_state hu).2 hst
  have hrecv := hv.receiving j u hu hst
  have hbuf : m.mail.buffer j = none := by
    simp [mail, Scheduler.mailbox_eq hu, hrecv.buffer]
  refine ⟨Function.update w a.call (.deposited j), h.advance hn rfl (Scheduler.channel_same hu rfl)
    (le_refl _) (.enter hnow (by rw [hp]; rfl) _) ?_ trivial (fun k n hw => ?_)
    (fun k n hw => ?_) (fun k n c res hmem => ?_)⟩
  · exact h.custody.place_buffer _ (.inr rfl) (.inl hnow) (fun _ => hbuf)
      (mail_queue_eq (Scheduler.queued_same hu rfl))
      (mail_buffer_set (Scheduler.mailbox_set ..) rfl)
      (mail_receipts_eq [_, _] rfl (by simp [Event.isReceipt]))
  · obtain ⟨hna, hw⟩ := place_unmoved hw (by simp)
    have hki : k ≠ i := by
      rintro rfl
      obtain ⟨⟨b, hb, rfl⟩, _⟩ := h.parked k n hw
      cases hsend.symm.trans hb
      exact hna rfl
    refine h.parked_moved rfl hki hw (fun v r' hv' hst' => ⟨v, r', ?_, hst'⟩)
    have hkj : k ≠ j := by
      rintro rfl
      cases hu.symm.trans hv'
      cases hst.symm.trans hst'
    exact (setTask_tasks ..).trans ((if_neg hkj).trans hv')
  · by_cases hna : n = a.call
    · subst hna
      rw [Function.update_self] at hw
      cases hw
      change ((m.setPc i .user).pc j).ownsBuffer = false
      rw [setPc_pc]
      split
      · rfl
      · have hin := hrecv.pc
        cases hpj : m.pc j <;> simp [hpj, Pc.inReceive, Pc.ownsBuffer] at hin ⊢
    · rw [Function.update_of_ne hna] at hw
      exact h.deposited_moved rfl rfl hw
  · rcases returned_of_delivers hmem with ⟨rfl, rfl, rfl, rfl⟩ | hold
    · refine .inr ⟨j, ?_, .inr (.inl (Function.update_self ..))⟩
      rw [Scheduler.channel_eq ht, hc]
    · exact .inl hold

/-- A message is put into the queue of its target. -/
theorem Ledger.enqueues (h : m.Ledger w) (hn : m.Numbered) (ht : m.sched.tasks i = some t)
    (hp : m.pc i = .sendAsync a) (hc : t.capTable.channel a.capIdx = some j.val)
    (hu : m.sched.tasks j = some u) {queue : MessageQueue}
    (hq : u.msgQueue.enqueue (a.message i) = some queue) :
    ∃ w', (((m.setTask j { u with
        msgQueue := queue
        state := if u.state = .blockedOnReceive then .ready else u.state }).returnSend i a
          (.ok ())).log [.delivered (a.message i) j]).Ledger w' := by
  have hnow : w a.call = .nowhere := h.call hp
  refine ⟨Function.update w a.call (.queued j), h.advance hn rfl (Scheduler.channel_same hu rfl)
    (le_refl _) (.enter hnow (by rw [hp]; rfl) _) ?_ trivial (fun k n hw => ?_)
    (fun k n hw => ?_) (fun k n c res hmem => ?_)⟩
  · refine h.custody.enqueue hnow (fun k c => ?_) (mail_buffer_eq (Scheduler.mailbox_same hu rfl))
      (mail_receipts_eq [_, _] rfl (by simp [Event.isReceipt]))
    rw [mail_queue_set (Scheduler.queued_set ..), Lib.Ring.contents_enqueue hq, List.countP_append,
      ← mail_queue_of hu]
    have hmsg : (a.message i).call = a.call := rfl
    grind
  · obtain ⟨hna, hw⟩ := place_unmoved hw (by simp)
    have hki : k ≠ i := by
      rintro rfl
      exact h.not_parked (by simp [hp, Pc.sendArgs]) n hw
    refine h.parked_moved rfl hki hw (fun v r' hv' hst' => ?_)
    by_cases hkj : k = j
    · subst hkj
      cases hu.symm.trans hv'
      exact ⟨_, r', Scheduler.set_tasks_self .., by simp [hst']⟩
    · exact ⟨v, r', (setTask_tasks ..).trans ((if_neg hkj).trans hv'), hst'⟩
  · obtain ⟨hna, hw⟩ := place_unmoved hw (by simp)
    exact h.deposited_moved rfl rfl hw
  · rcases returned_of_delivers hmem with ⟨rfl, rfl, rfl, rfl⟩ | hold
    · refine .inr ⟨j, ?_, .inl (Function.update_self ..)⟩
      rw [Scheduler.channel_eq ht, hc]
    · exact .inl hold

/-- A receive call of task `i` returns a message. -/
theorem Ledger.receives (h : m.Ledger w) (hn : m.Numbered) {msg : Message} (evs : List Event)
    (hpc : m'.pc = Function.update m.pc i .user) (hcalls : m'.calls = m.calls)
    (htr : m'.trace = .receiveReturned i (.ok msg) :: evs ++ m.trace)
    (hevs : ∀ k n c res, .sendReturned k n c res ∉ evs)
    (hc : m'.sched.channel = m.sched.channel)
    (hs : m.Shift i w (Function.update w msg.call (.received i)))
    (hcust : Custody True m'.mail (Function.update w msg.call (.received i)))
    (hst : ∀ k n, w n = .parked k → n ≠ msg.call → k ≠ i ∧ ∀ t r, m.sched.tasks k = some t →
      t.state = .blockedOnSend r → m'.sched.tasks k = some t) : ∃ w', m'.Ledger w' := by
  refine ⟨_, h.advance hn hpc hc (le_of_eq hcalls.symm) hs hcust trivial (fun k n hw => ?_)
    (fun k n hw => ?_) (fun k n c res hmem => ?_)⟩
  · obtain ⟨hna, hw⟩ := place_unmoved hw (by simp)
    obtain ⟨hki, hkeep⟩ := hst k n hw hna
    exact h.parked_moved hpc hki hw (fun v r hv hr => ⟨v, r, hkeep v r hv hr, hr⟩)
  · exact h.deposited_moved hpc rfl (place_unmoved hw (by simp)).2
  · rw [htr] at hmem
    rcases List.mem_append.mp hmem with hnew | hold
    · rcases List.mem_cons.mp hnew with heq | hev
      · cases heq
      · exact absurd hev (hevs k n c res)
    · exact .inl hold

/-- A task that is about to look for messages has parked none. -/
theorem Ledger.receiver_not_parked (h : m.Ledger w)
    (hp : m.pc i = .receive ∨ m.pc i = .receiveAsync) (n : Nat) : w n ≠ .parked i :=
  h.not_parked (by rcases hp with hp | hp <;> simp [hp, Pc.sendArgs]) n

/-- The oldest message of the queue is received. -/
theorem Ledger.dequeues (h : m.Ledger w) (hn : m.Numbered) (ht : m.sched.tasks i = some t)
    (hp : m.pc i = .receive ∨ m.pc i = .receiveAsync) {msg : Message} {queue : MessageQueue}
    (hq : t.msgQueue.contents = msg :: Lib.Ring.contents queue)
    (hs : m'.sched = m.sched.set i (some { t with msgQueue := queue }))
    (hpc : m'.pc = Function.update m.pc i .user) (hcalls : m'.calls = m.calls)
    (htr : m'.trace = .receiveReturned i (.ok msg) :: m.trace) : ∃ w', m'.Ledger w' := by
  have hqueue : ∀ k c, m.mail.queue k c =
      m'.mail.queue k c + if k = i ∧ c = msg.call then 1 else 0 := by
    intro k c
    have hset : m'.sched.queued = Function.update m.sched.queued i (Lib.Ring.contents queue) := by
      rw [hs, Scheduler.queued_set]
    rw [mail_queue_set hset]
    by_cases hk : k = i
    · subst hk
      rw [mail_queue_of ht, hq, List.countP_cons]
      grind
    · simp [hk]
  obtain ⟨hqueued, hcust⟩ := h.custody.take_queue hqueue
    (mail_buffer_eq (hs ▸ Scheduler.mailbox_same ht rfl))
    (mail_receipts_received [] htr (fun _ _ => rfl))
  refine h.receives hn [] hpc hcalls htr (by simp) (hs ▸ Scheduler.channel_same ht rfl)
    (.receive (.inl hqueued)) hcust (fun k n hw _ => ?_)
  have hki : k ≠ i := fun he => h.receiver_not_parked hp n (he ▸ hw)
  exact ⟨hki, fun v _ hv _ => by rw [hs, Scheduler.set_tasks, if_neg hki, hv]⟩

/-- The deposited message is received. -/
theorem Ledger.takes (h : m.Ledger w) (hn : m.Numbered) (ht : m.sched.tasks i = some t)
    (hp : m.pc i = .receive ∨ m.pc i = .receiveAsync) {msg : Message} (hb : t.ipcBuffer = some msg)
    (hs : m'.sched = m.sched.set i (some { t with ipcBuffer := none }))
    (hpc : m'.pc = Function.update m.pc i .user) (hcalls : m'.calls = m.calls)
    (htr : m'.trace = .receiveReturned i (.ok msg) :: m.trace) : ∃ w', m'.Ledger w' := by
  have hbuf : m.mail.buffer i = some msg.call := by simp [mail, Scheduler.mailbox_eq ht, hb]
  have hdep : w msg.call = .deposited i :=
    (h.custody.buffer i msg.call hbuf).resolve_left (h.receiver_not_parked hp _)
  refine h.receives hn [] hpc hcalls htr (by simp) (hs ▸ Scheduler.channel_same ht rfl)
    (.receive (.inr hdep)) ?_ (fun k n hw _ => ?_)
  · exact h.custody.take_buffer hbuf (mail_queue_eq (hs ▸ Scheduler.queued_same ht rfl))
      (mail_buffer_set (hs ▸ Scheduler.mailbox_set ..) rfl)
      (mail_receipts_received [] htr (fun _ _ => rfl))
  · have hki : k ≠ i := fun he => h.receiver_not_parked hp n (he ▸ hw)
    exact ⟨hki, fun v _ hv _ => by rw [hs, Scheduler.set_tasks, if_neg hki, hv]⟩

/-- The message of a blocked sender is fetched. -/
theorem Ledger.fetches (h : m.Ledger w) (hv : m.Rendezvous) (hn : m.Numbered) (hsp : m.Spun)
    (hi : m.cpu = .task i) (hp : m.pc i = .receive ∨ m.pc i = .receiveAsync)
    (hu : m.sched.tasks j = some u) (hst : u.state = .blockedOnSend i) {s : Scheduler} {t' : Task}
    (hs : s = m.sched.set j (some { u with ipcBuffer := none, state := .ready }))
    (ht' : s.tasks i = some t') (hs' : m'.sched = s.set i (some { t' with state := .running }))
    (hpc : m'.pc = Function.update m.pc i .user) (hcalls : m'.calls = m.calls)
    (htr : ∀ msg, u.ipcBuffer = some msg →
      m'.trace = .receiveReturned i (.ok msg) :: [.delivered msg i] ++ m.trace) :
    ∃ w', m'.Ledger w' := by
  obtain ⟨a, ha, _, hpj⟩ := hsp.waiting hv hi hp hu hst
  have hbuf : m.mail.buffer j = some a.call := by
    simp [mail, Scheduler.mailbox_eq hu, ha.message, SendArgs.message]
  have hparked : w a.call = .parked j := by
    refine (h.custody.buffer j a.call hbuf).resolve_right (fun hd => ?_)
    have := h.deposited j _ hd
    rcases hpj with hpj | hpj <;> simp [hpj, Pc.ownsBuffer] at this
  obtain ⟨hchan, hqueued, hmailbox⟩ := Scheduler.fetched hu hs ht' hs'
  have htrace := htr _ ha.message
  refine h.receives hn [_] hpc hcalls htrace (by simp) hchan (.fetch hparked hpj ?_) ?_
    (fun k n hw hna => ?_)
  · rw [Scheduler.channel_eq hu, ha.channel]
  · exact h.custody.take_buffer hbuf (mail_queue_eq hqueued) (mail_buffer_set hmailbox rfl)
      (mail_receipts_received [_] htrace (by simp [Event.isReceipt]))
  · have hki : k ≠ i := fun he => h.receiver_not_parked hp n (he ▸ hw)
    have hkj : k ≠ j := by
      rintro rfl
      obtain ⟨⟨b, hb, rfl⟩, _⟩ := h.parked k n hw
      cases ha.pc.symm.trans hb
      exact hna rfl
    refine ⟨hki, fun v _ hv _ => ?_⟩
    rw [hs', Scheduler.set_tasks, if_neg hki, hs, Scheduler.set_tasks, if_neg hkj, hv]

end Routes

/-- A send that looks for its target finds in its own buffer no message but its own, unless the
target is waiting and takes the message at once. -/
def KeepsMail (m : Machine) : Action → Prop
  | .proceed _ => ∀ i, m.cpu = .task i → ∀ a ∈ (m.pc i).sends, ∀ msg ∈ m.sched.mailbox i,
      msg.call = a.call ∨ m.sched.awaits i a.capIdx = true
  | _ => True

instance (m : Machine) : (a : Action) → Decidable (m.KeepsMail a)
  | .proceed _ => inferInstanceAs (Decidable (∀ i, m.cpu = .task i → ∀ a ∈ (m.pc i).sends,
      ∀ msg ∈ m.sched.mailbox i, msg.call = a.call ∨ m.sched.awaits i a.capIdx = true))
  | .sendTyped .. | .sendAsync .. | .receiveTyped | .receiveAsync | .yield _ | .tick _
  | .terminate | .create .. | .revoke .. => .isTrue trivial

/-- A send whose target does not wait for it finds nothing deposited in its buffer. -/
theorem Ledger.kept (h : m.Ledger w) {sp : StackPointer} {i : Fin maxTasks} {a : SendArgs}
    (hk : m.KeepsMail (.proceed sp)) (hi : m.cpu = .task i) (hp : m.pc i = .send a)
    (hno : m.sched.awaits i a.capIdx = false) (n : Nat) : w n ≠ .deposited i := by
  intro hd
  have hmail := h.custody.buffer_kept trivial i n (.inr hd)
  obtain ⟨msg, hmsg, rfl⟩ := Option.map_eq_some_iff.mp hmail
  rcases hk i hi a (by rw [hp]; rfl) msg hmsg with hown | hawaits
  · rw [hown] at hd
    rcases h.call hp with hnow | hpk
    · cases hnow.symm.trans hd
    · cases hpk.symm.trans hd
  · cases hno.symm.trans hawaits

theorem Effect.ledger (he : m.Effect act m') (hw : m.Wf) (hv : m.Rendezvous) (hn : m.Numbered)
    (hsp : m.Spun) (h : m.Ledger w) (hact : act.isTraffic = true) (hk : m.KeepsMail act) :
    ∃ w', m'.Ledger w' := by
  have same : Scheduler.SameMail m.sched m.sched := .of_tasks rfl
  cases he with
  | @refused i act capIdx e hi hp =>
    refine ⟨w, h.quiet hn same [_] (Function.update_eq_self i m.pc).symm (Nat.le_succ _) rfl
      (by simp [Event.isReceipt]) (fun k n c res hmem => ?_) (h.control i) (fun _ _ => rfl)
      (fun howns => h.not_deposited howns)⟩
    cases List.mem_singleton.mp hmem
    exact h.fresh _ (le_refl _)
  | @entered i _ _ _ _ a hi hp ha =>
    exact ⟨w, h.moved hn same rfl (Nat.le_succ _) rfl (.inl (h.fresh _ (ha ▸ le_refl _)))
      (fun n hpk => absurd hpk (h.not_parked (by simp [hp, Pc.sendArgs]) n))
      (by simp [Pc.ownsBuffer])⟩
  | @asyncEntered i _ a hi hp ha =>
    exact ⟨w, h.moved hn same rfl (Nat.le_succ _) rfl (h.fresh _ (ha ▸ le_refl _))
      (fun n hpk => absurd hpk (h.not_parked (by simp [hp, Pc.sendArgs]) n)) (by simp [Pc.ownsBuffer])⟩
  | @receiveEntered i _ p hi hp hp' =>
    refine ⟨w, h.moved hn same rfl (le_refl _) rfl (by rcases hp' with rfl | rfl <;> trivial)
      (fun n hpk => absurd hpk (h.not_parked (by simp [hp, Pc.sendArgs]) n)) ?_⟩
    rcases hp' with rfl | rfl <;> simp [Pc.ownsBuffer]
  | @rejected i _ t a hi ht hp hc =>
    have hnp : w a.call ≠ .parked i := by
      intro hpk
      obtain ⟨r, _, hs⟩ := h.sending hv (by rw [hp]; rfl) ht hpk
      cases hc.symm.trans hs.channel
    have hno : m.sched.awaits i a.capIdx = false := by
      rw [Scheduler.awaits, Scheduler.channel_eq ht, hc]
      rfl
    exact ⟨w, h.cleared hn ht (h.kept hk hi hp hno) (by simp [hp, Pc.sendArgs, hnp])
      ((h.call hp).resolve_right hnp) rfl rfl rfl rfl⟩
  | @gone i _ t a hi ht hp =>
    exact ⟨w, h.cleared hn ht (h.not_deposited (by rw [hp]; rfl)) (by simp [hp, Pc.sendArgs])
      (h.call hp) rfl rfl rfl rfl⟩
  | @deposited i _ t a j u hi ht hp hc hu hst => exact h.deposits hv hn ht hp hc hu hst
  | @foundGone i _ t a r hi ht hp hc hg =>
    have hnp : w a.call ≠ .parked i := by
      intro hpk
      obtain ⟨r', _, hs⟩ := h.sending hv (by rw [hp]; rfl) ht hpk
      cases hc.symm.trans hs.channel
      obtain ⟨k, v, hv, rfl, hterm, _⟩ := hs.target
      exact hterm (hg v (by rw [hw.indexed.getTask, hv]))
    refine ⟨w, h.moved hn same rfl (le_refl _) rfl ((h.call hp).resolve_right hnp)
      (fun n hpk => absurd hpk (h.not_parked (by simp [hp, Pc.sendArgs, hnp]) n))
      (fun _ => h.kept hk hi hp ?_)⟩
    rw [Scheduler.awaits, Scheduler.channel_eq ht, hc, Option.any_some, Option.any_eq_false]
    intro v hget
    simp [hg v hget]
  | @parked i _ t a r hi ht hp hc hg =>
    refine h.parks hv hn ht hp (h.kept hk hi hp ?_)
    obtain ⟨k, v, hv, rfl, _, hst⟩ := hg
    rw [Scheduler.awaits, Scheduler.channel_eq ht, hc, Option.any_some, hw.indexed.getTask, hv]
    simpa using hst
  | @consumed i _ t a hi ht hp hb =>
    have hnp : w a.call ≠ .parked i := by
      intro hpk
      obtain ⟨r, _, hs⟩ := h.sending hv (by rw [hp]; rfl) ht hpk
      cases hb.symm.trans hs.message
    obtain ⟨r, hr, hrec⟩ := (h.call hp).resolve_left hnp
    exact ⟨w, h.returned hn same rfl rfl rfl ⟨r, hr, .inr (.inr hrec)⟩
      (h.not_parked (by simp [hp, Pc.sendArgs, hnp]))⟩
  | @retried i _ t a msg hi ht hp hb =>
    have hd := h.not_deposited (i := i) (by rw [hp]; rfl)
    have hpk : w a.call = .parked i := by
      by_contra hnp
      have hnone := h.buffer_none ht (h.not_parked (by simp [hp, Pc.sendArgs, hnp])) hd
      cases hb.symm.trans hnone
    exact ⟨w, h.moved hn same rfl (le_refl _) rfl (.inr hpk) (fun _ _ => by rw [hp]; rfl)
      (fun _ => hd)⟩
  | @asyncRefused i _ a e hi hp =>
    exact ⟨w, h.returned hn same rfl rfl rfl (h.call hp)
      (h.not_parked (by simp [hp, Pc.sendArgs]))⟩
  | enqueued hi ht hp hc hu hst hq => exact h.enqueues hn ht hp hc hu hq
  | receivedQueue hi ht hp hq => exact h.dequeues hn ht hp hq rfl rfl rfl rfl
  | receivedBuffer hi ht hp hq hb => exact h.takes hn ht hp hb rfl rfl rfl rfl
  | receivedSender hi ht hp hq hb hu hst ht' =>
    refine h.fetches hv hn hsp hi hp hu hst rfl ht' rfl rfl rfl (fun msg hmsg => ?_)
    rw [hmsg]
    rfl
  | @receiveBlocked i _ t hi ht hp hq hb hs =>
    have hnp := h.receiver_not_parked (.inl hp)
    refine ⟨w, h.moved hn (.set ht rfl rfl rfl (fun r hst => ?_)) rfl (le_refl _) rfl trivial
      (fun n hpk => absurd hpk (hnp n)) (by simp [Pc.ownsBuffer])⟩
    cases (hv.receive_blocked (.inl hp) ht (hst ▸ .send r)).1.symm.trans hst
  | @receiveEmpty i _ hi hp =>
    exact ⟨w, h.quiet hn same [_] rfl (le_refl _) rfl (by simp [Event.isReceipt])
      (fun _ _ _ _ hmem => by cases List.mem_singleton.mp hmem) trivial
      (fun n hpk => absurd hpk (h.receiver_not_parked (.inr hp) n)) (by simp [Pc.ownsBuffer])⟩
  | @stayed i _ p hi hp => exact ⟨w, h.paused hn same hp rfl rfl rfl⟩
  | @switched i _ t p j u sp hi ht hp hj hu hst =>
    refine ⟨w, h.paused hn ?_ hp rfl rfl rfl⟩
    have hout : Scheduler.SameMail m.sched (m.sched.set i (some { t.paused with rsp := sp })) :=
      .set ht rfl rfl rfl (fun r hr => ⟨r, by simp [Task.paused, hr]⟩)
    exact hout.trans (.started (by rw [Scheduler.set_tasks, if_neg hj, hu]) hst)
  | idled | revokedNothing => exact ⟨w, h⟩
  | @started _ j u hb hu hst =>
    exact ⟨w, h.paused hn (.started hu hst) (.here (m.pc j)) (Function.update_eq_self j m.pc).symm
      rfl rfl⟩
  | bootHalted => exact ⟨w, ⟨h.custody, h.fresh, h.control, h.parked, h.deposited, h.outcome⟩⟩
  | died | succeeded | created | revoked => cases hact

end Machine

end Runix
