import Runix.Proofs.Running

namespace Runix

def Action.isTraffic : Action → Bool
  | .terminate | .create .. | .revoke .. => false
  | _ => true

def Pc.args : Pc → Option SendArgs
  | .send a | .sendGone a | .sendWait a | .sendCheck a | .sendAsync a => some a
  | _ => none

def Pc.call (p : Pc) : Option Nat := p.args.map SendArgs.call

namespace Machine

variable {m m' : Machine} {act : Action}

/-- Send calls are numbered, and a number is in use by at most one task until
its call has returned. -/
structure Numbered (m : Machine) : Prop where
  bound : ∀ i n, (m.pc i).call = some n → n < m.calls
  owner : ∀ i j n, (m.pc i).call = some n → (m.pc j).call = some n → i = j
  returned : ∀ i n c res, .sendReturned i n c res ∈ m.trace →
    n < m.calls ∧ ∀ j, (m.pc j).call ≠ some n

theorem Numbered.moved (h : m.Numbered) (i : Fin maxTasks) (p : Pc)
    (hpc : m'.pc = Function.update m.pc i p) (hc : m'.calls = m.calls)
    (hp : p.call = none ∨ p.call = (m.pc i).call)
    (htr : ∀ k n c res, .sendReturned k n c res ∈ m'.trace →
      .sendReturned k n c res ∈ m.trace ∨ ((m.pc i).call = some n ∧ p.call = none)) :
    m'.Numbered := by
  have hcall : ∀ k n, (m'.pc k).call = some n → (m.pc k).call = some n ∧ (k = i → p.call ≠ none) := by
    intro k n hk
    rw [hpc, Function.update_apply] at hk
    split at hk
    · rename_i hki
      subst hki
      rcases hp with hp | hp
      · cases hp.symm.trans hk
      · exact ⟨hp ▸ hk, fun _ h => by cases h.symm.trans hk⟩
    · rename_i hki
      exact ⟨hk, fun h => absurd h hki⟩
  refine ⟨fun k n hk => hc ▸ h.bound k n (hcall k n hk).1,
    fun k l n hk hl => h.owner k l n (hcall k n hk).1 (hcall l n hl).1,
    fun k n c res hmem => ?_⟩
  rcases htr k n c res hmem with hold | ⟨hi, hnone⟩
  · obtain ⟨hlt, hfree⟩ := h.returned k n c res hold
    exact ⟨hc ▸ hlt, fun j hj => hfree j (hcall j n hj).1⟩
  · refine ⟨hc ▸ h.bound i n hi, fun j hj => ?_⟩
    obtain ⟨hj', hne⟩ := hcall j n hj
    exact hne (h.owner j i n hj' hi) hnone

/-- A call starts with the next number, and may be refused at once. -/
theorem Numbered.entered (h : m.Numbered) (i : Fin maxTasks) (p : Pc)
    (hpc : m'.pc = Function.update m.pc i p) (hc : m'.calls = m.calls + 1)
    (hp : p.call = some m.calls) (htr : m'.trace = m.trace) : m'.Numbered := by
  have hcall : ∀ k n, (m'.pc k).call = some n →
      (k = i ∧ n = m.calls) ∨ (k ≠ i ∧ (m.pc k).call = some n) := by
    intro k n hk
    rw [hpc, Function.update_apply] at hk
    split at hk
    · exact .inl ⟨by assumption, Option.some.inj (hk.symm.trans hp)⟩
    · exact .inr ⟨by assumption, hk⟩
  refine ⟨fun k n hk => ?_, fun k l n hk hl => ?_, fun k n c res hmem => ?_⟩
  · rcases hcall k n hk with ⟨_, rfl⟩ | ⟨_, hk⟩
    · omega
    · have := h.bound k n hk
      omega
  · rcases hcall k n hk with ⟨rfl, rfl⟩ | ⟨_, hk⟩ <;> rcases hcall l _ hl with ⟨rfl, hn⟩ | ⟨_, hl⟩
    · rfl
    · exact absurd (h.bound l _ hl) (lt_irrefl _)
    · exact absurd (hn ▸ h.bound k n hk) (lt_irrefl _)
    · exact h.owner k l n hk hl
  · rw [htr] at hmem
    obtain ⟨hlt, hfree⟩ := h.returned k n c res hmem
    refine ⟨by omega, fun j hj => ?_⟩
    rcases hcall j n hj with ⟨_, rfl⟩ | ⟨_, hj⟩
    · exact absurd hlt (lt_irrefl _)
    · exact hfree j hj

theorem Paused.args {p p' : Pc} (h : Paused p p') : p'.args = p.args := by
  cases h <;> rfl

theorem Paused.call {p p' : Pc} (h : Paused p p') : p'.call = p.call := by
  rw [Pc.call, h.args, Pc.call]

/-- A send call returns. -/
theorem Numbered.sendReturned (h : m.Numbered) {i : Fin maxTasks} {a : SendArgs}
    {res : Except IpcError Unit} (hp : (m.pc i).call = some a.call) (evs : List Event)
    (hpc : m'.pc = Function.update m.pc i .user) (hc : m'.calls = m.calls)
    (htr : m'.trace = evs ++ .sendReturned i a.call a.capIdx res :: m.trace)
    (hevs : ∀ k n c res, .sendReturned k n c res ∉ evs) : m'.Numbered := by
  refine h.moved i .user hpc hc (.inl rfl) (fun k n c res hmem => ?_)
  rw [htr] at hmem
  rcases List.mem_append.mp hmem with hev | hmem
  · exact absurd hev (hevs k n c res)
  · rcases List.mem_cons.mp hmem with heq | hold
    · cases heq
      exact .inr ⟨hp, rfl⟩
    · exact .inl hold

/-- A step that ends no send call. -/
theorem Numbered.other (h : m.Numbered) {i : Fin maxTasks} {p : Pc} (evs : List Event)
    (hpc : m'.pc = Function.update m.pc i p) (hc : m'.calls = m.calls)
    (hp : p.call = none ∨ p.call = (m.pc i).call) (htr : m'.trace = evs ++ m.trace)
    (hevs : ∀ k n c res, .sendReturned k n c res ∉ evs) : m'.Numbered := by
  refine h.moved i p hpc hc hp (fun k n c res hmem => ?_)
  rw [htr] at hmem
  rcases List.mem_append.mp hmem with hev | hold
  · exact absurd hev (hevs k n c res)
  · exact .inl hold

theorem Effect.numbered (he : m.Effect act m') (h : m.Numbered) : m'.Numbered := by
  cases he with
  | @refused i act capIdx e hi hp =>
    refine ⟨fun k n hk => Nat.lt_succ_of_lt (h.bound k n hk), h.owner, fun k n c res hmem => ?_⟩
    rcases List.mem_cons.mp hmem with heq | hold
    · cases heq
      exact ⟨Nat.lt_succ_self _, fun j hj => absurd (h.bound j _ hj) (lt_irrefl _)⟩
    · obtain ⟨hlt, hfree⟩ := h.returned k n c res hold
      exact ⟨Nat.lt_succ_of_lt hlt, hfree⟩
  | @entered i _ _ _ _ a _ _ ha =>
    exact h.entered i (.send a) rfl rfl (congrArg some ha) rfl
  | @asyncEntered i _ a _ _ ha =>
    exact h.entered i (.sendAsync a) rfl rfl (congrArg some ha) rfl
  | receiveEntered _ _ hp' =>
    exact h.other [] rfl rfl (.inl (by rcases hp' with rfl | rfl <;> rfl)) rfl (by simp)
  | rejected _ _ hp | gone _ _ hp | consumed _ _ hp | asyncRefused _ hp =>
    exact h.sendReturned (by rw [hp]; rfl) [] rfl rfl rfl (by simp)
  | deposited _ _ hp | enqueued _ _ hp =>
    exact h.sendReturned (by rw [hp]; rfl) [_] rfl rfl rfl (by simp)
  | foundGone _ _ hp | parked _ _ hp | retried _ _ hp =>
    exact h.other [] rfl rfl (.inr (by rw [hp]; rfl)) rfl (by simp)
  | receivedQueue | receivedBuffer | receiveEmpty =>
    exact h.other [_] rfl rfl (.inl rfl) rfl (by simp)
  | @receivedSender i _ t j u t' =>
    refine h.other (_ :: _) rfl rfl (.inl rfl) rfl (fun k n c res hmem => ?_)
    rcases List.mem_cons.mp hmem with heq | hmem
    · cases heq
    · split at hmem
      · cases List.mem_singleton.mp hmem
      · cases hmem
  | receiveBlocked | died | succeeded | created => exact h.other [] rfl rfl (.inl rfl) rfl (by simp)
  | stayed _ hp | switched _ _ _ hp => exact h.other [] rfl rfl (.inr hp.call) rfl (by simp)
  | idled | started | bootHalted | revoked | revokedNothing => exact ⟨h.bound, h.owner, h.returned⟩

/-- A sender goes round its loop with the message still parked only while it
holds the processor and nobody is Ready. -/
def Spun (m : Machine) : Prop :=
  ∀ i t r a, m.sched.tasks i = some t → t.state = .blockedOnSend r →
    m.pc i = .send a ∨ (m.pc i = .sendCheck a ∧ m.cpu = .task i) →
    m.cpu = .task i ∧ ∀ k v, m.sched.tasks k = some v → v.state ≠ .ready

/-- The task on the processor does something and keeps it. -/
theorem Spun.frame (h : m.Spun) {i : Fin maxTasks} (hi : m.cpu = .task i)
    (hcpu : m'.cpu = .task i) (hpc : ∀ k, k ≠ i → m'.pc k = m.pc k)
    (hold : ∀ k u r, k ≠ i → m'.sched.tasks k = some u → u.state = .blockedOnSend r →
      ∃ u₀, m.sched.tasks k = some u₀ ∧ u₀.state = .blockedOnSend r)
    (hself : ∀ t r a, m'.sched.tasks i = some t → t.state = .blockedOnSend r →
      m'.pc i = .send a ∨ m'.pc i = .sendCheck a →
      ∀ k v, m'.sched.tasks k = some v → v.state ≠ .ready) : m'.Spun := by
  intro k t r a ht hst hp
  by_cases hk : k = i
  · subst hk
    exact ⟨hcpu, hself t r a ht hst (hp.imp_right And.left)⟩
  · obtain ⟨t₀, ht₀, hst₀⟩ := hold k t r hk ht hst
    rw [hpc k hk] at hp
    have hcpu₀ : m.cpu = .task k := by
      rcases hp with hp | ⟨_, hc⟩
      · exact (h k t₀ r a ht₀ hst₀ (.inl hp)).1
      · exact absurd (Cpu.task.inj (hc.symm.trans hcpu)) hk
    exact absurd (Cpu.task.inj (hcpu₀.symm.trans hi)) hk

/-- The task on the processor changes one task and leaves the send loop, or has
just parked its message. -/
theorem Spun.replaced (h : m.Spun) {i j : Fin maxTasks} {u' : Task} {p : Pc}
    (hi : m.cpu = .task i) (hcpu : m'.cpu = m.cpu) (hpc : m'.pc = Function.update m.pc i p)
    (hs : m'.sched.tasks = Function.update m.sched.tasks j (some u'))
    (hp : ∀ a, p ≠ .send a ∧ p ≠ .sendCheck a)
    (hj : ∀ r, j ≠ i → u'.state = .blockedOnSend r →
      ∃ u, m.sched.tasks j = some u ∧ u.state = .blockedOnSend r) : m'.Spun := by
  refine h.frame hi (hcpu.trans hi) (fun k hk => by rw [hpc, Function.update_of_ne hk])
    (fun k u r hk hu hst => ?_) (fun t r a _ _ hpi => ?_)
  · rw [hs, Function.update_apply] at hu
    split at hu
    · rename_i hkj
      subst hkj
      cases hu
      exact hj r hk hst
    · exact ⟨u, hu, hst⟩
  · rw [hpc, Function.update_self] at hpi
    rcases hpi with hpi | hpi
    · exact absurd hpi (hp a).1
    · exact absurd hpi (hp a).2

/-- Only the control of the task on the processor moves. -/
theorem Spun.moved (h : m.Spun) {i : Fin maxTasks} {p : Pc} (hi : m.cpu = .task i)
    (hcpu : m'.cpu = m.cpu) (hpc : m'.pc = Function.update m.pc i p)
    (hs : m'.sched.tasks = m.sched.tasks)
    (hself : ∀ t r a, m.sched.tasks i = some t → t.state = .blockedOnSend r →
      p = .send a ∨ p = .sendCheck a → ∀ k v, m.sched.tasks k = some v → v.state ≠ .ready) :
    m'.Spun := by
  refine h.frame hi (hcpu.trans hi) (fun k hk => by rw [hpc, Function.update_of_ne hk])
    (fun k u r _ hu hst => ⟨u, hs ▸ hu, hst⟩) (fun t r a ht hst hpi => ?_)
  rw [hpc, Function.update_self] at hpi
  rw [hs] at ht ⊢
  exact hself t r a ht hst hpi

/-- Passing the processor to another task. -/
theorem spun_started {s : Scheduler} {j : Fin maxTasks} {u : Task}
    (h : ∀ k v r a, s.tasks k = some v → v.state = .blockedOnSend r → m'.pc k ≠ .send a)
    (hs : m'.sched = s.started j u) (hc : m'.cpu = .task j) : m'.Spun := by
  intro k v r a hv hst hp
  rw [hs, Scheduler.started, Scheduler.set_tasks] at hv
  split at hv
  · cases hv
    cases hst
  · rename_i hk
    rcases hp with hp | ⟨_, hk'⟩
    · exact absurd hp (h k v r a hv hst)
    · exact absurd (Cpu.task.inj (hk'.symm.trans hc)) hk

theorem Paused.to_send {p : Pc} {a : SendArgs} (h : Paused p (.send a)) : p = .send a := by
  cases h
  rfl

def FromOwnCode (m : Machine) : Action → Prop
  | .create .. => ∀ i, m.cpu = .task i → isUser (m.pc i) = true
  | _ => True

instance (m : Machine) : (a : Action) → Decidable (m.FromOwnCode a)
  | .create .. => inferInstanceAs (Decidable (∀ i, m.cpu = .task i → isUser (m.pc i) = true))
  | .sendTyped .. | .sendAsync .. | .receiveTyped | .receiveAsync | .proceed _ | .yield _ | .tick _
  | .terminate | .revoke .. => .isTrue trivial

theorem fromOwnCode_of_traffic (m : Machine) {a : Action} (h : a.isTraffic = true) :
    m.FromOwnCode a := by
  cases a with
  | create => cases h
  | _ => trivial

/-- While somebody else dies, nobody is going round its loop. -/
theorem Spun.killed (h : m.Spun) {i k : Fin maxTasks} {t v : Task} {r : TaskId} {a : SendArgs}
    (hi : m.cpu = .task i) (hv : (m.sched.killed i t).tasks k = some v)
    (hst : v.state = .blockedOnSend r) : (m.setPc i .dead).pc k ≠ .send a := by
  intro hp
  simp only [Scheduler.killed] at hv
  split at hv
  · cases hv
    cases hst
  · rename_i hk
    obtain ⟨u, hu, rfl⟩ := Option.map_eq_some_iff.mp hv
    have hust : u.state = .blockedOnSend r := by
      unfold Task.woken at hst
      split at hst
      · cases hst
      · exact hst
    rw [update_pc_ne hk] at hp
    exact hk (Cpu.task.inj ((h k u r a hu hust (.inl hp)).1.symm.trans hi))

theorem Effect.spun (he : m.Effect act m') (hv : m.Rendezvous) (h : m.Spun)
    (hact : m.FromOwnCode act) : m'.Spun := by
  cases he with
  | refused | idled | revokedNothing => exact h
  | @entered i _ _ _ _ a hi hp =>
    refine h.moved hi rfl rfl rfl (fun t r _ ht hst _ => ?_)
    exact absurd (hst ▸ .send r) (hv.free ht (by rw [hp]; rfl) (by rw [hp]; rfl))
  | asyncEntered hi | foundGone hi | consumed hi | asyncRefused hi | receiveEmpty hi =>
    exact h.moved hi rfl rfl rfl (fun _ _ _ _ _ hp => by rcases hp with hp | hp <;> cases hp)
  | receiveEntered hi _ hp' =>
    refine h.moved hi rfl rfl rfl (fun _ _ _ _ _ hp => ?_)
    rcases hp' with rfl | rfl <;> rcases hp with hp | hp <;> cases hp
  | @retried i _ t a _ hi _ hp =>
    exact h.moved hi rfl rfl rfl (fun t r _ ht hst _ => (h i t r a ht hst (.inr ⟨hp, hi⟩)).2)
  | @stayed i _ p hi _ hidle =>
    refine h.moved hi rfl rfl rfl (fun t r _ ht hst _ k v hv hr => ?_)
    by_cases hk : k = i
    · subst hk
      cases ht.symm.trans hv
      cases hst.symm.trans hr
    · exact hidle k v hk hv hr
  | rejected hi | gone hi | parked hi | receivedQueue hi | receivedBuffer hi
    | receiveBlocked hi =>
    exact h.replaced hi rfl rfl rfl (fun _ => ⟨by simp, by simp⟩) (fun _ hne => absurd rfl hne)
  | deposited hi =>
    exact h.replaced hi rfl rfl rfl (fun _ => ⟨by simp, by simp⟩) (fun _ _ hst => by cases hst)
  | @enqueued _ _ _ _ _ u _ hi _ _ _ hu =>
    refine h.replaced hi rfl rfl rfl (fun _ => ⟨by simp, by simp⟩) (fun r _ hst => ?_)
    simp only at hst
    split at hst
    · cases hst
    · exact ⟨u, hu, hst⟩
  | @receivedSender i _ t j u t' hi =>
    refine h.frame hi hi (fun k hk => update_pc_ne hk) (fun k v r hk hv hst => ?_)
      (fun _ _ _ _ _ hp => ?_)
    · change ((m.setTask j _).setTask i _).sched.tasks k = some v at hv
      rw [setTask_tasks, if_neg hk, setTask_tasks] at hv
      split at hv
      · cases hv
        cases hst
      · exact ⟨v, hv, hst⟩
    · change (m.setPc i .user).pc i = _ ∨ (m.setPc i .user).pc i = _ at hp
      rw [setPc_pc, if_pos rfl] at hp
      rcases hp with hp | hp <;> cases hp
  | @switched i _ t p j u sp hi ht hp hj hu hst =>
    refine spun_started (fun k v r a hv hbl hpk => ?_) rfl rfl
    by_cases hk : k = i
    · subst hk
      cases (Scheduler.set_tasks_self ..).symm.trans hv
      change (m.setPc k p).pc k = .send a at hpk
      rw [setPc_pc, if_pos rfl] at hpk
      have hsend : m.pc k = .send a := (hpk ▸ hp).to_send
      exact (h k t r a ht (Task.paused_state hbl (by simp)) (.inl hsend)).2 j u hu hst
    · change (m.setPc i p).pc k = .send a at hpk
      rw [update_pc_ne hk] at hpk
      change (m.sched.set i _).tasks k = some v at hv
      rw [Scheduler.set_tasks, if_neg hk] at hv
      cases hi.symm.trans (h k v r a hv hbl (.inl hpk)).1
      exact hk rfl
  | @started _ j u hb hu hst =>
    refine spun_started (fun k v r a hv hbl hpk => ?_) rfl rfl
    cases hb.symm.trans (h k v r a hv hbl (.inl hpk)).1
  | bootHalted hb =>
    intro k v r a hv hbl hpk
    rcases hpk with hpk | ⟨_, hc⟩
    · cases hb.symm.trans (h k v r a hv hbl (.inl hpk)).1
    · cases hc
  | @died i t hi ht =>
    intro k v r a hv hst hp
    rcases hp with hp | ⟨_, hc⟩
    · exact absurd hp (h.killed hi hv hst)
    · cases hc
  | @succeeded i t j u hi ht hu hst =>
    exact spun_started (fun k v r a hv hbl => h.killed hi hv hbl) rfl rfl
  | @created i _ _ _ _ t _ _ _ hst =>
    intro k v r a hv hbl hp
    change (m.setTask i t).sched.tasks k = some v at hv
    rw [setTask_tasks] at hv
    split at hv
    · cases hv
      cases hst.symm.trans hbl
    · rename_i hk
      change (m.setPc i .user).pc k = _ ∨ ((m.setPc i .user).pc k = _ ∧ m.cpu = .task k) at hp
      rw [update_pc_ne hk] at hp
      have hown := hact k (h k v r a hv hbl hp).1
      rcases hp with hp | ⟨hp, _⟩ <;> rw [hp] at hown <;> cases hown
  | @revoked j u capIdx hcpu hu =>
    intro k v r a hv hst hp
    have hsame : ∀ l x, (m.setTask j { u with capTable := u.capTable.clear capIdx }).sched.tasks l =
        some x → ∃ y, m.sched.tasks l = some y ∧ y.state = x.state := by
      intro l x hx
      rw [setTask_tasks] at hx
      split at hx
      · rename_i hl
        cases hx
        exact ⟨u, hl ▸ hu, rfl⟩
      · exact ⟨x, hx, rfl⟩
    obtain ⟨v₀, hv₀, hst₀⟩ := hsame k v hv
    obtain ⟨hc, hidle⟩ := h k v₀ r a hv₀ (hst₀.trans hst) hp
    refine ⟨hc, fun l x hx hr => ?_⟩
    obtain ⟨x₀, hx₀, hr₀⟩ := hsame l x hx
    exact hidle l x₀ hx₀ (hr₀.trans hr)

/-- A sender whose message is about to be fetched waits outside its region. -/
theorem Spun.waiting (h : m.Spun) (hv : m.Rendezvous) {i j : Fin maxTasks} {u : Task}
    (hi : m.cpu = .task i) (hp : m.pc i = .receive ∨ m.pc i = .receiveAsync)
    (hu : m.sched.tasks j = some u) (hst : u.state = .blockedOnSend i) :
    ∃ a, m.Sending j u i a ∧ j ≠ i ∧ (m.pc j = .sendWait a ∨ m.pc j = .sendCheck a) := by
  obtain ⟨a, ha⟩ := hv.sending j u i hu hst
  have hargs := ha.pc
  have hji : j ≠ i := by
    rintro rfl
    rcases hp with hp | hp <;> simp [hp, Pc.sendArgs] at hargs
  have hsend : m.pc j ≠ .send a := by
    intro hpj
    cases hi.symm.trans (h j u i a hu hst (.inl hpj)).1
    exact hji rfl
  refine ⟨a, ha, hji, ?_⟩
  cases hq : m.pc j <;> simp_all [Pc.sendArgs]

end Machine

end Runix
