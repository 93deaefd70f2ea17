import Runix.Receive
import Runix.Proofs.Routing
import Runix.Proofs.UserRange

namespace Runix

namespace Memory

variable {m m' : Memory} {hhdm addr : Nat} {w : Bool}

/-- One entry is passed exactly if its address fits, it is open, and the rest passes. -/
theorem passEntry_ok {table idx : Nat} {rest : BitVec 64 → Option (Except Unit Unit)} :
    (do
      let e ← m.readDirect hhdm table idx
      if refused e w = true then pure (.error ()) else rest e) = some (.ok ()) ↔
    table + hhdm < 2 ^ 64 ∧ Open (m.entry table idx) w ∧ rest (m.entry table idx) = some (.ok ()) := by
  rw [readDirect]
  by_cases hfit : table + hhdm < 2 ^ 64
  · rw [if_pos hfit, Option.bind_eq_bind, Option.bind_some, ← refused_eq_false]
    cases refused (m.entry table idx) w with
    | true =>
      constructor
      · intro h
        cases h
      · intro h
        cases h.2.1
    | false => exact ⟨fun h => ⟨hfit, rfl, h⟩, fun h => h.2.2⟩
  · rw [if_neg hfit]
    constructor
    · intro h
      cases h
    · intro h
      exact absurd h.1 hfit

/-- What a passed turn of the page loop has read. -/
theorem validatePage_ok : m.validatePage hhdm addr w = some (.ok ()) ↔
    m.activePml4 + hhdm < 2 ^ 64 ∧ Open (m.entry4 addr) w ∧
    frameOf (m.entry4 addr) + hhdm < 2 ^ 64 ∧ Open (m.entry3 addr) w ∧
    frameOf (m.entry3 addr) + hhdm < 2 ^ 64 ∧ Open (m.entry2 addr) w ∧
    frameOf (m.entry2 addr) + hhdm < 2 ^ 64 ∧ Open (m.entry1 addr) w := by
  refine passEntry_ok.trans (and_congr_right fun _ => and_congr_right fun _ => ?_)
  refine passEntry_ok.trans (and_congr_right fun _ => and_congr_right fun _ => ?_)
  refine passEntry_ok.trans (and_congr_right fun _ => and_congr_right fun _ => ?_)
  refine passEntry_ok.trans (and_congr_right fun _ => ?_)
  exact and_iff_left rfl

/-- A page that passed passes again under the same tables. -/
theorem SameTables.validatePage (h : m.SameTables m')
    (hok : m.validatePage hhdm addr w = some (.ok ())) :
    m'.validatePage hhdm addr w = some (.ok ()) := by
  have hpath := validatePage_ok.mp hok
  obtain ⟨_, h4, _, h3, _, h2, _, _⟩ := hpath
  have e4 : m'.entry4 addr = m.entry4 addr := by
    rw [entry4, h.root]
    exact h.entry addr _ List.mem_cons_self _ (Nat.mod_lt _ (by decide))
  have e3 : m'.entry3 addr = m.entry3 addr := by
    rw [entry3, e4]
    exact h.entry addr _ (pdpt_mem_tables h4.1) _ (Nat.mod_lt _ (by decide))
  have e2 : m'.entry2 addr = m.entry2 addr := by
    rw [entry2, e3]
    exact h.entry addr _ (pd_mem_tables h4.1 h3.1) _ (Nat.mod_lt _ (by decide))
  have e1 : m'.entry1 addr = m.entry1 addr := by
    rw [entry1, e2]
    exact h.entry addr _ (pt_mem_tables h4.1 h3.1 h2.1) _ (Nat.mod_lt _ (by decide))
  rw [validatePage_ok, h.root, e4, e3, e2, e1]
  exact validatePage_ok.mp hok

/-- A loop that passed passes again up to any earlier page. -/
theorem SameTables.validatePages (h : m.SameTables m') {endPage endPage' : Nat}
    (hend : endPage' ≤ endPage) (haligned : endPage' % 4096 = 0) (turns : Nat) :
    ∀ vaddr, vaddr % 4096 = 0 → vaddr ≤ endPage' →
      m.validatePages hhdm endPage w turns vaddr = some (.ok ()) →
      m'.validatePages hhdm endPage' w turns vaddr = some (.ok ()) := by
  induction turns with
  | zero =>
    intro vaddr _ _ hok
    cases hok
  | succ turns ih =>
    intro vaddr hv hle hok
    rw [Memory.validatePages] at hok ⊢
    split at hok
    · cases hok
    · cases hok
    · rename_i hpage
      rw [h.validatePage hpage]
      simp only
      by_cases hlast : vaddr = endPage'
      · rw [if_pos hlast]
      · rw [if_neg (by omega)] at hok
        rw [if_neg hlast]
        split at hok
        · rename_i hfit
          rw [if_pos hfit]
          exact ih (vaddr + 4096) (by omega) (by omega) hok
        · cases hok

theorem pageOf_mod (addr : Nat) : pageOf addr % 4096 = 0 := Nat.mul_mod_left ..

theorem pageOf_le {a b : Nat} (h : a ≤ b) : pageOf a ≤ pageOf b :=
  Nat.mul_le_mul_right 4096 (Nat.div_le_div_right h)

/-- A range that passed passes again when it is cut short. -/
theorem SameTables.validateUserRange (h : m.SameTables m') {ptr len len' : UInt64}
    (hle : len'.toNat ≤ len.toNat) (hok : m.validateUserRange hhdm ptr len w = some (.ok ())) :
    m'.validateUserRange hhdm ptr len' w = some (.ok ()) := by
  rw [Memory.validateUserRange] at hok ⊢
  by_cases hzero : len' = 0
  · rw [if_pos hzero]
  · have hpos : 0 < len'.toNat := by
      apply Nat.pos_of_ne_zero
      intro heq
      exact hzero (UInt64.toNat.inj heq)
    have hlen : len ≠ 0 := by
      rintro rfl
      exact absurd hle (Nat.not_le_of_lt hpos)
    rw [if_neg hlen] at hok
    rw [if_neg hzero]
    simp only at hok ⊢
    split at hok
    · rename_i hfit
      split at hok
      · cases hok
      · rename_i hbound
        rw [if_pos (by omega), if_neg (by omega)]
        exact h.validatePages (pageOf_le (by omega)) (pageOf_mod _) _ _ (pageOf_mod _)
          (pageOf_le (by omega)) hok
    · cases hok

/-- What the parse of these requests has checked. -/
theorem parseTake_some {frame : SyscallFrame} {req : TakeRequest}
    (h : m.parseTake hhdm frame = some (some req)) :
    m.validateUserRange hhdm req.buf (UInt64.ofNat (min req.cap.toNat 128)) true = some (.ok ()) := by
  have hpassed : ∀ {r : Option (Except Unit Unit)} {req' : TakeRequest},
      r.map (fun r => if r.isOk then some req' else none) = some (some req) →
      r = some (.ok ()) ∧ req' = req := by
    rintro (_ | _ | _) req' hr
    · cases hr
    · cases hr
    · cases hr
      exact ⟨rfl, rfl⟩
  unfold parseTake at h
  simp only at h
  split at h
  · obtain ⟨hok, rfl⟩ := hpassed h
    exact hok
  · split at h
    · obtain ⟨hok, rfl⟩ := hpassed h
      exact hok
    · cases h

theorem finishTake_ok (req : TakeRequest) (msg : Message) :
    m.finishTake hhdm req (.ok msg) = m.takeMessage hhdm req.buf req.cap msg := by
  cases req <;> rfl

end Memory

def Short (buffer : Option Message) (queue : MessageQueue) : Prop :=
  (∀ msg, buffer = some msg → msg.len ≤ 128) ∧ ∀ msg ∈ queue.contents, msg.len ≤ 128

theorem Short.enqueue {buffer : Option Message} {queue queue' : MessageQueue} {msg : Message}
    (h : Short buffer queue) (hmsg : msg.len ≤ 128) (hq : queue.enqueue msg = some queue') :
    Short buffer queue' := by
  refine ⟨h.1, ?_⟩
  rw [Lib.Ring.contents_enqueue hq]
  intro m hm
  rcases List.mem_append.mp hm with hold | hnew
  · exact h.2 m hold
  · rw [List.mem_singleton.mp hnew]
    exact hmsg

theorem Short.buffer {buffer : Option Message} {queue : MessageQueue} {msg : Message}
    (h : Short buffer queue) (hmsg : msg.len ≤ 128) : Short (some msg) queue := by
  refine ⟨?_, h.2⟩
  rintro _ ⟨⟩
  exact hmsg

theorem Short.noBuffer {buffer : Option Message} {queue : MessageQueue}
    (h : Short buffer queue) : Short none queue :=
  ⟨nofun, h.2⟩

theorem checkSend_len {call capIdx : Nat} {tag version : UInt16} {payload : List UInt8}
    {a : SendArgs} (h : checkSend call capIdx tag version payload = .ok a) : a.len ≤ 128 := by
  unfold checkSend at h
  split at h
  · cases h
  · rename_i hlen
    split at h
    · cases h
    · split at h
      · cases h
      · cases h
        exact Nat.le_of_not_lt hlen

namespace Scheduler

variable {s : Scheduler}

def Short (s : Scheduler) : Prop :=
  ∀ i t, s.tasks i = some t → Runix.Short t.ipcBuffer t.msgQueue

theorem Short.getTask (h : s.Short) {id : TaskId} {t : Task} (ht : s.getTask id = some t) :
    Runix.Short t.ipcBuffer t.msgQueue := by
  obtain ⟨_, hlt, ht⟩ := getTask_some ht
  exact h _ t ht

/-- A change of one task to one with short messages. -/
theorem Short.modify (h : s.Short) (id : TaskId) {f : Task → Task}
    (hf : ∀ t, s.getTask id = some t → Runix.Short (f t).ipcBuffer (f t).msgQueue) :
    (s.modify id f).Short := by
  cases ht : s.getTask id with
  | none =>
    rw [modify_none ht]
    exact h
  | some t =>
    obtain ⟨_, hlt, _⟩ := getTask_some ht
    rw [modify_some ht hlt]
    intro i u hu
    rw [set_tasks] at hu
    split at hu
    · cases hu
      exact hf t ht
    · exact h i u hu

theorem Short.sendRegion (h : s.Short) (current : TaskId) {a : SendArgs} (ha : a.len ≤ 128) :
    (s.sendRegion current a).1.Short := by
  unfold Scheduler.sendRegion
  split
  · exact h.modify current (fun t ht => (h.getTask ht).noBuffer)
  · split
    · exact h
    · exact h
    · exact h.modify _ (fun t ht => (h.getTask ht).buffer ha)
    · exact h.modify _ (fun t ht => (h.getTask ht).buffer ha)

theorem Short.sendAsyncRegion (h : s.Short) (current : TaskId) {a : SendArgs} (ha : a.len ≤ 128) :
    (s.sendAsyncRegion current a).1.Short := by
  unfold Scheduler.sendAsyncRegion
  split
  · exact h
  · split
    · exact h
    · rename_i target htarget
      split
      · exact h
      · split
        · rename_i queue hq
          refine h.modify _ (fun t ht => ?_)
          cases htarget.symm.trans ht
          exact (h.getTask ht).enqueue ha hq
        · exact h

/-- A rendezvous moves no message to a task. -/
theorem Short.rendezvous (h : s.Short) (current : TaskId) : (s.rendezvous current).1.Short := by
  unfold Scheduler.rendezvous
  split
  · exact h
  · split
    · exact h
    · rename_i t _
      have hwoken : (s.modify t.id (fun sender =>
          { sender with ipcBuffer := none, state := .ready })).Short :=
        h.modify _ (fun u hu => (h.getTask hu).noBuffer)
      refine hwoken.modify current (fun u hu => ?_)
      have hmail := hwoken.getTask hu
      exact hmail

theorem Short.rendezvous_message (h : s.Short) {current : TaskId} {src : Source} {msg : Message}
    (hmsg : (s.rendezvous current).2 = some (src, .ok msg)) : msg.len ≤ 128 := by
  unfold Scheduler.rendezvous at hmsg
  split at hmsg
  · cases hmsg
  · split at hmsg
    · cases hmsg
    · rename_i t _
      cases hsender : s.getTask t.id with
      | none =>
        rw [hsender] at hmsg
        cases hmsg
      | some u =>
        rw [hsender] at hmsg
        cases hbuf : u.ipcBuffer with
        | none => simp [hbuf, okOrTargetGone] at hmsg
        | some parked =>
          have hparked := (h.getTask hsender).1 parked hbuf
          simp only [Option.bind_some, hbuf, okOrTargetGone, Option.some.injEq, Prod.mk.injEq,
            Except.ok.injEq] at hmsg
          rw [← hmsg.2]
          exact hparked

/-- The two halves of an attempt: what stays is short, and so is what it returns. -/
theorem Short.receiveAttempt (h : s.Short) (current : TaskId) :
    (s.receiveAttempt current).1.Short ∧
      ∀ src msg, (s.receiveAttempt current).2 = some (src, .ok msg) → msg.len ≤ 128 := by
  have hrest := h.rendezvous current
  have hrestMsg : ∀ src msg, (s.rendezvous current).2 = some (src, .ok msg) → msg.len ≤ 128 :=
    fun _ _ => h.rendezvous_message
  unfold Scheduler.receiveAttempt
  cases hget : s.getTask current with
  | none => exact ⟨hrest, hrestMsg⟩
  | some receiver =>
    have hmail := h.getTask hget
    rcases receiver.msgQueue.contents_dequeue with ⟨_, hdeq⟩ | ⟨first, queue, hdeq, hcontents⟩
    · simp only [hdeq]
      cases hbuf : receiver.ipcBuffer with
      | none => exact ⟨hrest, hrestMsg⟩
      | some msg =>
        refine ⟨h.modify _ (fun t ht => (h.getTask ht).noBuffer), ?_⟩
        rintro _ _ ⟨⟩
        exact hmail.1 msg hbuf
    · simp only [hdeq]
      have hqueue := hmail.2
      rw [hcontents] at hqueue
      refine ⟨h.modify _ (fun t ht => ⟨(h.getTask ht).1, ?_⟩), ?_⟩
      · exact fun m hm => hqueue m (List.mem_cons_of_mem _ hm)
      · rintro _ _ ⟨⟩
        exact hqueue first List.mem_cons_self

/-- Restoring short checkpoints. -/
theorem Short.restoreLoop {snap : SystemSnapshot}
    (hsnap : ∀ i cp, snap.tasks i = some cp → Runix.Short cp.ipcBuffer cp.msgQueue)
    (is : List (Fin maxTasks)) :
    ∀ {s : Scheduler}, s.Short → ∀ restored, (snap.restoreLoop is s restored).1.Short := by
  induction is with
  | nil =>
    intro s h restored
    exact h
  | cons i is ih =>
    intro s h restored
    rw [SystemSnapshot.restoreLoop]
    split
    · exact ih h restored
    · rename_i cp hcp
      split
      · exact ih h restored
      · exact ih (h.modify _ (fun t _ => hsnap i cp hcp)) _

end Scheduler

namespace Post

variable {p p' p₀ : Post}

structure Short (p : Post) : Prop where
  tasks : p.sched.Short
  inbox : p.system.Printable
  hosted : ∀ i svc cp, p.system.remote.services i = some (svc, cp) →
    Runix.Short cp.ipcBuffer cp.msgQueue
  captured : ∀ i cp, p.snapshot.tasks i = some cp → Runix.Short cp.ipcBuffer cp.msgQueue

theorem Boot.short (h : p.Boot) : p.Short where
  tasks i t ht := by
    obtain ⟨hbuf, hqueue⟩ := h.tasks i t ht
    rw [hbuf]
    refine ⟨nofun, ?_⟩
    rw [hqueue]
    exact nofun
  inbox := by
    rw [System.Printable, h.fresh.remote]
    intro msg hmsg
    cases hmsg
  hosted i svc cp hcp := by
    rw [h.fresh.remote] at hcp
    cases hcp
  captured i cp hcp := by
    rw [h.snapshot] at hcp
    cases hcp

/-- A section that changes the tasks only. -/
theorem Short.withSched (h : p.Short) {s : Scheduler} (hs : s.Short) : (p.withSched s).Short :=
  ⟨hs, h.inbox, h.hosted, h.captured⟩

theorem Short.route (h : p.Short) (cap : Capability) (payload : List UInt8) :
    ({ p with system := (p.system.routeSend cap payload).1 } : Post).Short := by
  unfold System.routeSend
  split
  · split
    · exact h
    · rename_i tid _
      refine ⟨h.tasks.modify tid (fun t ht => ?_), h.inbox, h.hosted, h.captured⟩
      have hmail := h.tasks.getTask ht
      cases hq : t.msgQueue.enqueue (p.system.routedMessage payload) with
      | none => exact hmail
      | some queue => exact hmail.enqueue (Nat.min_le_right ..) hq
    · rename_i node _
      refine ⟨h.tasks, h.inbox.transportSend node payload, ?_, h.captured⟩
      intro i svc cp hcp
      rw [(System.transportSend_services ..).1] at hcp
      exact h.hosted i svc cp hcp
  · exact h

theorem Short.migrate (h : p.Short) (svc : ServiceId) (dest : NodeId) :
    ({ p with system := (p.system.migrate svc dest).1 } : Post).Short := by
  unfold System.migrate
  split
  · rename_i tid _
    split
    · exact h
    · rename_i t ht
      refine ⟨?_, ?_, ?_, h.captured⟩
      · change (if hlt : tid < maxTasks then p.sched.set ⟨tid, hlt⟩ none else p.sched).Short
        split
        · intro i u hu
          rw [Scheduler.set_tasks] at hu
          split at hu
          · cases hu
          · exact h.tasks i u hu
        · exact h.tasks
      · change ∀ msg ∈ (p.system.remote.host svc t.checkpoint).inbox.contents, msg.len ≤ 128
        rw [RemoteNode.host_eq]
        exact h.inbox
      · intro i svc' cp hcp
        rcases RemoteNode.host_services hcp with hold | hnew
        · exact h.hosted i svc' cp hold
        · cases hnew
          exact h.tasks.getTask ht
  · exact h

theorem Short.failover (h : p.Short) (svc : ServiceId) (replica : TaskId) :
    ({ p with system := (p.system.failover svc replica).1 } : Post).Short := by
  unfold System.failover
  split
  · exact h
  · rename_i cp hcp
    obtain ⟨i, hhosted⟩ := RemoteNode.checkpointOf_some hcp
    split
    · exact h
    · exact ⟨h.tasks.modify _ (fun t _ => h.hosted i svc cp hhosted), h.inbox, h.hosted, h.captured⟩

theorem Short.pump (h : p.Short) {system : System} {count : Nat}
    (hpump : p.system.pumpRemote = some (system, count)) :
    ({ p with system := system } : Post).Short := by
  have hinbox : system.Printable := h.inbox.step (.pump hpump)
  obtain ⟨⟨remote, _⟩, hloop, hsystem⟩ := Option.map_eq_some_iff.mp hpump
  cases hsystem
  refine ⟨h.tasks, hinbox, ?_, h.captured⟩
  intro i svc cp hcp
  rw [(System.pumpLoop_services hloop).1] at hcp
  exact h.hosted i svc cp hcp

theorem Short.capture (h : p.Short) {snapshot : SystemSnapshot}
    (hcap : Runix.capture p.sched = some snapshot) :
    ({ p with snapshot := snapshot } : Post).Short := by
  refine ⟨h.tasks, h.inbox, h.hosted, ?_⟩
  intro i cp hcp
  rw [Runix.capture, Option.map_eq_some_iff] at hcap
  obtain ⟨checksum, _, rfl⟩ := hcap
  obtain ⟨t, ht, rfl⟩ := Option.map_eq_some_iff.mp hcp
  exact h.tasks i t ht

theorem Short.restore (h : p.Short) {sched : Scheduler} {r : Except Unit Nat}
    (hres : Runix.restore p.snapshot p.sched = some (sched, r)) : (p.withSched sched).Short := by
  apply h.withSched
  unfold Runix.restore at hres
  split at hres
  · cases hres
    exact h.tasks
  · obtain ⟨checksum, _, hres⟩ := Option.map_eq_some_iff.mp hres
    split at hres
    · cases hres
      exact h.tasks
    · have hloop := Scheduler.Short.restoreLoop h.captured (List.finRange maxTasks) h.tasks 0
      rw [← (Prod.mk.inj hres).1]
      exact hloop

theorem Short.elsewhere (h : p.Short) {kernel : Kernel} (hmail : NoNewMail p.sched kernel.sched) :
    ({ p with system := { p.system with kernel := kernel } } : Post).Short := by
  refine ⟨fun i t' ht' => ?_, h.inbox, h.hosted, h.captured⟩
  obtain ⟨hbuf, hqueue⟩ := hmail i t' ht'
  constructor
  · rcases hbuf with hnone | ⟨t, ht, hsame⟩
    · rw [hnone]
      exact nofun
    · rw [hsame]
      exact (h.tasks i t ht).1
  · rcases hqueue with hnil | ⟨t, ht, hsame⟩
    · rw [hnil]
      exact nofun
    · rw [hsame]
      exact (h.tasks i t ht).2

/-- No section makes a long message. -/
theorem Short.step (h : p.Short) {u : Unit} (hstep : Step p u p') : p'.Short := by
  cases hstep with
  | send current accepted => exact h.withSched (h.tasks.sendRegion current (checkSend_len accepted))
  | sendAsync current accepted =>
    exact h.withSched (h.tasks.sendAsyncRegion current (checkSend_len accepted))
  | receive current => exact h.withSched (h.tasks.receiveAttempt current).1
  | register svc loc => exact ⟨h.tasks, h.inbox, h.hosted, h.captured⟩
  | route cap payload => exact h.route cap payload
  | migrate svc dest => exact h.migrate svc dest
  | pump hpump => exact h.pump hpump
  | failover svc replica => exact h.failover svc replica
  | capture hcap => exact h.capture hcap
  | restore hres => exact h.restore hres
  | elsewhere kernel hmail => exact h.elsewhere hmail

theorem run_short {us : List Unit} (h : p₀.Boot) (hr : Lib.Run Step p₀ us p) : p.Short :=
  hr.invariant h.short (fun _ _ _ hp hstep => hp.step hstep)

end Post

/-- A message that a receive takes reaches the buffer that its call passed: in every run
all messages are short, and once the call was parsed, any attempt that returns one ends
with the copy of its first bytes into the range that the parse checked. -/
theorem taken_message_copied {p₀ p : Post} {us : List Unit} (hboot : p₀.Boot)
    (hr : Lib.Run Post.Step p₀ us p) {m m' : Memory} {hhdm : Nat} {frame : SyscallFrame}
    {req : TakeRequest} (hparse : m.parseTake hhdm frame = some (some req))
    (hsame : m.SameTables m') {current : TaskId} {src : Scheduler.Source} {msg : Message}
    (htaken : (p.sched.receiveAttempt current).2 = some (src, .ok msg)) :
    p.Short ∧ msg.len ≤ 128 ∧
    m'.validateUserRange hhdm req.buf (UInt64.ofNat (min msg.len req.cap.toNat)) true =
      some (.ok ()) ∧
    m'.finishTake hhdm req (.ok msg) =
      some (some ⟨req.buf, msg.payload.toList.take (min msg.len req.cap.toNat)⟩,
        UInt64.ofNat (min msg.len req.cap.toNat)) ∧
    min msg.len req.cap.toNat ≤ min req.cap.toNat 128 ∧
    UInt64.ofNat (min msg.len req.cap.toNat) ≠ genericError := by
  have hshort := Post.run_short hboot hr
  have hlen : msg.len ≤ 128 := (hshort.tasks.receiveAttempt current).2 src msg htaken
  have hn : min msg.len req.cap.toNat ≤ min req.cap.toNat 128 := by omega
  have htoNat : ∀ k ≤ 128, (UInt64.ofNat k).toNat = k := by
    intro k hk
    exact UInt64.toNat_ofNat_of_lt' (Nat.lt_of_le_of_lt hk (by decide))
  have hrange : m'.validateUserRange hhdm req.buf (UInt64.ofNat (min msg.len req.cap.toNat)) true =
      some (.ok ()) := by
    refine hsame.validateUserRange ?_ (Memory.parseTake_some hparse)
    rw [htoNat _ (by omega), htoNat _ (Nat.min_le_right ..)]
    exact hn
  refine ⟨hshort, hlen, hrange, ?_, hn, ?_⟩
  · rw [Memory.finishTake_ok, Memory.takeMessage, hrange]
    rfl
  · intro heq
    have hmax := congrArg UInt64.toNat heq
    rw [htoNat _ (by omega)] at hmax
    have hbig : genericError.toNat = 2 ^ 64 - 1 := rfl
    omega

def postPair : Post where
  system := System.ofTasks
    [Task.new 0 0 0 (CapTable.ofList [⟨.ipcChannel 1, true, true, true, false, 1, none⟩]),
      Task.new 0 0 1 CapTable.new]
  snapshot := SystemSnapshot.new

/-- Two tasks that were just created have no messages. -/
theorem boot_postPair : postPair.Boot where
  tasks i t ht := by
    have hmem := List.mem_of_find?_eq_some ht
    simp only [List.mem_cons, List.not_mem_nil, or_false] at hmem
    rcases hmem with rfl | rfl <;> exact ⟨rfl, rfl⟩
  fresh := System.fresh_ofTasks _
  snapshot := rfl

def threeBytes : SendArgs := ⟨0, .raw, 1, padPayload [7, 8, 9], 3, 0⟩

def takeTwo : SyscallFrame := ⟨3, 0, 0x7ffffffffffe, 2, 0⟩

/-- A message of three bytes comes to a buffer of two. -/
theorem taken_message_copied_two : ∃ p, Lib.Run Post.Step postPair [()] p ∧
    Memory.openMemory.parseTake 0xffff800000000000 takeTwo =
      some (some (.receive 0x7ffffffffffe 2)) ∧
    ∃ src msg, (p.sched.receiveAttempt 1).2 = some (src, .ok msg) ∧
      Memory.openMemory.finishTake 0xffff800000000000 (.receive 0x7ffffffffffe 2) (.ok msg) =
        some (some ⟨0x7ffffffffffe, [7, 8]⟩, 2) := by
  have haccepted : checkSend 0 0 0 1 [7, 8, 9] = .ok threeBytes := rfl
  have hr := Lib.Run.cons (Post.Step.sendAsync postPair 0 haccepted) (.nil _)
  have hparse : Memory.openMemory.parseTake 0xffff800000000000 takeTwo =
      some (some (.receive 0x7ffffffffffe 2)) := rfl
  have hsame : Memory.openMemory.SameTables Memory.openMemory := ⟨rfl, fun _ _ _ _ _ => rfl⟩
  have htaken : ((postPair.sched.sendAsyncRegion 0 threeBytes).1.receiveAttempt 1).2 =
      some (.queue, .ok (threeBytes.message 0)) := rfl
  have hcopied := taken_message_copied boot_postPair hr hparse hsame htaken
  exact ⟨_, hr, hparse, _, _, htaken, hcopied.2.2.2.1⟩

end Runix
