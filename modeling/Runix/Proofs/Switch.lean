import Runix.Switch

namespace Runix

open Lib (Reg Insn Processor Words readWord writeWord)

section Code
variable {p : Processor} {ret old new : UInt64} {ws : List UInt64}

def saveHalf (p : Processor) (old new ret : UInt64) : Processor :=
  (((p.set .rdi old).set .rsi new).push ret).run
    ([.rflags, .rbp, .rbx, .r12, .r13, .r14, .r15].map .push)

/-- It leaves the registers on the stack as a return would find them. -/
theorem saveHalf_pushed (old new ret : UInt64) (hroom : 64 ≤ p.sp) :
    Processor.Pushed ((p.set .rdi old).set .rsi new) (savedRegs.map (p.set .rip ret).regs).reverse
      (saveHalf p old new ret) := by
  have hsp : ((p.set .rdi old).set .rsi new).sp = p.sp := by
    rw [Processor.set_sp (by decide), Processor.set_sp (by decide)]
  have hcall : Processor.Pushed ((p.set .rdi old).set .rsi new) [ret]
      (((p.set .rdi old).set .rsi new).push ret) :=
    (Processor.Pushed.refl _).push (by omega)
  have hcallsp := hcall.sp
  simp only [List.length_singleton, hsp] at hcallsp
  have hregs := Processor.pushed_run (p := ((p.set .rdi old).set .rsi new).push ret)
    [.rflags, .rbp, .rbx, .r12, .r13, .r14, .r15] (by decide) (by simp; omega)
  have hall := hcall.trans hregs
  simpa [savedRegs, saveHalf, Processor.set, Processor.push] using hall

/-- The other half stores the stack pointer, changes the stack and pops. -/
theorem callSwitch_eq (hroom : 64 ≤ p.sp) : callSwitch p old new ret =
    ({ (saveHalf p old new ret).set .rsp new with
      mem := writeWord (saveHalf p old new ret).mem old.toNat
        ((saveHalf p old new ret).regs .rsp) } : Processor).run (savedRegs.map .pop) := by
  have hpushed := saveHalf_pushed old new ret hroom
  have hrdi : (saveHalf p old new ret).regs .rdi = old := by
    rw [hpushed.regs .rdi (by decide), Processor.set_other (by decide), Processor.set_same]
  have hrsi : (saveHalf p old new ret).regs .rsi = new := by
    rw [hpushed.regs .rsi (by decide), Processor.set_same]
  have hcode : switchContext = [Reg.rflags, .rbp, .rbx, .r12, .r13, .r14, .r15].map Insn.push ++
      ([.store .rdi .rsp, .mov .rsp .rsi] ++ savedRegs.map .pop) := rfl
  rw [callSwitch, hcode, Processor.run_append, Processor.run_append]
  change Processor.run _ (Processor.run _ (saveHalf p old new ret)) = _
  simp only [Processor.run_cons, Insn.exec, hrdi, hrsi]
  rfl

theorem saveHalf_sp (old new ret : UInt64) (hroom : 64 ≤ p.sp) : (saveHalf p old new ret).sp + 64 = p.sp := by
  have hsp := (saveHalf_pushed old new ret hroom).sp
  rwa [Processor.set_sp (by decide), Processor.set_sp (by decide)] at hsp

/-- The memory `switch_context` leaves alone. -/
theorem callSwitch_mem (hroom : 64 ≤ p.sp) {b : Nat} (hb : b + 64 < p.sp ∨ p.sp ≤ b)
    (hold : b < old.toNat ∨ old.toNat + 8 ≤ b) : (callSwitch p old new ret).mem b = p.mem b := by
  have hpushed := saveHalf_pushed old new ret hroom
  have hsp := saveHalf_sp old new ret hroom
  have hkept := hpushed.mem b (by
    rw [Processor.set_sp (by decide), Processor.set_sp (by decide)]
    omega)
  rw [callSwitch_eq hroom, Processor.run_pop_mem]
  exact (Lib.writeWord_outside hold).trans hkept

/-- The outgoing context lies on its stack, and its place is stored. -/
theorem callSwitch_saved (old new ret : UInt64) (hroom : 64 ≤ p.sp)
    (hold : old.toNat + 72 ≤ p.sp ∨ p.sp ≤ old.toNat) :
    Words (callSwitch p old new ret).mem (p.sp - 64) (savedRegs.map (p.set .rip ret).regs) ∧
      (readWord (callSwitch p old new ret).mem old.toNat).toNat = p.sp - 64 := by
  have hpushed := saveHalf_pushed old new ret hroom
  have hsp := saveHalf_sp old new ret hroom
  have hwords := hpushed.words
  rw [List.reverse_reverse, show (saveHalf p old new ret).sp = p.sp - 64 by omega] at hwords
  rw [callSwitch_eq hroom, Processor.run_pop_mem]
  refine ⟨hwords.congr (fun b hlo hhi => (Lib.writeWord_outside ?_).symm), ?_⟩
  · rw [List.length_map] at hhi
    simp only [savedRegs, List.length_cons, List.length_nil] at hhi
    omega
  · rw [Lib.readWord_writeWord]
    exact Nat.eq_sub_of_add_eq hsp

/-- The incoming context is the one that lies on the new stack. The second argument is still
in its register. -/
theorem callSwitch_resumes (hroom : 64 ≤ p.sp) (hws : Words (callSwitch p old new ret).mem new.toNat ws)
    (hlen : ws.length = 8) (hfits : new.toNat + 64 < 2 ^ 64) :
    savedRegs.map (callSwitch p old new ret).regs = ws ∧
      (callSwitch p old new ret).sp = new.toNat + 64 ∧
      (callSwitch p old new ret).regs .rsi = new := by
  have hrsi := (saveHalf_pushed old new ret hroom).regs .rsi (by decide)
  rw [Processor.set_same] at hrsi
  rw [callSwitch_eq hroom] at hws ⊢
  rw [Processor.run_pop_mem] at hws
  obtain ⟨hsp, hregs, hrest⟩ := Processor.run_pop savedRegs (by decide) (by decide) hws hlen hfits
  refine ⟨hregs, hsp, ?_⟩
  rw [hrest .rsi (by decide) (by decide)]
  simp only
  rw [Processor.set_other (by decide), hrsi]
end Code

namespace Scheduler
variable {s s' : Scheduler}

theorem SameStacks.refl (s : Scheduler) : s.SameStacks s :=
  fun _ t h => ⟨t, h, rfl, rfl, rfl⟩

theorem SameStacks.trans {s'' : Scheduler} (h : s.SameStacks s') (h' : s'.SameStacks s'') :
    s.SameStacks s'' := by
  intro i t'' ht''
  obtain ⟨t', ht', hid', hrsp', htop'⟩ := h' i t'' ht''
  obtain ⟨t, ht, hid, hrsp, htop⟩ := h i t' ht'
  exact ⟨t, ht, hid'.trans hid, hrsp'.trans hrsp, htop'.trans htop⟩

theorem SameStacks.indexed (h : s.SameStacks s') (hs : s.Indexed) : s'.Indexed := by
  intro i t' ht'
  obtain ⟨t, ht, hid, _⟩ := h i t' ht'
  rw [hid]
  exact hs i t ht

theorem SameStacks.resumable (h : s.SameStacks s') (hr : s.Resumable) : s'.Resumable := by
  intro i t' ht'
  obtain ⟨t, ht, _, hrsp, _⟩ := h i t' ht'
  rw [hrsp]
  exact hr i t ht

/-- Changing what is not about the stack of one task. -/
theorem sameStacks_set {i : Fin maxTasks} {t t' : Task} (ht : s.tasks i = some t)
    (hid : t'.id = t.id) (hrsp : t'.rsp = t.rsp) (htop : t'.kstackTop = t.kstackTop) :
    s.SameStacks (s.set i (some t')) := by
  intro k u hu
  rw [set_tasks] at hu
  split at hu
  · rename_i hk
    subst hk
    cases hu
    exact ⟨t, ht, hid, hrsp, htop⟩
  · exact ⟨u, hu, rfl, rfl, rfl⟩

theorem sameStacks_demote (i : Fin maxTasks) : s.SameStacks (s.demote i) := by
  cases ht : s.tasks i with
  | none =>
    have hsame : s.demote i = s := by simp only [demote, ht]
    rw [hsame]
    exact .refl s
  | some t =>
    rw [demote_eq ht]
    exact sameStacks_set ht rfl rfl rfl

theorem sameStacks_markTerminated : s.SameStacks s.markTerminated := by
  unfold markTerminated
  split
  · split
    · split
      · rename_i t ht
        exact sameStacks_set ht rfl rfl rfl
      · exact .refl s
    · exact .refl s
  · exact .refl s

theorem sameStacks_wakeSenders : s.SameStacks s.wakeSenders := by
  unfold wakeSenders
  split
  · intro i t' ht'
    obtain ⟨t, ht, rfl⟩ := Option.map_eq_some_iff.mp ht'
    refine ⟨t, ht, ?_⟩
    split
    · exact ⟨rfl, rfl, rfl⟩
    · exact ⟨rfl, rfl, rfl⟩
  · exact .refl s

theorem currentTaskId_wakeSenders : s.wakeSenders.currentTaskId = s.currentTaskId := by
  unfold wakeSenders
  split <;> rfl

theorem currentTaskId_markTerminated : s.markTerminated.currentTaskId = s.currentTaskId := by
  unfold markTerminated
  split
  · split
    · split <;> rfl
    · rfl
  · rfl

def Names (s : Scheduler) (decision : Scheduler × Option Switch) : Prop :=
  s.SameStacks decision.1 ∧
    (decision.2 = none ∧ decision.1.currentTaskId = s.currentTaskId ∨
      ∃ sw u, decision.2 = some sw ∧ s.tasks sw.next = some u ∧ sw.rsp = u.rsp ∧
        sw.kstackTop = u.kstackTop ∧ decision.1.currentTaskId = some sw.next.val)

theorem names_nothing : s.Names (s, none) := ⟨.refl s, .inl ⟨rfl, rfl⟩⟩

theorem names_startRunning (h : s.SameStacks s') (hs : s.Indexed) (hr : s.Resumable)
    {j : Fin maxTasks} {u' : Task} (hu' : s'.tasks j = some u') : s.Names (s'.startRunning j) := by
  obtain ⟨u, hu, _, hrsp, htop⟩ := h j u' hu'
  rw [startRunning_started (h.indexed hs) hu' (h.resumable hr j u' hu')]
  refine ⟨h.trans (sameStacks_set hu' rfl rfl rfl), .inr ⟨_, u, rfl, hu, hrsp, htop, rfl⟩⟩

theorem names_reschedule (hs : s.Indexed) (hr : s.Resumable) (i : Fin maxTasks) :
    s.Names (s.reschedule i) := by
  unfold reschedule
  split
  · rename_i j hj
    split
    · rename_i hne
      obtain ⟨u, hu, _⟩ := isReady_iff.mp (Lib.cyclicFind_some hj).1
      exact names_startRunning (sameStacks_demote i) hs hr ((demote_other hne).trans hu)
    · exact names_nothing
  · exact names_nothing

theorem names_take (hs : s.Indexed) (hr : s.Resumable) (d : Decision) : s.Names (d.take s) := by
  cases d with
  | yieldCpu =>
    simp only [Decision.take, yieldCpu]
    split
    · exact names_reschedule hs hr _
    · split
      · rename_i j hj
        obtain ⟨u, hu, _⟩ := isReady_iff.mp (List.find?_some hj)
        exact names_startRunning (.refl s) hs hr hu
      · exact names_nothing
  | preemptReschedule =>
    simp only [Decision.take, preemptReschedule, Bool.false_eq_true, if_false]
    split
    · exact names_reschedule hs hr _
    · exact names_nothing
  | terminateCurrentTask =>
    have hsame := (sameStacks_markTerminated (s := s)).trans sameStacks_wakeSenders
    simp only [Decision.take, terminateCurrentTask, terminateLoop_eq]
    split
    · rename_i j hj
      obtain ⟨u, hu, _⟩ := isReady_iff.mp (Lib.cyclicFind_some hj).1
      exact names_startRunning hsame hs hr hu
    · refine ⟨hsame, .inl ⟨rfl, ?_⟩⟩
      exact currentTaskId_wakeSenders.trans currentTaskId_markTerminated

theorem currentIndex_some {i : Fin maxTasks} (h : s.currentIndex = some i) :
    s.currentTaskId = some i.val := by
  unfold currentIndex at h
  split at h
  · rename_i id hid
    split at h
    · split at h
      · cases h
        exact hid
      · cases h
    · cases h
  · cases h

theorem saveRsp_tasks (i k : Fin maxTasks) (sp : Nat) : (s.saveRsp i sp).tasks k =
    if k = i then (s.tasks i).map (fun t => { t with rsp := sp }) else s.tasks k := by
  unfold saveRsp
  split
  · rename_i t ht
    rw [set_tasks, ht]
    rfl
  · rename_i ht
    split
    · rename_i hk
      rw [hk, ht]
      rfl
    · rfl

theorem saveRsp_currentTaskId (i : Fin maxTasks) (sp : Nat) :
    (s.saveRsp i sp).currentTaskId = s.currentTaskId := by
  unfold saveRsp
  split <;> rfl

end Scheduler
namespace KernelLayout
variable {L : KernelLayout} {i j : Fin maxTasks}

/-- Stacks of different slots do not overlap. -/
theorem stack_apart (L : KernelLayout) (h : i ≠ j) :
    L.stackTop i ≤ L.stackBase j ∨ L.stackTop j ≤ L.stackBase i := by
  have hne : i.val ≠ j.val := fun heq => h (Fin.ext heq)
  simp only [stackTop, stackBase, stackSize]
  omega

theorem stack_within (L : KernelLayout) (i : Fin maxTasks) :
    L.taskStacks ≤ L.stackBase i ∧ L.stackTop i ≤ L.taskStacks + maxTasks * stackSize := by
  have hlt := i.isLt
  simp only [stackTop, stackBase, stackSize, maxTasks] at hlt ⊢
  omega

theorem stackTop_lt (L : KernelLayout) (i : Fin maxTasks) : L.stackTop i < 2 ^ 64 :=
  Nat.lt_of_le_of_lt (L.stack_within i).2 L.fits

/-- `old_rsp_ptr` points to no stack. -/
theorem oldRsp_apart (L : KernelLayout) (s : Scheduler) (i : Fin maxTasks) :
    L.oldRsp s + 8 ≤ L.stackBase i ∨ L.stackTop i ≤ L.oldRsp s := by
  have hin := L.stack_within i
  unfold oldRsp
  split
  · rename_i k hk
    have hrsp := L.rsp_apart k
    omega
  · have hboot := L.boot_apart
    omega

theorem oldRsp_lt (L : KernelLayout) (s : Scheduler) : L.oldRsp s < 2 ^ 64 := by
  unfold oldRsp
  split
  · exact L.rsp_fits _
  · exact L.boot_fits

/-- The call of a running context does not reach the stacks of the others. -/
theorem Room.apart {floor : Fin maxTasks → Nat} {current : Option TaskId} {sp : Nat}
    (h : L.Room floor current sp) (hi : current ≠ some i.val) :
    64 ≤ sp ∧ (sp ≤ L.stackBase i ∨ L.stackTop i + 64 ≤ sp) := by
  unfold Room at h
  split at h
  · rename_i id
    obtain ⟨k, rfl, hlo, hfloor, hhi⟩ := h
    have hne : k ≠ i := fun heq => hi (heq ▸ rfl)
    have hpos := L.positive
    rcases L.stack_apart hne with hap | hap
    · exact ⟨by omega, .inl (by omega)⟩
    · exact ⟨by omega, .inr (by omega)⟩
  · have hap := L.bootStack_apart
    have hin := L.stack_within i
    have hpos := L.positive
    exact ⟨by omega, by omega⟩

end KernelLayout

namespace Hardware
variable {L : KernelLayout} {floor : Fin maxTasks → Nat} {b b' : Hardware} {i : Fin maxTasks}

/-- What every reachable state has: tasks stand in their own slots, on their own stacks, and
a trap from ring 3 would use the stack of the current task. -/
structure Wf (L : KernelLayout) (b : Hardware) : Prop where
  indexed : b.sched.Indexed
  resumable : b.sched.Resumable
  tops : ∀ k t, b.sched.tasks k = some t → t.kstackTop = L.stackTop k
  trap : ∀ id, b.sched.currentTaskId = some id → b.rsp0 = .ofNat (L.stackTop id)

/-- How a switch that takes place comes about. -/
theorem switch_cases (L : KernelLayout) (b : Hardware) (d : Decision) (ret : UInt64) (dummy : Nat) :
    ((d.take b.sched).2 = none ∧ b.switch L d ret dummy = { b with sched := (d.take b.sched).1 }) ∨
    ∃ sw old, (d.take b.sched).2 = some sw ∧
      (b.switch L d ret dummy).cpu = callSwitch b.cpu (.ofNat old) (.ofNat sw.rsp) ret ∧
      (b.switch L d ret dummy).rsp0 = (if sw.kstackTop ≠ 0 then .ofNat sw.kstackTop else b.rsp0) ∧
      (d = .terminateCurrentTask ∧ old = dummy ∧
          (b.switch L d ret dummy).sched = (d.take b.sched).1 ∨
        d ≠ .terminateCurrentTask ∧ old = L.oldRsp b.sched ∧
          (b.switch L d ret dummy).sched = b.sched.saveCurrent (d.take b.sched).1
            (readWord (b.switch L d ret dummy).cpu.mem old).toNat) := by
  cases hsw : (d.take b.sched).2 with
  | none =>
    refine .inl ⟨rfl, ?_⟩
    cases d <;> simp only [switch, reschedule, abandon, hsw]
  | some sw =>
    cases d with
    | terminateCurrentTask =>
      refine .inr ⟨sw, dummy, rfl, ?_⟩
      simp only [switch, abandon, hsw]
      exact ⟨trivial, trivial, .inl ⟨trivial, trivial, trivial⟩⟩
    | yieldCpu | preemptReschedule =>
      refine .inr ⟨sw, L.oldRsp b.sched, rfl, ?_⟩
      simp only [switch, reschedule, hsw]
      exact ⟨trivial, trivial, .inr ⟨by decide, trivial, trivial⟩⟩

/-- Guarded bytes survive a switch. -/
theorem switch_guarded {d : Decision} {ret : UInt64} {dummy a : Nat}
    (hroom : L.Room floor b.sched.currentTaskId b.cpu.sp)
    (hfree : ∀ a, dummy ≤ a → a < dummy + 8 → ¬ L.Guarded floor b.sched.currentTaskId a)
    (hfits : dummy < 2 ^ 64) (ha : L.Guarded floor b.sched.currentTaskId a) :
    (b.switch L d ret dummy).cpu.mem a = b.cpu.mem a := by
  have hdummy : a < dummy ∨ dummy + 8 ≤ a := by
    by_contra hin
    exact hfree a (by omega) (by omega) ha
  obtain ⟨i, hlo, hhi, hfloor⟩ := ha
  have hsp : 64 ≤ b.cpu.sp ∧ (a + 64 < b.cpu.sp ∨ b.cpu.sp ≤ a) := by
    by_cases hi : b.sched.currentTaskId = some i.val
    · have hge := hfloor hi
      rw [hi] at hroom
      obtain ⟨k, hk, hbase, hle, _⟩ := hroom
      cases Fin.ext hk
      exact ⟨by omega, by omega⟩
    · obtain ⟨hpos, hap⟩ := hroom.apart hi
      exact ⟨hpos, by omega⟩
  have hold := L.oldRsp_apart b.sched i
  rcases switch_cases L b d ret dummy with ⟨_, heq⟩ | ⟨sw, old, _, hcpu, _, hsched⟩
  · rw [heq]
  · rw [hcpu]
    have hlt : old < 2 ^ 64 := by
      rcases hsched with ⟨_, rfl, _⟩ | ⟨_, rfl, _⟩
      · exact hfits
      · exact L.oldRsp_lt b.sched
    have hout : a < old ∨ old + 8 ≤ a := by
      rcases hsched with ⟨_, rfl, _⟩ | ⟨_, rfl, _⟩
      · exact hdummy
      · omega
    refine callSwitch_mem hsp.1 hsp.2 ?_
    rwa [UInt64.toNat_ofNat_of_lt' hlt]

/-- What is primed lies below the top of the stack. -/
theorem primeStack_outside {m : Nat → UInt8} {top a : Nat} {vs : List UInt64}
    (hroom : 8 * vs.length ≤ top) (ha : a + 8 * vs.length < top ∨ top ≤ a) :
    primeStack m top vs a = m a := by
  induction vs generalizing m top with
  | nil => rfl
  | cons v vs ih =>
    rw [List.length_cons] at hroom ha
    rw [primeStack, ih (by omega) (by omega), Lib.writeWord_outside (by omega)]

theorem primeStack_words (m : Nat → UInt8) {top : Nat} (vs : List UInt64)
    (hroom : 8 * vs.length ≤ top) : Words (primeStack m top vs) (top - 8 * vs.length) vs.reverse := by
  induction vs generalizing m top with
  | nil => trivial
  | cons v vs ih =>
    rw [List.length_cons] at hroom
    rw [primeStack, List.reverse_cons, Lib.words_append, List.length_reverse, List.length_cons,
      show top - 8 * (vs.length + 1) = top - 8 - 8 * vs.length by omega]
    refine ⟨ih _ (by omega), ?_, trivial⟩
    rw [show top - 8 - 8 * vs.length + 8 * vs.length = top - 8 by omega]
    rw [Lib.readWord_congr (fun a hlo hhi => primeStack_outside (by omega) (.inr hlo))]
    exact Lib.readWord_writeWord

/-- Stack bytes that the running code has to leave alone are the same after every step that
does not give their slot a new task. -/
theorem Step.guarded {e : HardwareEvent} (h : Step L floor b e b') (hno : ¬ e.Creates i) {a : Nat}
    (hlo : L.stackBase i ≤ a) (hhi : a < L.stackTop i)
    (hfloor : b.sched.currentTaskId = some i.val → floor i ≤ a) : b'.cpu.mem a = b.cpu.mem a := by
  have hcreate : ∀ (j : Fin maxTasks) (vs : List UInt64), 8 * vs.length ≤ stackSize → j ≠ i →
      primeStack b.cpu.mem (L.stackTop j) vs a = b.cpu.mem a := by
    intro j vs hlen hne
    have hsize : L.stackTop j = L.stackBase j + stackSize := rfl
    have hap := L.stack_apart hne
    exact primeStack_outside (by omega) (by omega)
  cases h with
  | work mem => exact mem a ⟨i, hlo, hhi, hfloor⟩
  | switch d ret dummy room free fits => exact switch_guarded room free fits ⟨i, hlo, hhi, hfloor⟩
  | createKernel j entry =>
    have hlen : 8 * (kernelWords L.trampoline entry).length ≤ stackSize := by
      simp [kernelWords, stackSize]
    simp only [Hardware.createKernel]
    exact hcreate j _ hlen hno
  | createUser j entry userStackTop =>
    have hlen : 8 * (userWords L.iretTrampoline entry userStackTop).length ≤ stackSize := by
      simp [userWords, stackSize]
    simp only [Hardware.createUser]
    exact hcreate j _ hlen hno

theorem saveCurrent_tasks {s decided : Scheduler} {sp : Nat} {k : Fin maxTasks} {t : Task}
    (h : (s.saveCurrent decided sp).tasks k = some t) :
    ∃ t', decided.tasks k = some t' ∧ t.id = t'.id ∧ t.kstackTop = t'.kstackTop ∧
      (s.currentIndex = some k ∧ t.rsp = sp ∨ s.currentIndex ≠ some k ∧ t.rsp = t'.rsp) := by
  unfold Scheduler.saveCurrent at h
  split at h
  · rename_i c hc
    rw [Scheduler.saveRsp_tasks] at h
    split at h
    · rename_i hk
      subst hk
      obtain ⟨t', ht', rfl⟩ := Option.map_eq_some_iff.mp h
      exact ⟨t', ht', rfl, rfl, .inl ⟨hc, rfl⟩⟩
    · rename_i hk
      exact ⟨t, h, rfl, rfl, .inr ⟨fun heq => hk (Option.some.inj (heq.symm.trans hc)), rfl⟩⟩
  · rename_i hc
    refine ⟨t, h, rfl, rfl, .inr ⟨fun heq => ?_, rfl⟩⟩
    cases hc.symm.trans heq

theorem saveCurrent_currentTaskId (s decided : Scheduler) (sp : Nat) :
    (s.saveCurrent decided sp).currentTaskId = decided.currentTaskId := by
  unfold Scheduler.saveCurrent
  split
  · exact Scheduler.saveRsp_currentTaskId _ _
  · rfl

def Parks (b : Hardware) (d : Decision) (k : Fin maxTasks) : Prop :=
  d ≠ .terminateCurrentTask ∧ (d.take b.sched).2 ≠ none ∧ b.sched.currentTaskId = some k.val

/-- The task table after a switch: the tasks stay on their stacks, and the stack pointer of the
task that is parked is where its context lies now. -/
theorem switch_tasks (hw : b.Wf L) (d : Decision) (ret : UInt64) (dummy : Nat)
    (hroom : L.Room floor b.sched.currentTaskId b.cpu.sp) {k : Fin maxTasks} {t' : Task}
    (ht' : (b.switch L d ret dummy).sched.tasks k = some t') :
    ∃ t, b.sched.tasks k = some t ∧ t'.id = t.id ∧ t'.kstackTop = t.kstackTop ∧
      (b.Parks d k ∧ t'.rsp + 64 = b.cpu.sp ∨ ¬ b.Parks d k ∧ t'.rsp = t.rsp) := by
  obtain ⟨hsame, _⟩ := Scheduler.names_take hw.indexed hw.resumable d
  rcases switch_cases L b d ret dummy with ⟨hnone, heq⟩ | ⟨sw, old, hsw, hcpu, _, hsched⟩
  · rw [heq] at ht'
    obtain ⟨t, ht, hid, hrsp, htop⟩ := hsame k t' ht'
    exact ⟨t, ht, hid, htop, .inr ⟨fun hparks => hparks.2.1 hnone, hrsp⟩⟩
  rcases hsched with ⟨hdead, _, heq⟩ | ⟨hlive, rfl, heq⟩
  · rw [heq] at ht'
    obtain ⟨t, ht, hid, hrsp, htop⟩ := hsame k t' ht'
    exact ⟨t, ht, hid, htop, .inr ⟨fun hparks => hparks.1 hdead, hrsp⟩⟩
  · rw [heq] at ht'
    obtain ⟨t₁, ht₁, hid₁, htop₁, hrsp₁⟩ := saveCurrent_tasks ht'
    obtain ⟨t, ht, hid, hrsp, htop⟩ := hsame k t₁ ht₁
    refine ⟨t, ht, hid₁.trans hid, htop₁.trans htop, ?_⟩
    rcases hrsp₁ with ⟨hk, hsp⟩ | ⟨hk, hsp⟩
    · have hcur := Scheduler.currentIndex_some hk
      refine .inl ⟨⟨hlive, by rw [hsw]; exact Option.some_ne_none sw, hcur⟩, ?_⟩
      rw [hcur] at hroom
      obtain ⟨c, hc, hbase, hfloor, hle⟩ := hroom
      cases Fin.ext hc
      have hap := L.oldRsp_apart b.sched k
      have hlt := UInt64.toNat_ofNat_of_lt' (L.oldRsp_lt b.sched)
      have hsaved := (callSwitch_saved (p := b.cpu) (.ofNat (L.oldRsp b.sched)) (.ofNat sw.rsp) ret
        (by omega) (by omega)).2
      rw [hlt, ← hcpu] at hsaved
      omega
    · refine .inr ⟨fun hparks => hk (Scheduler.currentIndex_eq hparks.2.2 ht), hsp.trans hrsp⟩

/-- Who is current after a switch, and where a trap would go. -/
theorem switch_current (hw : b.Wf L) (d : Decision) (ret : UInt64) (dummy : Nat) :
    (d.take b.sched).2 = none ∧
        (b.switch L d ret dummy).sched.currentTaskId = b.sched.currentTaskId ∧
        (b.switch L d ret dummy).rsp0 = b.rsp0 ∨
      ∃ j, (d.take b.sched).2.map Switch.next = some j ∧
        (b.switch L d ret dummy).sched.currentTaskId = some j.val ∧
        (b.switch L d ret dummy).rsp0 = .ofNat (L.stackTop j) := by
  obtain ⟨_, hnames⟩ := Scheduler.names_take hw.indexed hw.resumable d
  rcases hnames with ⟨hnone, hcur⟩ | ⟨sw, u, hsw, hu, _, htop, hcur⟩
  · rcases switch_cases L b d ret dummy with ⟨_, heq⟩ | ⟨sw, _, hsw, _⟩
    · rw [heq]
      exact .inl ⟨hnone, hcur, rfl⟩
    · cases hnone.symm.trans hsw
  · rcases switch_cases L b d ret dummy with ⟨hnone, _⟩ | ⟨sw', _, hsw', _, hrsp0, hsched⟩
    · cases hnone.symm.trans hsw
    cases hsw.symm.trans hsw'
    have hpos : L.stackTop sw.next ≠ 0 := by
      have hbase := (L.stack_within sw.next).1
      have hsize : L.stackTop sw.next = L.stackBase sw.next + stackSize := rfl
      have hpos := L.positive
      omega
    refine .inr ⟨sw.next, by rw [hsw]; rfl, ?_, by rw [hrsp0, htop, hw.tops _ u hu, if_pos hpos]⟩
    rcases hsched with ⟨_, _, heq⟩ | ⟨_, _, heq⟩
    · rw [heq, hcur]
    · rw [heq, saveCurrent_currentTaskId, hcur]

/-- What a step that is a switch consists of. -/
theorem Step.switched {d : Decision} {ret : UInt64} {next : Option (Fin maxTasks)}
    (h : Step L floor b (.switch d ret next) b') :
    ∃ dummy, next = (d.take b.sched).2.map Switch.next ∧ b' = b.switch L d ret dummy ∧
      L.Room floor b.sched.currentTaskId b.cpu.sp ∧
      (∀ a, dummy ≤ a → a < dummy + 8 → ¬ L.Guarded floor b.sched.currentTaskId a) ∧
      dummy < 2 ^ 64 := by
  cases h with
  | switch _ _ dummy room free fits => exact ⟨dummy, rfl, rfl, room, free, fits⟩

/-- A new task stands in its slot and on its stack. -/
theorem Wf.create (hw : b.Wf L) {t : Task} {m : Nat → UInt8} (hid : t.id = i.val)
    (hrsp : t.rsp ≠ 0) (htop : t.kstackTop = L.stackTop i) :
    Wf L { b with sched := b.sched.set i (some t), cpu := { b.cpu with mem := m } } := by
  have hset : ∀ k u, (b.sched.set i (some t)).tasks k = some u →
      (k = i ∧ u = t) ∨ b.sched.tasks k = some u := by
    intro k u hu
    rw [Scheduler.set_tasks] at hu
    split at hu
    · rename_i hk
      exact .inl ⟨hk, (Option.some.inj hu).symm⟩
    · exact .inr hu
  refine ⟨fun k u hu => ?_, fun k u hu => ?_, fun k u hu => ?_, hw.trap⟩
  · rcases hset k u hu with ⟨rfl, rfl⟩ | hu
    · exact hid
    · exact hw.indexed k u hu
  · rcases hset k u hu with ⟨rfl, rfl⟩ | hu
    · exact hrsp
    · exact hw.resumable k u hu
  · rcases hset k u hu with ⟨rfl, rfl⟩ | hu
    · exact htop
    · exact hw.tops k u hu

theorem Wf.step {e : HardwareEvent} (hw : b.Wf L) (h : Step L floor b e b') : b'.Wf L := by
  cases h with
  | work mem kept current =>
    refine ⟨kept.indexed hw.indexed, kept.resumable hw.resumable, fun k t' ht' => ?_, fun id hid => ?_⟩
    · obtain ⟨t, ht, _, _, htop⟩ := kept k t' ht'
      rw [htop]
      exact hw.tops k t ht
    · exact hw.trap id (current.symm.trans hid)
  | switch d ret dummy room free fits =>
    refine ⟨fun k t' ht' => ?_, fun k t' ht' => ?_, fun k t' ht' => ?_, fun id hid => ?_⟩
    · obtain ⟨t, ht, hid, _⟩ := switch_tasks hw d ret dummy room ht'
      rw [hid]
      exact hw.indexed k t ht
    · obtain ⟨t, ht, _, _, ⟨hparks, hsp⟩ | ⟨_, hrsp⟩⟩ := switch_tasks hw d ret dummy room ht'
      · rw [hparks.2.2] at room
        obtain ⟨c, hc, hbase, _⟩ := room
        have hin := (L.stack_within c).1
        have hpos := L.positive
        omega
      · rw [hrsp]
        exact hw.resumable k t ht
    · obtain ⟨t, ht, _, htop, _⟩ := switch_tasks hw d ret dummy room ht'
      rw [htop]
      exact hw.tops k t ht
    · rcases switch_current hw d ret dummy with ⟨_, hsame, hrsp0⟩ | ⟨j, _, hj, hrsp0⟩
      · rw [hrsp0]
        exact hw.trap id (hsame.symm.trans hid)
      · rw [hrsp0]
        cases hj.symm.trans hid
        rfl
  | createKernel j | createUser j =>
    have hpos := L.positive
    refine hw.create rfl ?_ rfl
    simp only [Task.new, Task.newUser, stackSize]
    omega

/-- Task `i` is switched out, and the processor will be as in `c` when it goes on: the
registers `switch_context` restores lie on its stack, below what it had there. -/
structure Parked (L : KernelLayout) (b : Hardware) (i : Fin maxTasks) (c : Processor) : Prop where
  out : b.sched.currentTaskId ≠ some i.val
  place : ∀ t, b.sched.tasks i = some t → t.rsp + 64 = c.sp
  low : L.stackBase i + 64 ≤ c.sp
  high : c.sp ≤ L.stackTop i
  words : Words b.cpu.mem (c.sp - 64) (savedRegs.map c.regs)
  stack : ∀ a, c.sp ≤ a → a < L.stackTop i → b.cpu.mem a = c.mem a

/-- What lies on the stack of a parked task depends on its bytes only. -/
theorem Parked.of_mem {c : Processor} (h : b.Parked L i c)
    (hmem : ∀ a, L.stackBase i ≤ a → a < L.stackTop i → b'.cpu.mem a = b.cpu.mem a)
    (hout : b'.sched.currentTaskId ≠ some i.val)
    (hplace : ∀ t, b'.sched.tasks i = some t → t.rsp + 64 = c.sp) : b'.Parked L i c := by
  have hlow := h.low
  have hhigh := h.high
  refine ⟨hout, hplace, hlow, hhigh, ?_, fun a hlo hhi => ?_⟩
  · refine h.words.congr (fun a hlo hhi => (hmem a (by omega) ?_).symm)
    simp only [savedRegs, List.length_map, List.length_cons, List.length_nil] at hhi
    omega
  · rw [hmem a (by omega) hhi]
    exact h.stack a hlo hhi

/-- A context stays parked until it is resumed or its slot is given away. -/
theorem Parked.step {c : Processor} {e : HardwareEvent} (h : b.Parked L i c) (hw : b.Wf L)
    (hs : Step L floor b e b') (hres : ¬ e.Resumes i) (hcre : ¬ e.Creates i) : b'.Parked L i c := by
  have hmem : ∀ a, L.stackBase i ≤ a → a < L.stackTop i → b'.cpu.mem a = b.cpu.mem a :=
    fun a hlo hhi => hs.guarded hcre hlo hhi (fun hcur => absurd hcur h.out)
  have hother : ∀ (j : Fin maxTasks) (t : Task), j ≠ i →
      ∀ u, (b.sched.set j (some t)).tasks i = some u → u.rsp + 64 = c.sp := by
    intro j t hne u hu
    rw [Scheduler.set_tasks, if_neg (Ne.symm hne)] at hu
    exact h.place u hu
  cases hs with
  | work mem kept current =>
    refine h.of_mem hmem (fun hcur => h.out (current.symm.trans hcur)) (fun t' ht' => ?_)
    obtain ⟨t, ht, _, hrsp, _⟩ := kept i t' ht'
    rw [hrsp]
    exact h.place t ht
  | switch d ret dummy room free fits =>
    refine h.of_mem hmem (fun hi => ?_) (fun t' ht' => ?_)
    · rcases switch_current hw d ret dummy with ⟨_, hsame, _⟩ | ⟨j, hj, hcur, _⟩
      · exact h.out (hsame.symm.trans hi)
      · cases Fin.ext (Option.some.inj (hcur.symm.trans hi))
        exact hres hj
    · obtain ⟨t, ht, _, _, ⟨hparks, _⟩ | ⟨_, hrsp⟩⟩ := switch_tasks hw d ret dummy room ht'
      · exact absurd hparks.2.2 h.out
      · rw [hrsp]
        exact h.place t ht
  | createKernel j | createUser j => exact h.of_mem hmem h.out (hother j _ hcre)

/-- The run lemma for `Parked.step`. -/
theorem Parked.run {c : Processor} {es : List HardwareEvent} (h : b.Parked L i c) (hw : b.Wf L)
    (hr : Lib.Run (Step L floor) b es b') (hes : ∀ e ∈ es, ¬ e.Resumes i ∧ ¬ e.Creates i) :
    b'.Parked L i c ∧ b'.Wf L := by
  induction hr with
  | nil => exact ⟨h, hw⟩
  | cons head tail ih =>
    obtain ⟨hres, hcre⟩ := hes _ List.mem_cons_self
    exact ih (h.step hw head hres hcre) (hw.step head) (fun e he => hes e (List.mem_cons_of_mem _ he))

/-- The processor has come back to a context: the registers that a call preserves, the
stack pointer, and everything on the stack. Of the others, the one that held the argument
says where the context lay. -/
structure Back (L : KernelLayout) (i : Fin maxTasks) (c q : Processor) : Prop where
  regs : ∀ r ∈ savedRegs, q.regs r = c.regs r
  rsp : q.regs .rsp = c.regs .rsp
  rsi : (q.regs .rsi).toNat = c.sp - 64
  stack : ∀ a, c.sp ≤ a → a < L.stackTop i → q.mem a = c.mem a

/-- Resuming a parked context brings it back. -/
theorem Parked.resume {c : Processor} {d : Decision} {ret : UInt64} (h : b.Parked L i c)
    (hw : b.Wf L) (hs : Step L floor b (.switch d ret (some i)) b') :
    Back L i c b'.cpu ∧ b'.sched.currentTaskId = some i.val := by
  have hmem : ∀ a, L.stackBase i ≤ a → a < L.stackTop i → b'.cpu.mem a = b.cpu.mem a :=
    fun a hlo hhi => hs.guarded id hlo hhi (fun hcur => absurd hcur h.out)
  have hlow := h.low
  have hhigh := h.high
  have hlt := L.stackTop_lt i
  obtain ⟨dummy, hnext, rfl, room, _, _⟩ := hs.switched
  obtain ⟨_, hnames⟩ := Scheduler.names_take hw.indexed hw.resumable d
  rcases hnames with ⟨hnone, _⟩ | ⟨sw, u, hsw, hu, hrsp, _, _⟩
  · rw [hnone] at hnext
    cases hnext
  rw [hsw] at hnext
  cases hnext
  rcases switch_cases L b d ret dummy with ⟨hnone, _⟩ | ⟨sw', old, hsw', hcpu, _, _⟩
  · cases hnone.symm.trans hsw
  cases hsw.symm.trans hsw'
  have hplace := h.place u hu
  have hfits : sw.rsp < 2 ^ 64 := by omega
  have hnew : (UInt64.ofNat sw.rsp).toNat = c.sp - 64 := by
    rw [UInt64.toNat_ofNat_of_lt' hfits]
    omega
  have hwords : Words (b.switch L d ret dummy).cpu.mem (c.sp - 64) (savedRegs.map c.regs) := by
    refine h.words.congr (fun a hlo hhi => (hmem a (by omega) ?_).symm)
    simp only [savedRegs, List.length_map, List.length_cons, List.length_nil] at hhi
    omega
  rw [← hnew, hcpu] at hwords
  obtain ⟨hregs, hsp, hrsi⟩ := callSwitch_resumes (room.apart h.out).1 hwords (by simp [savedRegs])
    (by omega)
  rw [← hcpu] at hregs hsp hrsi
  constructor
  · refine ⟨List.map_inj_left.mp hregs, UInt64.toNat_inj.mp ?_, hrsi ▸ hnew, fun a hlo hhi => ?_⟩
    · change (b.switch L d ret dummy).cpu.sp = c.sp
      omega
    · rw [hmem a (by omega) hhi]
      exact h.stack a hlo hhi
  · rcases switch_current hw d ret dummy with ⟨hnone, _⟩ | ⟨j, hj, hcur, _⟩
    · cases hnone.symm.trans hsw
    · rw [hsw] at hj
      cases hj
      exact hcur

/-- A task that gives up the processor, by yielding or because a tick takes it away, is
parked as it would be if the call had returned. -/
theorem parked_of_switch {d : Decision} {ret : UInt64} {j : Fin maxTasks} (hw : b.Wf L)
    (hcur : b.sched.currentTaskId = some i.val) (hlive : d ≠ .terminateCurrentTask) (hij : j ≠ i)
    (hs : Step L floor b (.switch d ret (some j)) b') : b'.Parked L i (b.cpu.set .rip ret) := by
  obtain ⟨dummy, hnext, rfl, room, _, _⟩ := hs.switched
  have hsp : (b.cpu.set .rip ret).sp = b.cpu.sp := Processor.set_sp (by decide)
  rcases switch_cases L b d ret dummy with ⟨hnone, _⟩ | ⟨sw, old, hsw, hcpu, _, hsched⟩
  · rw [hnone] at hnext
    cases hnext
  rcases hsched with ⟨hdead, _⟩ | ⟨_, rfl, _⟩
  · exact absurd hdead hlive
  have hparks : b.Parks d i := ⟨hlive, by rw [hsw]; exact Option.some_ne_none sw, hcur⟩
  have hroom := room
  rw [hcur] at hroom
  obtain ⟨k, hk, hbase, hfloor, htop⟩ := hroom
  cases Fin.ext hk
  have hap := L.oldRsp_apart b.sched i
  have hold := UInt64.toNat_ofNat_of_lt' (L.oldRsp_lt b.sched)
  refine ⟨fun hi => ?_, fun t' ht' => ?_, by omega, by omega, ?_, fun a hlo hhi => ?_⟩
  · rcases switch_current hw d ret dummy with ⟨hnone, _⟩ | ⟨j', hj', hcur', _⟩
    · cases hnone.symm.trans hsw
    · cases hj'.symm.trans hnext.symm
      exact hij (Fin.ext (Option.some.inj (hcur'.symm.trans hi)))
  · obtain ⟨t, ht, _, _, ⟨_, hrsp⟩ | ⟨hno, _⟩⟩ := switch_tasks hw d ret dummy room ht'
    · exact hrsp.trans hsp.symm
    · exact absurd hparks hno
  · rw [hsp, hcpu]
    exact (callSwitch_saved _ _ ret (by omega) (by omega)).1
  · rw [hcpu]
    exact callSwitch_mem (by omega) (.inr (hsp ▸ hlo)) (by omega)

/-- A switch that can be undone goes to another task. -/
theorem take_ne_current {s : Scheduler} {d : Decision} {j : Fin maxTasks}
    (hlive : d ≠ .terminateCurrentTask) (h : (d.take s).2.map Switch.next = some j) :
    s.currentTaskId ≠ some j.val := by
  have hresched : ∀ c, s.currentIndex = some c → (s.reschedule c).2.map Switch.next = some j →
      s.currentTaskId ≠ some j.val := by
    intro c hc hj hcur
    unfold Scheduler.reschedule at hj
    split at hj
    · split at hj
      · rename_i k hk hne
        unfold Scheduler.startRunning at hj
        split at hj
        · simp only at hj
          split at hj
          · cases hj
            rw [Scheduler.currentIndex_some hc] at hcur
            exact hne (Fin.ext (Option.some.inj hcur).symm)
          · cases hj
        · cases hj
      · cases hj
    · cases hj
  have hfirst : ∀ k, s.currentIndex = none → s.isReady k = true →
      (s.startRunning k).2.map Switch.next = some j → s.currentTaskId ≠ some j.val := by
    intro k hc hk hj hcur
    obtain ⟨u, hu, _⟩ := Scheduler.isReady_iff.mp hk
    rw [Scheduler.startRunning_eq hu] at hj
    simp only at hj
    split at hj
    · cases hj
      cases hc.symm.trans (Scheduler.currentIndex_eq hcur hu)
    · cases hj
  cases d with
  | yieldCpu =>
    simp only [Decision.take, Scheduler.yieldCpu] at h
    split at h
    · rename_i c hc
      exact hresched c hc h
    · rename_i hc
      split at h
      · rename_i k hk
        exact hfirst k hc (List.find?_some hk) h
      · cases h
  | preemptReschedule =>
    simp only [Decision.take, Scheduler.preemptReschedule, Bool.false_eq_true, if_false] at h
    split at h
    · rename_i c hc
      exact hresched c hc h
    · cases h
  | terminateCurrentTask => exact absurd rfl hlive

/-- Between parking and resuming a context any code may run in the other tasks. -/
theorem Parked.back {c : Processor} {d : Decision} {ret : UInt64} {es : List HardwareEvent}
    (h : b.Parked L i c) (hw : b.Wf L)
    (hr : Lib.Run (Step L floor) b (es ++ [.switch d ret (some i)]) b')
    (hes : ∀ e ∈ es, ¬ e.Resumes i ∧ ¬ e.Creates i) :
    Back L i c b'.cpu ∧ b'.sched.currentTaskId = some i.val ∧ b'.Wf L := by
  obtain ⟨b₂, hbetween, hlast⟩ := hr.split
  obtain ⟨hparked, hw'⟩ := h.run hw hbetween hes
  cases hlast with
  | cons last rest =>
    cases rest
    obtain ⟨hback, hcur⟩ := hparked.resume hw' last
    exact ⟨hback, hcur, hw'.step last⟩

def sampleLayout : KernelLayout where
  taskStacks := 0x100000
  rspAddr i := 0x1000 + 8 * i
  bootRsp := 0x800
  bootBase := 0x2000
  bootTop := 0x8000
  trampoline := 0x9000
  iretTrampoline := 0x9100
  positive := by decide
  aligned := by decide
  fits := by decide
  rsp_apart i := .inl (by have hlt := i.isLt; simp only [maxTasks] at hlt; omega)
  rsp_fits i := by have hlt := i.isLt; simp only [maxTasks] at hlt; omega
  boot_apart := .inl (by decide)
  boot_fits := by decide
  bootStack_apart := .inl (by decide)

def sampleHardware : Hardware where
  sched :=
    { Scheduler.ofList
        [{ Task.new sampleLayout.taskStacks 0 0 CapTable.new with state := .running }] with
      currentTaskId := some 0 }
  cpu :=
    { regs := fun r => match r with
        | .rsp => .ofNat (sampleLayout.stackTop 0 - 256)
        | .cs => 8
        | _ => 42
      mem := fun _ => 0 }
  rsp0 := .ofNat (sampleLayout.stackTop 0)

def sampleFloor (i : Fin maxTasks) : Nat := sampleLayout.stackTop i

def sampleSlot : Fin maxTasks := ⟨1, by decide⟩

theorem sampleHardware_wf : sampleHardware.Wf sampleLayout := by
  have hone : ∀ k t, sampleHardware.sched.tasks k = some t → k = ⟨0, by decide⟩ ∧
      t = { Task.new sampleLayout.taskStacks 0 0 CapTable.new with state := .running } := by
    intro k t ht
    obtain ⟨hid, hmem⟩ := And.intro (List.find?_some ht) (List.mem_of_find?_eq_some ht)
    rw [List.mem_singleton] at hmem
    subst hmem
    exact ⟨Fin.ext (of_decide_eq_true hid).symm, rfl⟩
  refine ⟨fun k t ht => ?_, fun k t ht => ?_, fun k t ht => ?_, fun id hid => ?_⟩
  · obtain ⟨rfl, rfl⟩ := hone k t ht
    rfl
  · obtain ⟨rfl, rfl⟩ := hone k t ht
    decide
  · obtain ⟨rfl, rfl⟩ := hone k t ht
    rfl
  · cases hid
    rfl

/-- The first words of memory belong to no stack. -/
theorem sample_free (floor : Fin maxTasks → Nat) (current : Option TaskId) (a : Nat) (ha : a < 0 + 8) :
    ¬ sampleLayout.Guarded floor current a := by
  rintro ⟨i, hlo, _⟩
  have hin := (sampleLayout.stack_within i).1
  have hstacks : sampleLayout.taskStacks = 0x100000 := rfl
  omega

/-- A yield while the stack pointer is near the top of the running task's stack. -/
theorem sample_yield (b : Hardware) (ret : UInt64) {floor : Fin maxTasks → Nat} {i next : Fin maxTasks}
    (hcur : b.sched.currentTaskId = some i.val)
    (hlo : sampleLayout.stackBase i + 64 ≤ b.cpu.sp) (hhi : b.cpu.sp ≤ floor i)
    (htop : floor i ≤ sampleLayout.stackTop i)
    (hnext : (Decision.yieldCpu.take b.sched).2.map Switch.next = some next) :
    Step sampleLayout floor b (.switch .yieldCpu ret (some next))
      (b.switch sampleLayout .yieldCpu ret 0) := by
  rw [← hnext]
  refine .switch .yieldCpu ret 0 ?_ (fun a _ => sample_free _ _ a) (by decide)
  rw [hcur]
  exact ⟨i, rfl, hlo, hhi, htop⟩

def sampleCreated : Hardware := sampleHardware.createKernel sampleLayout sampleSlot 5 0 CapTable.new

theorem sample_created :
    Step sampleLayout sampleFloor sampleHardware (.createKernel sampleSlot 5) sampleCreated :=
  .createKernel sampleSlot 5 0 CapTable.new (by decide)

theorem sampleCreated_yield (ret : UInt64) :
    Step sampleLayout sampleFloor sampleCreated (.switch .yieldCpu ret (some sampleSlot))
      (sampleCreated.switch sampleLayout .yieldCpu ret 0) :=
  sample_yield _ ret (i := ⟨0, by decide⟩) rfl (by decide +kernel) (by decide +kernel) (Nat.le_refl _)
    (by decide +kernel)

/-- A task that yields or loses the processor to a tick finds its registers, its stack
pointer and its stack as they were when the call of `switch_context` returns, whatever ran
in between. -/
theorem context_switch_transparent {d d' : Decision} {ret ret' : UInt64} {j : Fin maxTasks}
    {es : List HardwareEvent} (hw : b.Wf L) (hcur : b.sched.currentTaskId = some i.val)
    (hlive : d ≠ .terminateCurrentTask)
    (hr : Lib.Run (Step L floor) b (.switch d ret (some j) :: (es ++ [.switch d' ret' (some i)])) b')
    (hes : ∀ e ∈ es, ¬ e.Resumes i ∧ ¬ e.Creates i) : Back L i (b.cpu.set .rip ret) b'.cpu := by
  cases hr with
  | cons head tail =>
    have hij : j ≠ i := by
      rintro rfl
      obtain ⟨_, hnext, _⟩ := head.switched
      exact take_ne_current hlive hnext.symm hcur
    have hparked := parked_of_switch hw hcur hlive hij head
    exact (hparked.back (hw.step head) tail hes).1

theorem context_switch_transparent_sample :
    Back sampleLayout ⟨0, by decide⟩ (sampleCreated.cpu.set .rip 7)
      ((sampleCreated.switch sampleLayout .yieldCpu 7 0).switch sampleLayout .yieldCpu 9 0).cpu := by
  have hback : Step sampleLayout sampleFloor (sampleCreated.switch sampleLayout .yieldCpu 7 0)
      (.switch .yieldCpu 9 (some ⟨0, by decide⟩))
      ((sampleCreated.switch sampleLayout .yieldCpu 7 0).switch sampleLayout .yieldCpu 9 0) :=
    sample_yield _ 9 (i := sampleSlot) rfl (by decide +kernel) (by decide +kernel) (Nat.le_refl _)
      (by decide +kernel)
  exact context_switch_transparent (sampleHardware_wf.step sample_created) rfl (by decide)
    (.cons (sampleCreated_yield 7) (.cons hback (.nil _))) (List.forall_mem_nil _)

/-- A slot that gets a new task has its first context parked: the top eight words that were
primed are the registers, the others stay on the stack. -/
theorem parked_of_prime {t : Task} {c : Processor} (vs ws rest : List UInt64)
    (hout : b.sched.currentTaskId ≠ some i.val) (hvs : vs.reverse = ws ++ rest)
    (hlen : 8 * vs.length ≤ stackSize) (hws : ws.length = 8)
    (hrsp : t.rsp = L.stackTop i - 8 * vs.length) (hsp : c.sp = L.stackTop i - 8 * rest.length)
    (hregs : savedRegs.map c.regs = ws)
    (hmem : c.mem = primeStack b.cpu.mem (L.stackTop i) vs) :
    Parked L { b with
      sched := b.sched.set i (some t)
      cpu := { b.cpu with mem := primeStack b.cpu.mem (L.stackTop i) vs } } i c := by
  have hsize : L.stackTop i = L.stackBase i + stackSize := rfl
  have htotal : vs.length = 8 + rest.length := by
    have hcount := congrArg List.length hvs
    rwa [List.length_reverse, List.length_append, hws] at hcount
  have hwords := primeStack_words b.cpu.mem vs (show 8 * vs.length ≤ L.stackTop i by omega)
  rw [hvs, Lib.words_append, ← hregs] at hwords
  refine ⟨hout, fun u hu => ?_, by omega, by omega, ?_, fun a hlo hhi => by rw [hmem]⟩
  · simp only [Scheduler.set_tasks_self] at hu
    cases hu
    omega
  · rw [show c.sp - 64 = L.stackTop i - 8 * vs.length by omega]
    exact hwords.1

def kernelStart (L : KernelLayout) (i : Fin maxTasks) (entry : UInt64) (m : Nat → UInt8) : Processor where
  regs
    | .r15 => entry
    | .rip => L.trampoline
    | .rflags => 0x202
    | .rsp => .ofNat (L.stackTop i - 8)
    | _ => 0
  mem := m

def userStart (L : KernelLayout) (i : Fin maxTasks) (m : Nat → UInt8) : Processor where
  regs
    | .rip => L.iretTrampoline
    | .rflags => 0x202
    | .rsp => .ofNat (L.stackTop i - 40)
    | _ => 0
  mem := m

theorem parked_createKernel {entry : UInt64} (h : Step L floor b (.createKernel i entry) b') :
    b'.Parked L i (kernelStart L i entry b'.cpu.mem) := by
  cases h with
  | createKernel _ _ pml4 capTable other =>
    have hlt : L.stackTop i - 8 < 2 ^ 64 := Nat.lt_of_le_of_lt (Nat.sub_le ..) (L.stackTop_lt i)
    exact parked_of_prime (kernelWords L.trampoline entry)
      [entry, 0, 0, 0, 0, 0, 0x202, L.trampoline] [0] other rfl
      (by simp [kernelWords, stackSize]) rfl rfl (UInt64.toNat_ofNat_of_lt' hlt) rfl rfl

/-- The words primed for a user task: first the registers, then what `iretq` needs. -/
theorem userWords_reverse (trampoline entry userStackTop : UInt64) :
    (userWords trampoline entry userStackTop).reverse =
      [0, 0, 0, 0, 0, 0, 0x202, trampoline] ++
        [entry, userCode, 0x202, userStackTop, userData] := rfl

theorem parked_createUser {entry userStackTop : UInt64}
    (h : Step L floor b (.createUser i entry userStackTop) b') :
    b'.Parked L i (userStart L i b'.cpu.mem) ∧
      Words b'.cpu.mem (L.stackTop i - 40) [entry, userCode, 0x202, userStackTop, userData] := by
  cases h with
  | createUser _ _ _ cr3 capTable other =>
    have hlt : L.stackTop i - 40 < 2 ^ 64 := Nat.lt_of_le_of_lt (Nat.sub_le ..) (L.stackTop_lt i)
    have hsize : L.stackTop i = L.stackBase i + 32768 := rfl
    have hcount : (userWords L.iretTrampoline entry userStackTop).length = 13 := rfl
    have hwords := primeStack_words b.cpu.mem (userWords L.iretTrampoline entry userStackTop)
      (show _ ≤ L.stackTop i by omega)
    rw [userWords_reverse, Lib.words_append, hcount] at hwords
    simp only [Hardware.createUser]
    constructor
    · refine parked_of_prime (userWords L.iretTrampoline entry userStackTop) _ _ other
        (userWords_reverse ..) ?_ rfl ?_ (UInt64.toNat_ofNat_of_lt' hlt) rfl ?_
      · rw [hcount, stackSize]
        omega
      · rw [hcount]
        rfl
      · rw [userStart]
    · have hplace : L.stackTop i - 8 * 13 + 8 * [0, 0, 0, 0, 0, 0, 0x202, L.iretTrampoline].length =
          L.stackTop i - 40 := by
        simp only [List.length_cons, List.length_nil]
        omega
      rw [← hplace]
      exact hwords.2

/-- The first instructions of a kernel task, whenever it is first resumed: the trampoline
enables interrupts and jumps to the entry, on a stack aligned as after a call. -/
theorem kernel_task_starts {entry ret : UInt64} {d : Decision} {es : List HardwareEvent} (hw : b.Wf L)
    (hr : Lib.Run (Step L floor) b (.createKernel i entry :: (es ++ [.switch d ret (some i)])) b')
    (hes : ∀ e ∈ es, ¬ e.Resumes i ∧ ¬ e.Creates i) :
    b'.cpu.regs .rip = L.trampoline ∧
      (b'.cpu.run kernelTaskTrampoline).regs .rip = entry ∧
      (b'.cpu.run kernelTaskTrampoline).regs .rflags = 0x202 ∧
      (b'.cpu.run kernelTaskTrampoline).sp = L.stackTop i - 8 ∧
      (b'.cpu.run kernelTaskTrampoline).sp % 16 = 8 := by
  cases hr with
  | cons head tail =>
    obtain ⟨hback, _⟩ := (parked_createKernel head).back (hw.step head) tail hes
    have hlt : L.stackTop i - 8 < 2 ^ 64 := Nat.lt_of_le_of_lt (Nat.sub_le ..) (L.stackTop_lt i)
    have hrip : b'.cpu.regs .rip = L.trampoline := hback.regs .rip (by decide)
    have hr15 : b'.cpu.regs .r15 = entry := hback.regs .r15 (by decide)
    have hflags : b'.cpu.regs .rflags = 0x202 := hback.regs .rflags (by decide)
    have hsp : b'.cpu.sp = L.stackTop i - 8 := by
      rw [Processor.sp, hback.rsp]
      exact UInt64.toNat_ofNat_of_lt' hlt
    have hrun : b'.cpu.run kernelTaskTrampoline =
        (b'.cpu.set .rflags (b'.cpu.regs .rflags ||| Insn.interruptFlag)).set .rip entry := by
      simp only [kernelTaskTrampoline, Processor.run_cons, Insn.exec]
      rw [Processor.set_other (by decide), hr15]
      rfl
    have hend : (b'.cpu.run kernelTaskTrampoline).sp = L.stackTop i - 8 := by
      rw [hrun, Processor.set_sp (by decide), Processor.set_sp (by decide), hsp]
    refine ⟨hrip, ?_, ?_, hend, ?_⟩
    · rw [hrun, Processor.set_same]
    · rw [hrun, Processor.set_other (by decide), Processor.set_same, hflags]
      rfl
    · have hbase := L.aligned
      rw [hend]
      simp only [KernelLayout.stackTop, KernelLayout.stackBase, stackSize]
      omega

theorem kernel_task_starts_sample :
    ((sampleCreated.switch sampleLayout .yieldCpu 7 0).cpu.run kernelTaskTrampoline).regs .rip = 5 :=
  (kernel_task_starts sampleHardware_wf (.cons sample_created (.cons (sampleCreated_yield 7) (.nil _)))
    (List.forall_mem_nil _)).2.1

/-- A user task first leaves the kernel to its entry in ring 3, on its own stack and with
interrupts enabled, and its traps will use the whole of its kernel stack. The registers that
`switch_context` passes its arguments in are not cleared. -/
theorem user_task_starts {entry userStackTop ret : UInt64} {d : Decision} {es : List HardwareEvent}
    (hw : b.Wf L)
    (hr : Lib.Run (Step L floor) b
      (.createUser i entry userStackTop :: (es ++ [.switch d ret (some i)])) b')
    (hes : ∀ e ∈ es, ¬ e.Resumes i ∧ ¬ e.Creates i) :
    b'.cpu.regs .rip = L.iretTrampoline ∧
      [Reg.rip, .cs, .rflags, .rsp, .ss].map (b'.cpu.run iretToUser).regs =
        [entry, userCode, 0x202, userStackTop, userData] ∧
      (∀ r ∈ [Reg.r15, .r14, .r13, .r12, .rbx, .rbp], (b'.cpu.run iretToUser).regs r = 0) ∧
      ((b'.cpu.run iretToUser).regs .rsi).toNat = L.stackTop i - 104 ∧
      b'.sched.currentTaskId = some i.val ∧ b'.rsp0 = .ofNat (L.stackTop i) := by
  cases hr with
  | cons head tail =>
    obtain ⟨hparked, hwords⟩ := parked_createUser head
    obtain ⟨hback, hcur, hw'⟩ := hparked.back (hw.step head) tail hes
    have hlt : L.stackTop i - 40 < 2 ^ 64 := Nat.lt_of_le_of_lt (Nat.sub_le ..) (L.stackTop_lt i)
    have hstart : ∀ m, (userStart L i m).sp = L.stackTop i - 40 :=
      fun m => UInt64.toNat_ofNat_of_lt' hlt
    have hsize : L.stackTop i = L.stackBase i + 32768 := rfl
    have hsp : b'.cpu.sp = L.stackTop i - 40 := by
      rw [Processor.sp, hback.rsp]
      exact hstart _
    have hframe : Words b'.cpu.mem b'.cpu.sp [entry, userCode, 0x202, userStackTop, userData] := by
      rw [hsp]
      refine hwords.congr (fun a hlo hhi => (hback.stack a ?_ ?_).symm)
      · rw [hstart]
        exact hlo
      · simp only [List.length_cons, List.length_nil] at hhi
        omega
    obtain ⟨hregs, _, hkept⟩ := Processor.iretq_words hframe rfl
    have hrun : b'.cpu.run iretToUser = b'.cpu.iretq := rfl
    rw [hrun]
    refine ⟨hback.regs .rip (by decide), hregs, ?_, ?_, hcur, hw'.trap i hcur⟩
    · intro r hr
      rw [hkept r (by revert r; decide), hback.regs r (by revert r; decide)]
      revert r
      simp [userStart]
    · rw [hkept .rsi (by decide), hback.rsi, hstart]
      omega

theorem user_task_starts_sample : ∃ b : Hardware,
    (b.cpu.run iretToUser).regs .rip = 0x400000 ∧ (b.cpu.run iretToUser).regs .cs = 0x1b := by
  have hcreate : Step sampleLayout sampleFloor sampleHardware (.createUser sampleSlot 0x400000 0x700000)
      (sampleHardware.createUser sampleLayout sampleSlot 0x400000 0x700000 0 CapTable.new) :=
    .createUser sampleSlot 0x400000 0x700000 0 CapTable.new (by decide)
  have hnext : (Decision.yieldCpu.take (sampleHardware.createUser sampleLayout sampleSlot 0x400000
      0x700000 0 CapTable.new).sched).2.map Switch.next = some sampleSlot := by
    decide +kernel
  have hyield : Step sampleLayout sampleFloor (sampleHardware.createUser sampleLayout sampleSlot 0x400000
      0x700000 0 CapTable.new) (.switch .yieldCpu 7 (some sampleSlot)) _ :=
    sample_yield _ 7 (i := ⟨0, by decide⟩) rfl (by decide +kernel) (by decide +kernel) (Nat.le_refl _)
      hnext
  obtain ⟨_, hregs, _⟩ := user_task_starts sampleHardware_wf (.cons hcreate (.cons hyield (.nil _)))
    (List.forall_mem_nil _)
  simp only [List.map_cons, List.cons.injEq] at hregs
  exact ⟨_, hregs.1, hregs.2.1⟩

end Hardware

end Runix
