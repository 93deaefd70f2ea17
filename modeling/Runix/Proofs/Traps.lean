import Runix.Proofs.Switch

namespace Runix

open Lib (Reg Insn Processor Words readWord)

def interruptRegs : List Reg :=
  [.rax, .rcx, .rdx, .rsi, .rdi, .r8, .r9, .r10, .r11, .rbx, .rbp, .r12, .r13, .r14, .r15]

def generalRegs : List Reg :=
  [.rax, .rbx, .rcx, .rdx, .rsi, .rdi, .rbp, .r8, .r9, .r10, .r11, .r12, .r13, .r14, .r15]

def ExceptionFrame.ofRegs (regs : Reg → UInt64) (vector code : UInt64) : ExceptionFrame where
  registers k := regs (generalRegs.get k)
  vector := vector
  errorCode := code
  rip := regs .rip
  cs := regs .cs
  rflags := regs .rflags
  rsp := regs .rsp
  ss := regs .ss

structure SavesRest (rs : List Reg) : Prop where
  apart : ∀ r ∈ rs, r ∉ Processor.frameRegs
  nodup : rs.Nodup
  all : ∀ r, r ∈ rs ∨ r ∈ Processor.frameRegs
  length : rs.length = 15

theorem savesRest_interruptRegs : SavesRest interruptRegs :=
  ⟨by decide, by decide, fun r => by cases r <;> decide, rfl⟩

theorem savesRest_generalRegs : SavesRest generalRegs :=
  ⟨by decide, by decide, fun r => by cases r <;> decide, rfl⟩

theorem SavesRest.reverse {rs : List Reg} (h : SavesRest rs) : SavesRest rs.reverse := by
  refine ⟨fun r hr => h.apart r (List.mem_reverse.mp hr), List.nodup_reverse.mpr h.nodup,
    fun r => ?_, (List.length_reverse).trans h.length⟩
  rw [List.mem_reverse]
  exact h.all r

/-- How `terminate_current_task` leaves the table: the task is dead, its senders are awake, and
one of the Ready tasks goes on unless there is none. -/
theorem Scheduler.take_terminate {s : Scheduler} (hs : s.Indexed) (hr : s.Resumable)
    {i : Fin maxTasks} {t : Task} (hcur : s.currentTaskId = some i.val) (ht : s.tasks i = some t) :
    ∃ next : Option (Fin maxTasks),
      (Decision.terminateCurrentTask.take s).2.map Switch.next = next ∧ next ≠ some i ∧
      (Decision.terminateCurrentTask.take s).1.tasks i = some { t with state := .terminated } ∧
      (∀ k, k ≠ i → (Decision.terminateCurrentTask.take s).1.tasks k =
        (s.tasks k).map (fun u => if next = some k then { u with state := .running } else u.woken i)) ∧
      (next = none → ∀ k u, k ≠ i → s.tasks k = some u →
        u.state ≠ .ready ∧ u.state ≠ .blockedOnSend i) := by
  have hkilled := indexed_killed hs ht
  have hresume := resumable_killed hr ht
  have htake : Decision.terminateCurrentTask.take s =
      (s.killed i t).terminateLoop ((i.val + 1) % maxTasks) (List.range maxTasks) := by
    simp only [Decision.take, terminateCurrentTask, hcur]
    rw [wakeSenders_markTerminated hcur ht]
  rw [terminateLoop_eq] at htake
  cases hfind : Lib.cyclicFind maxTasks_pos (s.killed i t).isReady ((i.val + 1) % maxTasks) with
  | none =>
    simp only [hfind] at htake
    rw [htake]
    refine ⟨none, rfl, by simp, by simp [killed], fun k hk => by simp [killed, hk], ?_⟩
    intro _ k u hk hu
    have hidle := Lib.cyclicFind_none hfind k
    have htask : (s.killed i t).tasks k = some (u.woken i) := by simp [killed, hk, hu]
    simp only [isReady, htask, decide_eq_false_iff_not] at hidle
    constructor
    · intro hready
      rw [Task.woken, if_neg (by rw [hready]; simp)] at hidle
      exact hidle hready
    · intro hblocked
      rw [Task.woken, if_pos hblocked] at hidle
      exact hidle rfl
  | some j =>
    obtain ⟨u, hu, hready⟩ := isReady_iff.mp (Lib.cyclicFind_some hfind).1
    have hji : j ≠ i := by
      rintro rfl
      simp only [killed, if_true] at hu
      cases hu
      cases hready
    simp only [hfind] at htake
    rw [startRunning_started hkilled hu (hresume j u hu)] at htake
    rw [htake]
    refine ⟨some j, rfl, fun heq => hji (Option.some.inj heq), ?_, fun k hk => ?_, fun hno => by cases hno⟩
    · simp [started, set_tasks, hji.symm, killed]
    · simp only [started, set_tasks]
      by_cases hkj : k = j
      · subst hkj
        simp only [killed, hk, if_false] at hu
        obtain ⟨v, hv, rfl⟩ := Option.map_eq_some_iff.mp hu
        simp only [if_true, hv, Option.map_some, Task.woken]
        split <;> rfl
      · have hjk : j ≠ k := fun heq => hkj heq.symm
        simp [hkj, hjk, killed, hk]

namespace Hardware
variable {L : KernelLayout} {floor floor' : Fin maxTasks → Nat} {b b' : Hardware} {i : Fin maxTasks}
  {selector handler : UInt64} {es : List HardwareEvent} {rs : List Reg}

/-- There is space for a trap of the running task: one from ring 3 starts on an empty kernel
stack, another one goes on top of what the task has on it. -/
def TrapRoom (L : KernelLayout) (b : Hardware) (i : Fin maxTasks) : Prop :=
  b.cpu.regs .cs &&& 3 = 3 ∨ L.stackBase i + 256 ≤ b.cpu.sp ∧ b.cpu.sp ≤ L.stackTop i

def frameTop (b : Hardware) : Nat := (b.cpu.frameTop b.rsp0).toNat

/-- Where a trap of the current task puts its frame. -/
theorem frameTop_bounds (hw : b.Wf L) (hcur : b.sched.currentTaskId = some i.val)
    (hroom : b.TrapRoom L i) :
    b.frameTop % 16 = 0 ∧ L.stackBase i + 240 ≤ b.frameTop ∧ b.frameTop ≤ L.stackTop i ∧
      (b.cpu.regs .cs &&& 3 ≠ 3 → b.frameTop ≤ b.cpu.sp) := by
  have hsize : L.stackTop i = L.stackBase i + 32768 := rfl
  have hbase : L.stackBase i = L.taskStacks + i.val * 32768 := rfl
  have haligned := L.aligned
  have htrap : b.rsp0.toNat = L.stackTop i := by
    rw [hw.trap i hcur]
    exact UInt64.toNat_ofNat_of_lt' (L.stackTop_lt i)
  rw [frameTop, Processor.frameTop_toNat, htrap]
  by_cases hring : b.cpu.regs .cs &&& 3 = 3
  · rw [if_pos hring]
    exact ⟨by omega, by omega, by omega, fun hne => absurd hring hne⟩
  · rw [if_neg hring]
    have hsp := hroom.resolve_left hring
    exact ⟨by omega, by omega, by omega, fun _ => by omega⟩

/-- The stub of a trap has saved the registers. -/
theorem entered_enter (hw : b.Wf L) (hcur : b.sched.currentTaskId = some i.val)
    (hroom : b.TrapRoom L i) (selector handler : UInt64) (hrs : SavesRest rs) :
    Processor.Entered b.cpu b.frameTop (Processor.frameRegs.map b.cpu.regs ++ rs.map b.cpu.regs)
      (b.enter selector handler (rs.map .push)).cpu := by
  obtain ⟨_, hlow, _⟩ := frameTop_bounds hw hcur hroom
  have henter : Processor.Entered b.cpu b.frameTop (Processor.frameRegs.map b.cpu.regs)
      (b.cpu.interrupt b.rsp0 selector handler) :=
    Processor.entered_interrupt (show 40 ≤ b.frameTop by omega)
  refine henter.run rs hrs.apart ?_
  have hsp := henter.sp
  have hframe : (Processor.frameRegs.map b.cpu.regs).length = 5 := List.length_map ..
  have hlen := hrs.length
  omega

/-- What is on the stack then. -/
theorem enter_words (hw : b.Wf L) (hcur : b.sched.currentTaskId = some i.val)
    (hroom : b.TrapRoom L i) (selector handler : UInt64) (hrs : SavesRest rs) :
    (b.enter selector handler (rs.map .push)).cpu.sp + 160 = b.frameTop ∧
      Words (b.enter selector handler (rs.map .push)).cpu.mem
        (b.enter selector handler (rs.map .push)).cpu.sp
        (rs.reverse.map b.cpu.regs ++ (Processor.frameRegs.map b.cpu.regs).reverse) := by
  have henter := entered_enter hw hcur hroom selector handler hrs
  have hsp := henter.sp
  have hwords := henter.words
  rw [List.length_append, List.length_map, List.length_map, hrs.length] at hsp
  rw [List.reverse_append, ← List.map_reverse] at hwords
  exact ⟨hsp, hwords⟩

/-- Stack bytes above the floor are the same after any run. -/
theorem run_guarded (hr : Lib.Run (Step L floor) b es b') (hes : ∀ e ∈ es, ¬ e.Creates i) {a : Nat}
    (hlo : L.stackBase i ≤ a) (hhi : a < L.stackTop i) (hfloor : floor i ≤ a) :
    b'.cpu.mem a = b.cpu.mem a := by
  induction hr with
  | nil => rfl
  | cons head tail ih =>
    rw [ih (fun e he => hes e (List.mem_cons_of_mem _ he))]
    exact head.guarded (hes _ List.mem_cons_self) hlo hhi (fun _ => hfloor)

/-- Code that keeps to a lower floor keeps to a higher one. -/
theorem Step.mono {e : HardwareEvent} (hle : ∀ k, floor' k ≤ floor k)
    (htop : ∀ k : Fin maxTasks, floor k ≤ L.stackTop k) (h : Step L floor' b e b') :
    Step L floor b e b' := by
  have hguard : ∀ current a, L.Guarded floor current a → L.Guarded floor' current a := by
    rintro current a ⟨k, hlo, hhi, hfloor⟩
    exact ⟨k, hlo, hhi, fun hcur => Nat.le_trans (hle k) (hfloor hcur)⟩
  cases h with
  | work mem kept current => exact .work (fun a ha => mem a (hguard _ a ha)) kept current
  | switch d ret dummy room free fits =>
    refine .switch d ret dummy ?_ (fun a hlo hhi ha => free a hlo hhi (hguard _ a ha)) fits
    unfold KernelLayout.Room at room ⊢
    split
    · rename_i id hid
      rw [hid] at room
      obtain ⟨k, hk, hbase, hsp, _⟩ := room
      exact ⟨k, hk, hbase, Nat.le_trans hsp (hle k), htop k⟩
    · rename_i hnone
      rwa [hnone] at room
  | createKernel k entry pml4 capTable other => exact .createKernel k entry pml4 capTable other
  | createUser k entry top cr3 capTable other => exact .createUser k entry top cr3 capTable other

/-- Taking a trap is something the current task does: it writes below its floor. -/
theorem enter_step {stub : List Insn} {c : Processor} {vs : List UInt64} (hw : b.Wf L)
    (hcur : b.sched.currentTaskId = some i.val) (hroom : b.TrapRoom L i)
    (hfloor : b.frameTop ≤ floor i)
    (henter : Processor.Entered b.cpu b.frameTop vs c) (hlen : 8 * vs.length ≤ 240)
    (hc : (b.enter selector handler stub).cpu.mem = c.mem) :
    Step L floor b .work (b.enter selector handler stub) := by
  obtain ⟨_, hlow, hhigh, _⟩ := frameTop_bounds hw hcur hroom
  have hsp := henter.sp
  refine .work (fun a ha => ?_) (Scheduler.SameStacks.refl _) rfl
  obtain ⟨k, hlo, hhi, hk⟩ := ha
  refine (congrFun hc a).trans (henter.mem a ?_)
  by_cases hki : k = i
  · subst hki
    exact .inr (Nat.le_trans hfloor (hk hcur))
  · have hap := L.stack_apart hki
    omega

/-- The handler runs inside the interrupted task: what happens from the trap to the end of its
stub is a run of the whole. -/
theorem trap_run {stub exit : List Insn} {limit : Nat}
    (htop : ∀ k : Fin maxTasks, floor k ≤ L.stackTop k) (hlimit : limit ≤ floor i)
    (henter : Step L floor b .work (b.enter selector handler stub))
    (hr : Lib.Run (Step L (Function.update floor i limit)) (b.enter selector handler stub) es b')
    (hexit : (b'.leave exit).cpu.mem = b'.cpu.mem) :
    Lib.Run (Step L floor) b (.work :: (es ++ [.work])) (b'.leave exit) := by
  have hle : ∀ k, Function.update floor i limit k ≤ floor k := by
    intro k
    rw [Function.update_apply]
    split
    · rename_i hk
      rw [hk]
      exact hlimit
    · exact Nat.le_refl _
  have hinner := hr.mono (fun _ _ _ h => h.mono hle htop)
  have hlast : Step L floor b' .work (b'.leave exit) :=
    .work (fun a _ => congrFun hexit a) (Scheduler.SameStacks.refl _) rfl
  exact .cons henter (hinner.append (.cons hlast (.nil _)))

/-- The words that a stub saved are still there when the handler returns. -/
theorem trap_words {limit : Nat} {c : Hardware} {ws : List UInt64} (hbase : L.stackBase i ≤ limit)
    (hws : Words c.cpu.mem limit ws) (hlen : limit + 8 * ws.length ≤ L.stackTop i)
    (hr : Lib.Run (Step L (Function.update floor i limit)) c es b')
    (hes : ∀ e ∈ es, ¬ e.Creates i) : Words b'.cpu.mem limit ws := by
  refine hws.congr (fun a hlo hhi => (run_guarded hr hes (by omega) (by omega) ?_).symm)
  rw [Function.update_self]
  exact hlo

/-- A timer, keyboard or inter-processor interrupt is invisible to the code it interrupts, in
ring 3 or in the kernel: whatever the handler does, switches to other tasks included, all
twenty registers and the stack of the task are as before when the stub is left. The handler
is called with the stack aligned. -/
theorem interrupt_transparent (hw : b.Wf L) (hcur : b.sched.currentTaskId = some i.val)
    (hroom : b.TrapRoom L i) (htop : ∀ k : Fin maxTasks, floor k ≤ L.stackTop k)
    (hfloor : b.frameTop ≤ floor i) {limit : Nat}
    (hlimit : limit = (b.enter selector handler interruptEntry).cpu.sp)
    (hr : Lib.Run (Step L (Function.update floor i limit))
      (b.enter selector handler interruptEntry) es b')
    (hes : ∀ e ∈ es, ¬ e.Creates i) (hsp : b'.cpu.sp = limit) :
    limit % 16 = 0 ∧ (b'.leave interruptExit).cpu.regs = b.cpu.regs ∧
      (∀ a, b.frameTop ≤ a → a < L.stackTop i →
        (b'.leave interruptExit).cpu.mem a = b.cpu.mem a) ∧
      Lib.Run (Step L floor) b (.work :: (es ++ [.work])) (b'.leave interruptExit) := by
  have hentry : interruptEntry = interruptRegs.map .push := rfl
  have hexit : interruptExit = interruptRegs.reverse.map .pop ++ [.iretq] := rfl
  rw [hentry] at hlimit hr
  rw [hexit]
  have hrs := savesRest_interruptRegs
  obtain ⟨halign, hlow, hhigh, _⟩ := frameTop_bounds hw hcur hroom
  have henter := entered_enter hw hcur hroom selector handler hrs
  obtain ⟨hplace, hwords⟩ := enter_words hw hcur hroom selector handler hrs
  rw [← hlimit] at hplace hwords
  have hlt := L.stackTop_lt i
  have hback := trap_words (by omega) hwords (by simp [interruptRegs, Processor.frameRegs]; omega) hr hes
  rw [← hsp] at hback
  have hleave := Processor.leave_regs b.cpu.regs hrs.reverse.apart hrs.reverse.nodup hrs.reverse.all
    hback (by rw [hrs.reverse.length]; omega)
  have hstep : Step L floor b .work (b.enter selector handler (interruptRegs.map .push)) :=
    enter_step hw hcur hroom hfloor henter (by simp [interruptRegs, Processor.frameRegs]) rfl
  refine ⟨by omega, hleave.1, fun a hlo hhi => ?_, trap_run htop (by omega) hstep hr hleave.2⟩
  have hkept := run_guarded hr hes (show L.stackBase i ≤ a by omega) hhi
    (by rw [Function.update_self]; omega)
  exact (congrFun hleave.2 a).trans (hkept.trans (henter.mem a (.inr hlo)))

theorem sampleCreated_wf : sampleCreated.Wf sampleLayout := sampleHardware_wf.step sample_created

theorem sampleCreated_room : sampleCreated.TrapRoom sampleLayout ⟨0, by decide⟩ :=
  .inr (by decide +kernel)

theorem sampleCreated_frame : sampleCreated.frameTop ≤ sampleFloor ⟨0, by decide⟩ := by
  decide +kernel

def clobber (b : Hardware) : Hardware :=
  { b with cpu := { b.cpu with regs := fun r => if r = .rsp then b.cpu.regs .rsp else 0 } }

/-- A handler that uses all registers, yields to the other task, which does the same, and gets the
processor back. -/
def sampleHandler (b : Hardware) : Hardware :=
  (b.clobber.switch sampleLayout .yieldCpu 7 0).clobber.switch sampleLayout .yieldCpu 9 0

def sampleHandled : List HardwareEvent :=
  [.work, .switch .yieldCpu 7 (some sampleSlot), .work, .switch .yieldCpu 9 (some ⟨0, maxTasks_pos⟩)]

theorem step_clobber (b : Hardware) : Step L floor b .work b.clobber :=
  .work (fun _ _ => rfl) (Scheduler.SameStacks.refl _) rfl

theorem interrupt_transparent_sample :
    ((sampleHandler (sampleCreated.enter 8 0x9200 interruptEntry)).leave interruptExit).cpu.regs =
      sampleCreated.cpu.regs := by
  have hr : Lib.Run (Step sampleLayout (Function.update sampleFloor ⟨0, by decide⟩
        (sampleCreated.enter 8 0x9200 interruptEntry).cpu.sp))
      (sampleCreated.enter 8 0x9200 interruptEntry) sampleHandled
      (sampleHandler (sampleCreated.enter 8 0x9200 interruptEntry)) :=
    .cons (step_clobber _) (.cons (sample_yield _ 7 (i := ⟨0, by decide⟩) rfl (by decide +kernel)
      (by decide +kernel) (by decide +kernel) (by decide +kernel)) (.cons (step_clobber _)
        (.cons (sample_yield _ 9 (i := sampleSlot) rfl (by decide +kernel) (by decide +kernel)
          (by decide +kernel) (by decide +kernel)) (.nil _))))
  exact (interrupt_transparent sampleCreated_wf rfl sampleCreated_room (fun _ => Nat.le_refl _)
    sampleCreated_frame rfl hr (by simp [sampleHandled, HardwareEvent.Creates]) (by decide +kernel)).2.1

/-- A system call changes nothing for its caller but `rax`, which gets what the dispatcher left
in the frame; the frame that the dispatcher is given holds the caller's registers. -/
theorem syscall_transparent (hw : b.Wf L) (hcur : b.sched.currentTaskId = some i.val)
    (hroom : b.TrapRoom L i) (htop : ∀ k : Fin maxTasks, floor k ≤ L.stackTop k)
    (hfloor : b.frameTop ≤ floor i) {frame : Nat}
    (hframe : frame = (b.enter selector handler syscallEntry).cpu.sp)
    (hr : Lib.Run (Step L (Function.update floor i (frame + 8)))
      (b.enter selector handler syscallEntry) es b')
    (hes : ∀ e ∈ es, ¬ e.Creates i) (hsp : b'.cpu.sp = frame) :
    frame % 16 = 0 ∧ ((b.enter selector handler syscallEntry).cpu.regs .rdi).toNat = frame ∧
      Words (b.enter selector handler syscallEntry).cpu.mem frame (generalRegs.map b.cpu.regs) ∧
      (b'.leave syscallExit).cpu.regs =
        Function.update b.cpu.regs .rax (readWord b'.cpu.mem frame) ∧
      (∀ a, b.frameTop ≤ a → a < L.stackTop i →
        (b'.leave syscallExit).cpu.mem a = b.cpu.mem a) ∧
      Lib.Run (Step L floor) b (.work :: (es ++ [.work])) (b'.leave syscallExit) := by
  have hexit : syscallExit = generalRegs.map .pop ++ [.iretq] := rfl
  have hrs := savesRest_generalRegs
  obtain ⟨halign, hlow, hhigh, _⟩ := frameTop_bounds hw hcur hroom
  have henter := entered_enter hw hcur hroom selector handler hrs.reverse
  obtain ⟨hplace, hwords⟩ := enter_words hw hcur hroom selector handler hrs.reverse
  have hcpu : (b.enter selector handler syscallEntry).cpu =
      (b.enter selector handler (generalRegs.reverse.map .push)).cpu.set .rdi
        ((b.enter selector handler (generalRegs.reverse.map .push)).cpu.regs .rsp) :=
    Processor.run_append (generalRegs.reverse.map .push) [.mov .rdi .rsp]
  have hsame : (b.enter selector handler syscallEntry).cpu.sp =
      (b.enter selector handler (generalRegs.reverse.map .push)).cpu.sp := by
    rw [hcpu, Processor.set_sp (by decide)]
  have hmem : (b.enter selector handler syscallEntry).cpu.mem =
      (b.enter selector handler (generalRegs.reverse.map .push)).cpu.mem := by
    rw [hcpu, Processor.set_mem]
  rw [← hsame, ← hframe] at hplace
  rw [← hmem, ← hsame, ← hframe, List.reverse_reverse] at hwords
  have hrdi : ((b.enter selector handler syscallEntry).cpu.regs .rdi).toNat = frame := by
    rw [hframe, hsame, hcpu, Processor.set_same]
    rfl
  have hlt := L.stackTop_lt i
  have hrest := hwords.2
  have hback := trap_words (by omega) hrest (by simp [Processor.frameRegs]; omega) hr hes
  have hall : Words b'.cpu.mem b'.cpu.sp
      (generalRegs.map (Function.update b.cpu.regs .rax (readWord b'.cpu.mem frame)) ++
        (Processor.frameRegs.map
          (Function.update b.cpu.regs .rax (readWord b'.cpu.mem frame))).reverse) := by
    rw [hsp]
    exact ⟨rfl, hback⟩
  have hleave := Processor.leave_regs _ hrs.apart hrs.nodup hrs.all hall
    (by rw [hrs.length]; omega)
  have hstep : Step L floor b .work (b.enter selector handler syscallEntry) :=
    enter_step hw hcur hroom hfloor henter (by simp [generalRegs, Processor.frameRegs]) hmem
  rw [hexit]
  refine ⟨by omega, hrdi, (Lib.words_append.mp hwords).1, hleave.1, fun a hlo hhi => ?_,
    trap_run htop (by omega) hstep hr hleave.2⟩
  have hkept := run_guarded hr hes (show L.stackBase i ≤ a by omega) hhi
    (by rw [Function.update_self]; omega)
  rw [hmem] at hkept
  exact (congrFun hleave.2 a).trans (hkept.trans (henter.mem a (.inr hlo)))

theorem syscall_transparent_sample :
    ((sampleHandler (sampleCreated.enter 8 0x9300 syscallEntry)).leave syscallExit).cpu.regs .rbx =
      42 := by
  have hr : Lib.Run (Step sampleLayout (Function.update sampleFloor ⟨0, by decide⟩
        ((sampleCreated.enter 8 0x9300 syscallEntry).cpu.sp + 8)))
      (sampleCreated.enter 8 0x9300 syscallEntry) sampleHandled
      (sampleHandler (sampleCreated.enter 8 0x9300 syscallEntry)) :=
    .cons (step_clobber _) (.cons (sample_yield _ 7 (i := ⟨0, by decide⟩) rfl (by decide +kernel)
      (by decide +kernel) (by decide +kernel) (by decide +kernel)) (.cons (step_clobber _)
        (.cons (sample_yield _ 9 (i := sampleSlot) rfl (by decide +kernel) (by decide +kernel)
          (by decide +kernel) (by decide +kernel)) (.nil _))))
  have hregs := (syscall_transparent sampleCreated_wf rfl sampleCreated_room (fun _ => Nat.le_refl _)
    sampleCreated_frame rfl hr (by simp [sampleHandled, HardwareEvent.Creates])
    (by decide +kernel)).2.2.2.1
  rw [hregs]
  rfl

/-- The record that `exception_dispatch` reads is what lies on the stack. -/
theorem read_ofRegs {m : Nat → UInt8} {a : Nat} {regs : Reg → UInt64} {vector code : UInt64}
    (h : Words m a (generalRegs.map regs ++ ([vector, code] ++ (Processor.frameRegs.map regs).reverse))) :
    ExceptionFrame.read m a = .ofRegs regs vector code := by
  obtain ⟨hgeneral, hvector, hcode, hrip, hcs, hflags, hrsp, hss, _⟩ := Lib.words_append.mp h
  have hregs : ∀ k : Fin 15, readWord m (a + 8 * k) = regs (generalRegs.get k) := by
    intro k
    have hk := hgeneral.get ⟨k, k.isLt⟩
    rw [List.get_eq_getElem, List.getElem_map] at hk
    exact hk
  simp only [ExceptionFrame.read, ExceptionFrame.ofRegs, ExceptionFrame.mk.injEq]
  exact ⟨funext hregs, hvector, hcode, hrip, hcs, hflags, hrsp, hss⟩

def faultCode (e : Exception) (code : UInt64) : UInt64 := if e.hasCode then code else 0

/-- The four entry stubs differ in the values they push only. -/
theorem raise_cpu (e : Exception) (code selector handler : UInt64) :
    (b.raise e code selector handler).cpu =
      ((((b.cpu.interrupt b.rsp0 selector handler).push (faultCode e code)).push e.vector).run
        (generalRegs.reverse.map .push)).run [.mov .rdi .rsp, .load .rsi .rsp 120] := by
  cases e <;> rfl

/-- What `exception_dispatch` is called with: the record of the fault and its vector, on an
aligned stack. -/
theorem raise_frame (hw : b.Wf L) (hcur : b.sched.currentTaskId = some i.val)
    (hroom : b.TrapRoom L i) (e : Exception) (code selector handler : UInt64) :
    (b.raise e code selector handler).cpu.sp + 176 = b.frameTop ∧
      ((b.raise e code selector handler).cpu.regs .rdi).toNat =
        (b.raise e code selector handler).cpu.sp ∧
      (b.raise e code selector handler).cpu.regs .rsi = e.vector ∧
      ExceptionFrame.read (b.raise e code selector handler).cpu.mem
          (b.raise e code selector handler).cpu.sp =
        .ofRegs b.cpu.regs e.vector (faultCode e code) ∧
      ∀ a, a < (b.raise e code selector handler).cpu.sp ∨ b.frameTop ≤ a →
        (b.raise e code selector handler).cpu.mem a = b.cpu.mem a := by
  obtain ⟨_, hlow, _⟩ := frameTop_bounds hw hcur hroom
  have henter : Processor.Entered b.cpu b.frameTop (Processor.frameRegs.map b.cpu.regs)
      (b.cpu.interrupt b.rsp0 selector handler) :=
    Processor.entered_interrupt (show 40 ≤ b.frameTop by omega)
  have hsp := henter.sp
  have hframe : (Processor.frameRegs.map b.cpu.regs).length = 5 := List.length_map ..
  rw [hframe] at hsp
  have hpushed : Processor.Pushed (b.cpu.interrupt b.rsp0 selector handler)
      [faultCode e code, e.vector]
      (((b.cpu.interrupt b.rsp0 selector handler).push (faultCode e code)).push e.vector) :=
    Processor.pushed_foldl [faultCode e code, e.vector] (show 16 ≤ _ by omega)
  have hcodes := henter.pushed hpushed
  have hsaves := savesRest_generalRegs.reverse
  have hsaved := hcodes.run generalRegs.reverse hsaves.apart (by
    have hsp' := hpushed.sp
    rw [hsaves.length]
    simp only [List.length_cons, List.length_nil] at hsp'
    omega)
  have hwords := hsaved.words
  have hplace := hsaved.sp
  rw [List.reverse_append, List.reverse_append, ← List.map_reverse, List.reverse_reverse] at hwords
  simp only [List.length_append, hframe, List.length_map, hsaves.length, List.length_cons,
    List.length_nil] at hplace
  rw [raise_cpu]
  generalize (((b.cpu.interrupt b.rsp0 selector handler).push (faultCode e code)).push e.vector).run
    (generalRegs.reverse.map .push) = c at hsaved hwords hplace
  have hrun : c.run [.mov .rdi .rsp, .load .rsi .rsp 120] =
      (c.set .rdi (c.regs .rsp)).set .rsi (readWord c.mem (c.sp + 120)) := by
    simp only [Processor.run_cons, Insn.exec]
    rw [Processor.set_other (by decide)]
    rfl
  have hspc : (c.run [.mov .rdi .rsp, .load .rsi .rsp 120]).sp = c.sp := by
    rw [hrun, Processor.set_sp (by decide), Processor.set_sp (by decide)]
  have hmem : (c.run [.mov .rdi .rsp, .load .rsi .rsp 120]).mem = c.mem := by
    rw [hrun, Processor.set_mem, Processor.set_mem]
  rw [hspc, hmem]
  refine ⟨hplace, ?_, ?_, read_ofRegs hwords, hsaved.mem⟩
  · rw [hrun, Processor.set_other (by decide), Processor.set_same]
    rfl
  · rw [hrun, Processor.set_same]
    exact (Lib.words_append.mp hwords).2.1

/-- Writing down the registers of the running task moves no stack. -/
theorem sameStacks_record {s : Scheduler} (hs : s.Indexed) {t : Task} (ht : s.tasks i = some t)
    (frame : ExceptionFrame) :
    s.modify i.val (fun t => { t with faultRegisters := some frame }) =
        s.set i (some { t with faultRegisters := some frame }) ∧
      s.SameStacks (s.set i (some { t with faultRegisters := some frame })) :=
  ⟨Scheduler.modify_some (Scheduler.getTask_of_tasks ht (hs i t ht)) i.isLt _,
    Scheduler.sameStacks_set ht rfl rfl rfl⟩

/-- The handler gets through exactly if the locks of the scheduler and of the output are free. -/
theorem faultLocks_free (vector : UInt64) (redirected : Bool) (taken : Board.Spinlock → Bool) :
    (faultLocks vector redirected).any taken = false ↔
      taken .scheduler = false ∧ taken (.driver .redirectTarget) = false ∧
        (redirected = false → taken (.driver .serial1) = false) := by
  have hlines : ∀ n, (printLocks redirected (n + 1)).any taken = false ↔
      taken (.driver .redirectTarget) = false ∧
        (redirected = false → taken (.driver .serial1) = false) := by
    intro n
    rw [printLocks, List.any_flatten, List.any_replicate, if_neg (Nat.succ_ne_zero n)]
    cases redirected <;> simp [Routine.locks, Routine.code]
  rw [faultLocks, List.any_append, List.any_append]
  split <;> simp +contextual [hlines]

/-- A fault stays with the task that raised it. The handler gets through if and only if the locks
it needs are free; then the task ends, with the registers of the fault recorded; of every other
task at most the state changes, as if the task had ended by itself; and every context that was
parked still is, or is the one that goes on. -/
theorem fault_contained {t : Task} {e : Exception} {code : UInt64} {q : Processor} {dummy : Nat}
    (ret : UInt64) (taken : Board.Spinlock → Bool) (redirected : Bool) (hw : b.Wf L)
    (hcur : b.sched.currentTaskId = some i.val) (ht : b.sched.tasks i = some t)
    (hroom : b.TrapRoom L i) (hfloor : b.frameTop ≤ floor i)
    (hmem : ∀ a, L.Guarded floor (some i.val) a →
      q.mem a = (b.raise e code selector handler).cpu.mem a)
    (hcall : L.Room floor (some i.val) q.sp)
    (hfree : ∀ a, dummy ≤ a → a < dummy + 8 → ¬ L.Guarded floor (some i.val) a)
    (hfits : dummy < 2 ^ 64) :
    ((∃ b', (b.raise e code selector handler).exceptionDispatch L taken redirected q ret dummy =
        some b') ↔
      taken .scheduler = false ∧ taken (.driver .redirectTarget) = false ∧
        (redirected = false → taken (.driver .serial1) = false)) ∧
    ∀ b', (b.raise e code selector handler).exceptionDispatch L taken redirected q ret dummy =
        some b' →
      b'.sched.tasks i = some { t with
          state := .terminated
          faultRegisters := some (.ofRegs b.cpu.regs e.vector (faultCode e code)) } ∧
      ∃ next : Option (Fin maxTasks), next ≠ some i ∧
        (∀ k, k ≠ i → b'.sched.tasks k = (b.sched.tasks k).map
          (fun u => if next = some k then { u with state := .running } else u.woken i)) ∧
        (∀ k c, b.Parked L k c →
          if next = some k then b'.sched.currentTaskId = some k.val ∧ Back L k c b'.cpu
          else b'.Parked L k c) ∧
        (next = none → ∀ k u, k ≠ i → b.sched.tasks k = some u →
          u.state ≠ .ready ∧ u.state ≠ .blockedOnSend i) := by
  obtain ⟨_, hlow, hhigh, _⟩ := frameTop_bounds hw hcur hroom
  obtain ⟨hplace, hrdi, _, hframe, hout⟩ := raise_frame hw hcur hroom e code selector handler
  have hsched : (b.raise e code selector handler).sched = b.sched := rfl
  obtain ⟨hrecord, hsame⟩ := sameStacks_record hw.indexed ht
    (.ofRegs b.cpu.regs e.vector (faultCode e code))
  let b₁ : Hardware :=
    { b with
      sched := b.sched.set i (some { t with
        faultRegisters := some (.ofRegs b.cpu.regs e.vector (faultCode e code)) })
      cpu := q }
  have hdispatch : (b.raise e code selector handler).exceptionDispatch L taken redirected q ret dummy =
      if (faultLocks ((b.raise e code selector handler).cpu.regs .rsi) redirected).any taken then none
      else some (b₁.switch L .terminateCurrentTask ret dummy) := by
    rw [exceptionDispatch, hsched, hcur]
    simp only
    rw [hrdi, hframe, hrecord]
    rfl
  rw [hdispatch]
  refine ⟨?_, fun b' hb' => ?_⟩
  · rw [← faultLocks_free ((b.raise e code selector handler).cpu.regs .rsi)]
    split <;> simp_all
  have hend : b' = b₁.switch L .terminateCurrentTask ret dummy := by
    split at hb'
    · cases hb'
    · exact (Option.some.inj hb').symm
  have hwork : Step L floor b .work b₁ := by
    refine .work (fun a ha => ?_) hsame rfl
    rw [hcur] at ha
    rw [hmem a ha]
    obtain ⟨k, hlo, hhi, hk⟩ := ha
    refine hout a ?_
    by_cases hki : k = i
    · subst hki
      exact .inr (Nat.le_trans hfloor (hk rfl))
    · have hap := L.stack_apart hki
      omega
  have hcur₁ : b₁.sched.currentTaskId = some i.val := hcur
  have hw₁ := hw.step hwork
  obtain ⟨next, hnext, hne, hdead, hothers, hidle⟩ :=
    Scheduler.take_terminate hw₁.indexed hw₁.resumable hcur₁ (Scheduler.set_tasks_self ..)
  have htasks : b'.sched = (Decision.terminateCurrentTask.take b₁.sched).1 := by
    rw [hend, switch, abandon]
    split <;> rfl
  have hother : ∀ k, k ≠ i → b₁.sched.tasks k = b.sched.tasks k := by
    intro k hk
    exact (Scheduler.set_tasks ..).trans (if_neg hk)
  have hswitch : Step L floor b₁ (.switch .terminateCurrentTask ret next) b' := by
    rw [hend, ← hnext]
    exact .switch .terminateCurrentTask ret dummy (hcur₁ ▸ hcall) (hcur₁ ▸ hfree) hfits
  refine ⟨by rw [htasks, hdead], next, hne, fun k hk => ?_, fun k c hparked => ?_,
    fun hnone k u hk hu => hidle hnone k u hk ((hother k hk).trans hu)⟩
  · rw [htasks, hothers k hk, hother k hk]
  · have hparked₁ := hparked.step hw hwork (fun h => h) (fun h => h)
    split
    · rename_i hk
      rw [hk] at hswitch
      obtain ⟨hback, hgo⟩ := hparked₁.resume hw₁ hswitch
      exact ⟨hgo, hback⟩
    · rename_i hk
      exact hparked₁.step hw₁ hswitch hk (fun h => h)

/-- Nobody holds a lock when a task with a page fault is stopped. -/
theorem fault_contained_sample : ∃ b' t,
    (sampleCreated.raise .pageFault 2 8 0x9400).exceptionDispatch sampleLayout (fun _ => false) false
      (sampleCreated.raise .pageFault 2 8 0x9400).cpu 7 0 = some b' ∧
    b'.sched.tasks ⟨0, by decide⟩ = some t ∧ t.state = .terminated := by
  have hcall : sampleLayout.Room sampleFloor (some 0)
      (sampleCreated.raise .pageFault 2 8 0x9400).cpu.sp :=
    ⟨⟨0, by decide⟩, rfl, by decide +kernel, by decide +kernel, Nat.le_refl _⟩
  obtain ⟨hiff, hend⟩ := fault_contained 7 (fun _ => false) false sampleCreated_wf rfl rfl
    sampleCreated_room sampleCreated_frame (fun _ _ => rfl) hcall (fun a _ => sample_free _ _ a) (by decide)
  obtain ⟨b', hb'⟩ := hiff.mpr ⟨rfl, rfl, fun _ => rfl⟩
  exact ⟨b', _, hb', (hend b' hb').1, rfl⟩

end Hardware

end Runix
