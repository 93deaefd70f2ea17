import Runix.Lib.Processor
import Runix.Locks
import Runix.Proofs.RoundRobin

namespace Runix

open Lib (Reg Insn Processor)

/-- `switch_context`: saves the outgoing context on its own stack, stores the stack
pointer at `[rdi]` and continues on the stack `rsi`. -/
def switchContext : List Insn :=
  [.pushfq, .push .rbp, .push .rbx, .push .r12, .push .r13, .push .r14, .push .r15,
    .store .rdi .rsp, .mov .rsp .rsi,
    .pop .r15, .pop .r14, .pop .r13, .pop .r12, .pop .rbx, .pop .rbp, .popfq, .ret]

/-- The call of `switch_context`: its arguments, and the return address. -/
def callSwitch (p : Processor) (old new ret : UInt64) : Processor :=
  (((p.set .rdi old).set .rsi new).push ret).run switchContext

/-- The registers in the order in which `switch_context` restores them. -/
def savedRegs : List Reg := [.r15, .r14, .r13, .r12, .rbx, .rbp, .rflags, .rip]

def kernelTaskTrampoline : List Insn := [.sti, .jmp .r15]

def iretToUser : List Insn := [.iretq]

/-- `timer_interrupt_entry`, `keyboard_interrupt_entry` and `ipi_interrupt_entry` up to
the call of their handler. -/
def interruptEntry : List Insn :=
  [.push .rax, .push .rcx, .push .rdx, .push .rsi, .push .rdi, .push .r8, .push .r9, .push .r10,
    .push .r11, .push .rbx, .push .rbp, .push .r12, .push .r13, .push .r14, .push .r15]

def interruptExit : List Insn :=
  [.pop .r15, .pop .r14, .pop .r13, .pop .r12, .pop .rbp, .pop .rbx, .pop .r11, .pop .r10, .pop .r9,
    .pop .r8, .pop .rdi, .pop .rsi, .pop .rdx, .pop .rcx, .pop .rax, .iretq]

/-- `syscall_entry` up to the call of `syscall_dispatch`, with the pointer to the frame
in `rdi`. -/
def syscallEntry : List Insn :=
  [.push .r15, .push .r14, .push .r13, .push .r12, .push .r11, .push .r10, .push .r9, .push .r8,
    .push .rbp, .push .rdi, .push .rsi, .push .rdx, .push .rcx, .push .rbx, .push .rax,
    .mov .rdi .rsp]

def syscallExit : List Insn :=
  [.pop .rax, .pop .rbx, .pop .rcx, .pop .rdx, .pop .rsi, .pop .rdi, .pop .rbp, .pop .r8, .pop .r9,
    .pop .r10, .pop .r11, .pop .r12, .pop .r13, .pop .r14, .pop .r15, .iretq]

/-- `exception_common` up to the call of `exception_dispatch`: its arguments are the
frame and the vector. -/
def exceptionCommon : List Insn :=
  [.push .r15, .push .r14, .push .r13, .push .r12, .push .r11, .push .r10, .push .r9, .push .r8,
    .push .rbp, .push .rdi, .push .rsi, .push .rdx, .push .rcx, .push .rbx, .push .rax,
    .mov .rdi .rsp, .load .rsi .rsp 120]

inductive Exception where
  | divideError
  | invalidOpcode
  | generalProtection
  | pageFault

def Exception.vector : Exception → UInt64
  | .divideError => 0
  | .invalidOpcode => 6
  | .generalProtection => 13
  | .pageFault => 14

def Exception.hasCode : Exception → Bool
  | .divideError | .invalidOpcode => false
  | .generalProtection | .pageFault => true

/-- The entry stubs: a dummy error code where the processor pushes none, the vector,
then the common part. -/
def Exception.entry (e : Exception) : List Insn :=
  (if e.hasCode then [] else [.pushImm 0]) ++ .pushImm e.vector :: exceptionCommon

def ExceptionFrame.read (m : Nat → UInt8) (a : Nat) : ExceptionFrame where
  registers k := Lib.readWord m (a + 8 * k)
  vector := Lib.readWord m (a + 120)
  errorCode := Lib.readWord m (a + 128)
  rip := Lib.readWord m (a + 136)
  cs := Lib.readWord m (a + 144)
  rflags := Lib.readWord m (a + 152)
  rsp := Lib.readWord m (a + 160)
  ss := Lib.readWord m (a + 168)

def Routine.locks (r : Routine) : List Board.Spinlock :=
  r.code.filterMap (fun
    | .acquire l => some (.driver l)
    | _ => none)

def printLocks (redirected : Bool) (lines : Nat) : List Board.Spinlock :=
  (List.replicate lines (Routine.print redirected).locks).flatten

/-- What `exception_dispatch` locks for a task: the scheduler for `current_task_id` and to record
the registers, what its eight lines of output need and one more for a page fault, and the
scheduler again to end the task. -/
def faultLocks (vector : UInt64) (redirected : Bool) : List Board.Spinlock :=
  [.scheduler, .scheduler] ++ printLocks redirected (if vector = 14 then 9 else 8) ++ [.scheduler]

def haltLocks (vector : UInt64) (redirected : Bool) : List Board.Spinlock :=
  .scheduler :: printLocks redirected (if vector = 14 then 2 else 1)

/-- Where the linker put what the context switch works on. The boot context has a stack
of its own. -/
structure KernelLayout where
  taskStacks : Nat
  rspAddr : Fin maxTasks → Nat
  bootRsp : Nat
  bootBase : Nat
  bootTop : Nat
  trampoline : UInt64
  iretTrampoline : UInt64
  positive : 0 < taskStacks
  aligned : taskStacks % 16 = 0
  fits : taskStacks + maxTasks * stackSize < 2 ^ 64
  rsp_apart : ∀ i, rspAddr i + 8 ≤ taskStacks ∨ taskStacks + maxTasks * stackSize ≤ rspAddr i
  rsp_fits : ∀ i, rspAddr i < 2 ^ 64
  boot_apart : bootRsp + 8 ≤ taskStacks ∨ taskStacks + maxTasks * stackSize ≤ bootRsp
  boot_fits : bootRsp < 2 ^ 64
  bootStack_apart : bootTop ≤ taskStacks ∨ taskStacks + maxTasks * stackSize ≤ bootBase

namespace KernelLayout

/-- The stack of a slot: `TASK_STACKS[id]`. -/
def stackBase (L : KernelLayout) (id : Nat) : Nat := L.taskStacks + id * stackSize

def stackTop (L : KernelLayout) (id : Nat) : Nat := L.stackBase id + stackSize

/-- `old_rsp_ptr` -/
def oldRsp (L : KernelLayout) (s : Scheduler) : Nat :=
  match s.currentIndex with
  | some i => L.rspAddr i
  | none => L.bootRsp

end KernelLayout

/-- The words `Task::new` puts on the stack, the highest first. -/
def kernelWords (trampoline entry : UInt64) : List UInt64 :=
  [0, trampoline, 0x202, 0, 0, 0, 0, 0, entry]

def userCode : UInt64 := 0x18 ||| 3
def userData : UInt64 := 0x20 ||| 3

/-- The words `Task::new_user` puts on the stack, the highest first. -/
def userWords (trampoline entry userStackTop : UInt64) : List UInt64 :=
  [userData, userStackTop, 0x202, userCode, entry, trampoline, 0x202, 0, 0, 0, 0, 0, 0]

def primeStack (m : Nat → UInt8) (top : Nat) : List UInt64 → Nat → UInt8
  | [] => m
  | v :: vs => primeStack (Lib.writeWord m (top - 8) v) (top - 8) vs

/-- The single core: the task table, the processor with memory, and the kernel stack that
the task state segment names. -/
structure Hardware where
  sched : Scheduler
  cpu : Processor
  rsp0 : UInt64

/-- `switch_context` has stored the stack pointer of the outgoing context in its task, or in
`BOOT_RSP`. -/
def Scheduler.saveCurrent (s decided : Scheduler) (sp : Nat) : Scheduler :=
  match s.currentIndex with
  | some i => decided.saveRsp i sp
  | none => decided

namespace Hardware

/-- The end of `yield_cpu` and `preempt_reschedule`: the decision, and the call of
`switch_context` from the return address `ret`. -/
def reschedule (L : KernelLayout) (b : Hardware) (decision : Scheduler × Option Switch) (ret : UInt64) :
    Hardware :=
  match decision.2 with
  | none => { b with sched := decision.1 }
  | some sw =>
    let old := L.oldRsp b.sched
    let cpu := callSwitch b.cpu (.ofNat old) (.ofNat sw.rsp) ret
    { sched := b.sched.saveCurrent decision.1 (Lib.readWord cpu.mem old).toNat
      cpu := cpu
      rsp0 := if sw.kstackTop ≠ 0 then .ofNat sw.kstackTop else b.rsp0 }

/-- The end of `terminate_current_task`: the stack pointer goes to a local of the dying
task. -/
def abandon (b : Hardware) (decision : Scheduler × Option Switch) (ret : UInt64) (dummy : Nat) : Hardware :=
  match decision.2 with
  | none => { b with sched := decision.1 }
  | some sw =>
    { sched := decision.1
      cpu := callSwitch b.cpu (.ofNat dummy) (.ofNat sw.rsp) ret
      rsp0 := if sw.kstackTop ≠ 0 then .ofNat sw.kstackTop else b.rsp0 }

/-- The processor takes an interrupt or a trap, and the stub has run up to the call of its
handler. -/
def enter (b : Hardware) (selector handler : UInt64) (stub : List Insn) : Hardware :=
  { b with cpu := (b.cpu.interrupt b.rsp0 selector handler).run stub }

def leave (b : Hardware) (stub : List Insn) : Hardware := { b with cpu := b.cpu.run stub }

/-- The processor raises an exception, with an error code if it has one, and the entry stub has
run up to the call of `exception_dispatch`. -/
def raise (b : Hardware) (e : Exception) (code selector handler : UInt64) : Hardware :=
  let p := b.cpu.interrupt b.rsp0 selector handler
  { b with cpu := (if e.hasCode then p.push code else p).run e.entry }

def switch (L : KernelLayout) (b : Hardware) (d : Decision) (ret : UInt64) (dummy : Nat) : Hardware :=
  match d with
  | .terminateCurrentTask => b.abandon (d.take b.sched) ret dummy
  | _ => b.reschedule L (d.take b.sched) ret

/-- `exception_dispatch`: the frame is copied into the running task, which is then terminated.
`cpu` is the processor as the code in between leaves it. The handler runs with interrupts off, so
on a lock that is `taken` it spins for ever: `none`. -/
def exceptionDispatch (L : KernelLayout) (b : Hardware) (taken : Board.Spinlock → Bool)
    (redirected : Bool) (cpu : Processor) (ret : UInt64) (dummy : Nat) : Option Hardware :=
  match b.sched.currentTaskId with
  | some id =>
    if (faultLocks (b.cpu.regs .rsi) redirected).any taken then none
    else
      let frame := ExceptionFrame.read b.cpu.mem (b.cpu.regs .rdi).toNat
      some (switch L { b with
        sched := b.sched.modify id (fun t => { t with faultRegisters := some frame })
        cpu := cpu } .terminateCurrentTask ret dummy)
  | none => if (haltLocks (b.cpu.regs .rsi) redirected).any taken then none else some b

/-- `sched.tasks[i] = Some(Task::new(..))` -/
def createKernel (L : KernelLayout) (b : Hardware) (i : Fin maxTasks) (entry : UInt64) (pml4 : Nat)
    (capTable : CapTable) : Hardware :=
  { b with
    sched := b.sched.set i (some (Task.new L.taskStacks pml4 i capTable))
    cpu := { b.cpu with
      mem := primeStack b.cpu.mem (L.stackTop i) (kernelWords L.trampoline entry) } }

/-- `sched.tasks[i] = Some(Task::new_user(..))` -/
def createUser (L : KernelLayout) (b : Hardware) (i : Fin maxTasks) (entry userStackTop : UInt64)
    (cr3 : Nat) (capTable : CapTable) : Hardware :=
  { b with
    sched := b.sched.set i (some (Task.newUser L.taskStacks i cr3 capTable))
    cpu := { b.cpu with
      mem := primeStack b.cpu.mem (L.stackTop i)
        (userWords L.iretTrampoline entry userStackTop) } }

end Hardware

def Scheduler.SameStacks (s s' : Scheduler) : Prop :=
  ∀ i t', s'.tasks i = some t' → ∃ t, s.tasks i = some t ∧ t'.id = t.id ∧ t'.rsp = t.rsp ∧
    t'.kstackTop = t.kstackTop

namespace KernelLayout

/-- Stack bytes that code running as `current` leaves alone: those of all other tasks, and
of its own stack what lies above its floor. -/
def Guarded (L : KernelLayout) (floor : Fin maxTasks → Nat) (current : Option TaskId) (a : Nat) :
    Prop :=
  ∃ i : Fin maxTasks, L.stackBase i ≤ a ∧ a < L.stackTop i ∧ (current = some i.val → floor i ≤ a)

/-- The running context can make the call: its stack pointer is within its own stack, below
its floor, and the context fits. -/
def Room (L : KernelLayout) (floor : Fin maxTasks → Nat) (current : Option TaskId) (sp : Nat) :
    Prop :=
  match current with
  | some id => ∃ i : Fin maxTasks, id = i.val ∧ L.stackBase i + 64 ≤ sp ∧ sp ≤ floor i ∧
      floor i ≤ L.stackTop i
  | none => L.bootBase + 64 ≤ sp ∧ sp ≤ L.bootTop

end KernelLayout

/-- What a step does to the contexts. A switch has the decision that led to it, the address
the outgoing context returns to and the task that goes on. -/
inductive HardwareEvent where
  | work
  | switch (d : Decision) (ret : UInt64) (next : Option (Fin maxTasks))
  | createKernel (i : Fin maxTasks) (entry : UInt64)
  | createUser (i : Fin maxTasks) (entry userStackTop : UInt64)

def HardwareEvent.Resumes (i : Fin maxTasks) : HardwareEvent → Prop
  | .switch _ _ next => next = some i
  | _ => False

def HardwareEvent.Creates (i : Fin maxTasks) : HardwareEvent → Prop
  | .createKernel j _ | .createUser j _ _ => j = i
  | _ => False

/-- The steps of the core. Code of the running context may compute anything and change the
task table in any way that moves no stack; it writes no guarded byte. -/
inductive Hardware.Step (L : KernelLayout) (floor : Fin maxTasks → Nat) :
    Hardware → HardwareEvent → Hardware → Prop where
  | work {b : Hardware} {sched : Scheduler} {cpu : Processor}
      (mem : ∀ a, L.Guarded floor b.sched.currentTaskId a → cpu.mem a = b.cpu.mem a)
      (kept : b.sched.SameStacks sched) (current : sched.currentTaskId = b.sched.currentTaskId) :
      Step L floor b .work { b with sched := sched, cpu := cpu }
  | switch {b : Hardware} (d : Decision) (ret : UInt64) (dummy : Nat)
      (room : L.Room floor b.sched.currentTaskId b.cpu.sp)
      (free : ∀ a, dummy ≤ a → a < dummy + 8 → ¬ L.Guarded floor b.sched.currentTaskId a)
      (fits : dummy < 2 ^ 64) :
      Step L floor b (.switch d ret ((d.take b.sched).2.map Switch.next)) (b.switch L d ret dummy)
  | createKernel {b : Hardware} (i : Fin maxTasks) (entry : UInt64) (pml4 : Nat) (capTable : CapTable)
      (other : b.sched.currentTaskId ≠ some i.val) :
      Step L floor b (.createKernel i entry) (b.createKernel L i entry pml4 capTable)
  | createUser {b : Hardware} (i : Fin maxTasks) (entry userStackTop : UInt64) (cr3 : Nat)
      (capTable : CapTable) (other : b.sched.currentTaskId ≠ some i.val) :
      Step L floor b (.createUser i entry userStackTop)
        (b.createUser L i entry userStackTop cr3 capTable)

end Runix
