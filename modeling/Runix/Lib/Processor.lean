import Runix.Lib.Bytes

namespace Runix.Lib

section Memory
variable {m m' : Nat → UInt8} {a b : Nat} {w : UInt64} {ws : List UInt64}

def readWord (m : Nat → UInt8) (a : Nat) : UInt64 :=
  UInt64.ofNat (ofLeBytes ((List.range 8).map (fun k => m (a + k))))

def writeWord (m : Nat → UInt8) (a : Nat) (w : UInt64) : Nat → UInt8 := fun b =>
  if a ≤ b ∧ b < a + 8 then (leBytes 8 w.toNat).getD (b - a) 0 else m b

theorem writeWord_outside (h : b < a ∨ a + 8 ≤ b) : writeWord m a w b = m b :=
  if_neg (by omega)

theorem readWord_congr (h : ∀ b, a ≤ b → b < a + 8 → m b = m' b) : readWord m a = readWord m' a := by
  have hbytes : (List.range 8).map (fun k => m (a + k)) = (List.range 8).map (fun k => m' (a + k)) := by
    apply List.map_congr_left
    intro k hk
    have hlt := List.mem_range.mp hk
    exact h (a + k) (by omega) (by omega)
  rw [readWord, readWord, hbytes]

@[simp] theorem readWord_writeWord : readWord (writeWord m a w) a = w := by
  have hbytes : (List.range 8).map (fun k => writeWord m a w (a + k)) = leBytes 8 w.toNat := by
    apply List.ext_getElem
    · simp
    · intro k hk hk'
      have hlt : k < 8 := by simpa using hk
      simp [writeWord, hlt]
  rw [readWord, hbytes, ofLeBytes_leBytes w.toNat_lt, UInt64.ofNat_toNat]

def Words (m : Nat → UInt8) (a : Nat) : List UInt64 → Prop
  | [] => True
  | w :: ws => readWord m a = w ∧ Words m (a + 8) ws

theorem Words.congr (h : Words m a ws) (hm : ∀ b, a ≤ b → b < a + 8 * ws.length → m b = m' b) :
    Words m' a ws := by
  induction ws generalizing a with
  | nil => trivial
  | cons w ws ih =>
    obtain ⟨hw, hws⟩ := h
    rw [List.length_cons] at hm
    refine ⟨?_, ih hws (fun b hlo hhi => hm b (by omega) (by omega))⟩
    rw [← hw]
    exact readWord_congr (fun b hlo hhi => (hm b hlo (by omega)).symm)

theorem Words.get (h : Words m a ws) (k : Fin ws.length) : readWord m (a + 8 * k) = ws.get k := by
  induction ws generalizing a with
  | nil => exact k.elim0
  | cons w ws ih =>
    obtain ⟨hw, hws⟩ := h
    cases k using Fin.cases with
    | zero => exact hw
    | succ k =>
      have haddr : a + 8 * k.succ.val = a + 8 + 8 * k.val := by
        rw [Fin.val_succ]
        omega
      rw [haddr]
      exact ih hws k

theorem words_append {vs : List UInt64} :
    Words m a (vs ++ ws) ↔ Words m a vs ∧ Words m (a + 8 * vs.length) ws := by
  induction vs generalizing a with
  | nil => simp [Words]
  | cons v vs ih =>
    have haddr : a + 8 + 8 * vs.length = a + 8 * (v :: vs).length := by
      rw [List.length_cons]
      omega
    rw [List.cons_append, Words, Words, ih, haddr, and_assoc]

end Memory

/-- What the processor keeps outside memory: general registers, instruction
pointer, flags and the two segment selectors that matter. -/
inductive Reg where
  | rax | rbx | rcx | rdx | rsi | rdi | rbp | rsp
  | r8 | r9 | r10 | r11 | r12 | r13 | r14 | r15
  | rip | rflags | cs | ss
  deriving DecidableEq

@[ext] structure Processor where
  regs : Reg → UInt64
  mem : Nat → UInt8

namespace Processor

def sp (p : Processor) : Nat := (p.regs .rsp).toNat

def set (p : Processor) (r : Reg) (v : UInt64) : Processor :=
  { p with regs := Function.update p.regs r v }

def push (p : Processor) (v : UInt64) : Processor :=
  { p.set .rsp (p.regs .rsp - 8) with mem := writeWord p.mem (p.regs .rsp - 8).toNat v }

def pop (p : Processor) (r : Reg) : Processor :=
  (p.set .rsp (p.regs .rsp + 8)).set r (readWord p.mem p.sp)

def iretq (p : Processor) : Processor :=
  ((((p.set .rip (readWord p.mem p.sp)).set .cs (readWord p.mem (p.sp + 8))).set .rflags
    (readWord p.mem (p.sp + 16))).set .rsp (readWord p.mem (p.sp + 24))).set .ss
      (readWord p.mem (p.sp + 32))

end Processor

inductive Insn where
  | push (r : Reg)
  | pushImm (v : UInt64)
  | pop (r : Reg)
  | mov (dst src : Reg)
  | store (base src : Reg)
  | load (dst base : Reg) (disp : Nat)
  | addImm (dst : Reg) (v : UInt64)
  | sti
  | jmp (r : Reg)
  | iretq

namespace Insn

def pushfq : Insn := .push .rflags
def popfq : Insn := .pop .rflags
def ret : Insn := .pop .rip

def interruptFlag : UInt64 := 0x200

def exec (p : Processor) : Insn → Processor
  | .push r => p.push (p.regs r)
  | .pushImm v => p.push v
  | .pop r => p.pop r
  | .mov dst src => p.set dst (p.regs src)
  | .store base src => { p with mem := writeWord p.mem (p.regs base).toNat (p.regs src) }
  | .load dst base disp => p.set dst (readWord p.mem ((p.regs base).toNat + disp))
  | .addImm dst v => p.set dst (p.regs dst + v)
  | .sti => p.set .rflags (p.regs .rflags ||| interruptFlag)
  | .jmp r => p.set .rip (p.regs r)
  | .iretq => p.iretq

end Insn

namespace Processor

def clearedFlags : UInt64 := 0x14300

/-- Where an interrupt frame is put: on the kernel stack `rsp0` when it comes from
ring 3, on the stack in use otherwise, aligned in both cases. -/
def frameTop (p : Processor) (rsp0 : UInt64) : UInt64 :=
  let top := if p.regs .cs &&& 3 = 3 then rsp0 else p.regs .rsp
  top - top % 16

def frameRegs : List Reg := [.ss, .rsp, .rflags, .cs, .rip]

def interrupt (p : Processor) (rsp0 selector handler : UInt64) : Processor :=
  let q := (frameRegs.map p.regs).foldl push (p.set .rsp (p.frameTop rsp0))
  (((q.set .rflags (p.regs .rflags &&& ~~~clearedFlags)).set .cs selector).set .rip handler).set .ss
    (if p.regs .cs &&& 3 = 3 then 0 else p.regs .ss)

variable {p q : Processor} {r : Reg} {v : UInt64} {rs : List Reg}

def run (code : List Insn) (p : Processor) : Processor := code.foldl Insn.exec p

theorem run_append (c d : List Insn) : p.run (c ++ d) = (p.run c).run d := List.foldl_append

theorem run_cons (i : Insn) (c : List Insn) : p.run (i :: c) = (Insn.exec p i).run c := rfl

@[simp] theorem set_mem : (p.set r v).mem = p.mem := rfl

@[simp] theorem set_same : (p.set r v).regs r = v := Function.update_self ..

theorem set_other {s : Reg} (h : s ≠ r) : (p.set r v).regs s = p.regs s := Function.update_of_ne h ..

theorem set_sp (h : r ≠ .rsp) : (p.set r v).sp = p.sp := by
  rw [sp, set_other h.symm]
  rfl

theorem push_sp (h : 8 ≤ p.sp) : (p.push v).sp = p.sp - 8 := by
  have hle : (8 : UInt64) ≤ p.regs .rsp := UInt64.le_iff_toNat_le.mpr h
  simp only [push, sp, set_same]
  exact UInt64.toNat_sub_of_le _ _ hle

theorem push_other (h : r ≠ .rsp) : (p.push v).regs r = p.regs r := set_other h

/-- What pushing some values does: they lie below the old top of the stack, the
last one first, and nothing else has changed. -/
structure Pushed (p : Processor) (vs : List UInt64) (q : Processor) : Prop where
  sp : q.sp + 8 * vs.length = p.sp
  words : Words q.mem q.sp vs.reverse
  regs : ∀ r, r ≠ .rsp → q.regs r = p.regs r
  mem : ∀ b, b < q.sp ∨ p.sp ≤ b → q.mem b = p.mem b

theorem Pushed.refl (p : Processor) : Pushed p [] p :=
  ⟨rfl, trivial, fun _ _ => rfl, fun _ _ => rfl⟩

theorem Pushed.push {vs : List UInt64} (h : Pushed p vs q) (hroom : 8 ≤ q.sp) :
    Pushed p (vs ++ [v]) (q.push v) := by
  have hsp := push_sp (v := v) hroom
  have htop : (q.push v).mem = writeWord q.mem (q.sp - 8) v := by
    rw [← hsp]
    simp only [Processor.push, Processor.sp, set_same]
  have hlen := h.sp
  refine ⟨?_, ?_, fun r hr => (push_other hr).trans (h.regs r hr), fun b hb => ?_⟩
  · rw [hsp, List.length_append, List.length_singleton]
    omega
  · rw [List.reverse_append, List.reverse_singleton, List.singleton_append, htop, hsp]
    refine ⟨readWord_writeWord, ?_⟩
    rw [Nat.sub_add_cancel hroom]
    exact h.words.congr (fun b hlo _ => (writeWord_outside (by omega)).symm)
  · rw [htop, writeWord_outside (by omega)]
    exact h.mem b (by omega)

/-- One push after another. -/
theorem Pushed.trans {vs ws : List UInt64} {s : Processor} (h : Pushed p vs q) (h' : Pushed q ws s) :
    Pushed p (vs ++ ws) s := by
  have hsp := h.sp
  have hsp' := h'.sp
  refine ⟨?_, ?_, fun r hr => (h'.regs r hr).trans (h.regs r hr), fun b hb => ?_⟩
  · rw [List.length_append]
    omega
  · rw [List.reverse_append, words_append, List.length_reverse, hsp']
    refine ⟨h'.words, h.words.congr (fun b hlo hhi => (h'.mem b (.inr hlo)).symm)⟩
  · rw [h'.mem b (by omega), h.mem b (by omega)]

/-- Pushing registers. -/
theorem pushed_run (rs : List Reg) (hrs : .rsp ∉ rs) (hroom : 8 * rs.length ≤ p.sp) :
    Pushed p (rs.map p.regs) (p.run (rs.map .push)) := by
  induction rs generalizing p with
  | nil => exact .refl p
  | cons r rs ih =>
    rw [List.length_cons] at hroom
    have hpush : Pushed p [p.regs r] (p.push (p.regs r)) := (Pushed.refl p).push (by omega)
    have hrest : rs.map (p.push (p.regs r)).regs = rs.map p.regs := by
      apply List.map_congr_left
      intro s hs
      exact push_other (fun heq => hrs (List.mem_cons_of_mem _ (heq ▸ hs)))
    have htail := ih (p := p.push (p.regs r)) (fun hin => hrs (List.mem_cons_of_mem _ hin))
      (by rw [push_sp (by omega)]; omega)
    rw [hrest] at htail
    exact hpush.trans htail

theorem run_pop_mem (p : Processor) (rs : List Reg) : (p.run (rs.map .pop)).mem = p.mem := by
  induction rs generalizing p with
  | nil => rfl
  | cons r rs ih => exact ih _

/-- Popping registers: they take the words on top of the stack in turn. -/
theorem run_pop (rs : List Reg) {ws : List UInt64} (hrs : .rsp ∉ rs) (hnodup : rs.Nodup)
    (hws : Words p.mem p.sp ws) (hlen : ws.length = rs.length)
    (hfits : p.sp + 8 * rs.length < 2 ^ 64) :
    (p.run (rs.map .pop)).sp = p.sp + 8 * rs.length ∧
      rs.map (p.run (rs.map .pop)).regs = ws ∧
      ∀ r, r ∉ rs → r ≠ .rsp → (p.run (rs.map .pop)).regs r = p.regs r := by
  induction rs generalizing p ws with
  | nil =>
    cases ws with
    | nil => exact ⟨rfl, rfl, fun _ _ _ => rfl⟩
    | cons => cases hlen
  | cons r rs ih =>
    cases ws with
    | nil => cases hlen
    | cons w ws =>
      obtain ⟨hw, hws⟩ := hws
      rw [List.length_cons] at hfits
      have hr : r ≠ .rsp := fun heq => hrs (heq ▸ List.mem_cons_self)
      have hnotin : r ∉ rs := (List.nodup_cons.mp hnodup).1
      have hsp : (p.pop r).sp = p.sp + 8 := by
        rw [pop, set_sp hr]
        simp only [Processor.sp, set_same, UInt64.toNat_add]
        have hlt := (p.regs .rsp).toNat_lt
        have height : (8 : UInt64).toNat = 8 := rfl
        simp only [Processor.sp] at hfits
        omega
      have hmem : (p.pop r).mem = p.mem := rfl
      rw [← hmem, ← hsp] at hws
      obtain ⟨hs, hregs, hrest⟩ := ih (fun hin => hrs (List.mem_cons_of_mem _ hin))
        (List.nodup_cons.mp hnodup).2 hws (Nat.succ.inj hlen) (by omega)
      simp only [List.map_cons, run_cons, Insn.exec, List.length_cons]
      refine ⟨by omega, ?_, fun s hs hne => ?_⟩
      · rw [hregs, hrest r hnotin hr, ← hw]
        exact congrArg (· :: ws) set_same
      · rw [List.mem_cons, not_or] at hs
        rw [hrest s hs.2 hne, pop, set_other hs.1, set_other hne]

theorem frameTop_toNat (p : Processor) (rsp0 : UInt64) :
    (p.frameTop rsp0).toNat = (if p.regs .cs &&& 3 = 3 then rsp0.toNat else p.sp) / 16 * 16 := by
  have halign : ∀ x : UInt64, (x - x % 16).toNat = x.toNat / 16 * 16 := by
    intro x
    have hmod : (x % 16).toNat = x.toNat % 16 := UInt64.toNat_mod ..
    have hle : x % 16 ≤ x := UInt64.le_iff_toNat_le.mpr (by omega)
    rw [UInt64.toNat_sub_of_le _ _ hle, hmod]
    omega
  rw [frameTop, halign]
  split <;> rfl

theorem pushed_foldl (vs : List UInt64) (hroom : 8 * vs.length ≤ p.sp) :
    Pushed p vs (vs.foldl push p) := by
  induction vs generalizing p with
  | nil => exact .refl p
  | cons v vs ih =>
    rw [List.length_cons] at hroom
    have hpush : Pushed p [v] (p.push v) := (Pushed.refl p).push (by omega)
    exact hpush.trans (ih (by rw [push_sp (by omega)]; omega))

/-- What a handler finds after some values were pushed on a stack that starts at `top`:
the general registers are still those of the interrupted code. -/
structure Entered (p : Processor) (top : Nat) (vs : List UInt64) (c : Processor) : Prop where
  sp : c.sp + 8 * vs.length = top
  words : Words c.mem c.sp vs.reverse
  regs : ∀ r, r ∉ frameRegs → c.regs r = p.regs r
  mem : ∀ b, b < c.sp ∨ top ≤ b → c.mem b = p.mem b

theorem Entered.pushed {top : Nat} {vs ws : List UInt64} {c d : Processor} (h : Entered p top vs c)
    (h' : Pushed c ws d) : Entered p top (vs ++ ws) d := by
  have hsp := h.sp
  have hsp' := h'.sp
  refine ⟨?_, ?_, fun r hr => ?_, fun b hb => ?_⟩
  · rw [List.length_append]
    omega
  · rw [List.reverse_append, words_append, List.length_reverse, hsp']
    exact ⟨h'.words, h.words.congr (fun b hlo hhi => (h'.mem b (.inr hlo)).symm)⟩
  · rw [h'.regs r (fun heq => hr (heq ▸ by decide)), h.regs r hr]
  · rw [h'.mem b (by omega), h.mem b (by omega)]

theorem Entered.run {top : Nat} {vs : List UInt64} {c : Processor} (h : Entered p top vs c)
    (rs : List Reg) (hrs : ∀ r ∈ rs, r ∉ frameRegs) (hroom : 8 * rs.length ≤ c.sp) :
    Entered p top (vs ++ rs.map p.regs) (c.run (rs.map .push)) := by
  have hsame : rs.map c.regs = rs.map p.regs :=
    List.map_congr_left (fun r hr => h.regs r (hrs r hr))
  have hpushed := pushed_run rs (fun hin => hrs _ hin (by decide)) hroom
  rw [hsame] at hpushed
  exact h.pushed hpushed

/-- The frame lies on top of the stack. -/
theorem entered_interrupt {rsp0 selector handler : UInt64} (hroom : 40 ≤ (p.frameTop rsp0).toNat) :
    Entered p (p.frameTop rsp0).toNat (frameRegs.map p.regs) (p.interrupt rsp0 selector handler) := by
  have hsp : (p.set .rsp (p.frameTop rsp0)).sp = (p.frameTop rsp0).toNat := by
    rw [Processor.sp, set_same]
  have hlen : (frameRegs.map p.regs).length = 5 := List.length_map ..
  have hpushed := pushed_foldl (p := p.set .rsp (p.frameTop rsp0)) (frameRegs.map p.regs)
    (by rw [hsp, hlen]; exact hroom)
  have hbase : (p.interrupt rsp0 selector handler).sp =
      ((frameRegs.map p.regs).foldl push (p.set .rsp (p.frameTop rsp0))).sp := by
    simp only [interrupt]
    rw [set_sp (by decide), set_sp (by decide), set_sp (by decide), set_sp (by decide)]
  have hmem : (p.interrupt rsp0 selector handler).mem =
      ((frameRegs.map p.regs).foldl push (p.set .rsp (p.frameTop rsp0))).mem := by
    simp only [interrupt, set_mem]
  have htop := hpushed.sp
  rw [hsp] at htop
  refine ⟨?_, ?_, fun r hr => ?_, fun b hb => ?_⟩
  · rw [hbase, htop]
  · rw [hbase, hmem]
    exact hpushed.words
  · simp only [frameRegs, List.mem_cons, List.not_mem_nil, or_false, not_or] at hr
    simp only [interrupt]
    rw [set_other hr.1, set_other hr.2.2.2.2, set_other hr.2.2.2.1, set_other hr.2.2.1,
      hpushed.regs r hr.2.1, set_other hr.2.1]
  · rw [hmem]
    rw [hbase, ← hsp] at hb
    exact hpushed.mem b hb

/-- Leaving an interrupt restores what the frame says and touches nothing else. -/
theorem iretq_words {ws : List UInt64} (h : Words p.mem p.sp ws) (hlen : ws.length = 5) :
    [Reg.rip, .cs, .rflags, .rsp, .ss].map p.iretq.regs = ws ∧ p.iretq.mem = p.mem ∧
      ∀ r, r ∉ frameRegs → p.iretq.regs r = p.regs r := by
  match ws, hlen with
  | [a, b, c, d, e], _ =>
    obtain ⟨ha, hb, hc, hd, he, _⟩ := h
    refine ⟨?_, rfl, fun r hr => ?_⟩
    · simp [iretq, set, ha, hb, hc, hd, he]
    · simp only [frameRegs, List.mem_cons, List.not_mem_nil, or_false, not_or] at hr
      simp only [iretq]
      rw [set_other hr.1, set_other hr.2.1, set_other hr.2.2.1, set_other hr.2.2.2.1,
        set_other hr.2.2.2.2]

/-- The end of a handler: it pops the registers it saved and leaves the interrupt. The
registers are then the words that lay on the stack. -/
theorem leave_regs (regs : Reg → UInt64) (hrs : ∀ r ∈ rs, r ∉ frameRegs) (hnodup : rs.Nodup)
    (hall : ∀ r, r ∈ rs ∨ r ∈ frameRegs)
    (hws : Words p.mem p.sp (rs.map regs ++ (frameRegs.map regs).reverse))
    (hfits : p.sp + 8 * rs.length < 2 ^ 64) :
    (p.run (rs.map .pop ++ [.iretq])).regs = regs ∧
      (p.run (rs.map .pop ++ [.iretq])).mem = p.mem := by
  rw [words_append, List.length_map] at hws
  have hrsp : .rsp ∉ rs := fun hin => hrs _ hin (by decide)
  obtain ⟨hsp, hregs, _⟩ := run_pop rs hrsp hnodup hws.1 (List.length_map _) hfits
  have hmem := p.run_pop_mem rs
  have hvs : Words (p.run (rs.map .pop)).mem (p.run (rs.map .pop)).sp (frameRegs.map regs).reverse := by
    rw [hmem, hsp]
    exact hws.2
  obtain ⟨hframe, hmem', hkept⟩ := iretq_words hvs rfl
  have hrun : p.run (rs.map .pop ++ [.iretq]) = (p.run (rs.map .pop)).iretq := run_append ..
  rw [hrun]
  refine ⟨funext (fun r => ?_), hmem'.trans hmem⟩
  rcases hall r with hr | hr
  · rw [hkept r (hrs r hr)]
    exact List.map_inj_left.mp hregs r hr
  · have hback : frameRegs.reverse.map (p.run (rs.map .pop)).iretq.regs = frameRegs.reverse.map regs :=
      hframe.trans List.map_reverse.symm
    exact List.map_inj_left.mp hback r (List.mem_reverse.mpr hr)

end Processor

end Runix.Lib
