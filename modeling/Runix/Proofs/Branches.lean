import Runix.Branches
import Runix.Proofs.Operand
import Runix.Proofs.Recall
import Runix.Proofs.Shell

namespace Runix

def Ran.Refuses (ran : Ran) (s : System) (hist : History) : Prop :=
  ∃ r : Reply, r.isFailure = true ∧ ran = ⟨s, hist, [.reply r], none⟩

def CapTable.Holds (t : CapTable) (wanted : Resource → Bool) : Prop :=
  ∃ i cap, t.slots i = some cap ∧ wanted cap.resource = true

def LogReplyFits (payload : Vector UInt8 128) : Prop :=
  26 + Lib.ofLeBytes ((payload.toList.take 26).drop 18) ≤ 128

def DrainFits : List Exchange → Prop
  | .reply msg :: exchanges =>
    replyByte msg.payload 0 = 0 → LogReplyFits msg.payload ∧ DrainFits exchanges
  | _ => True

def TailTick.Quits (tick : TailTick) : Prop := tick.key = some 113 ∨ tick.key = some 81

def TailFits (reads : Nat → Prop) (s : System) : List TailTick → Prop
  | [] => True
  | tick :: ticks =>
    ¬ tick.Quits → (∃ i, (tick.meanwhile s).kernel.sched.shellChannel .log = some (some i)) →
      (∀ kind < 16, reads kind → DrainFits (tick.exchanges kind)) ∧
        TailFits reads (tick.meanwhile s) ticks

def CapTable.ReadsLog (t : CapTable) (kind : Nat) : Prop :=
  ∃ i cap k w, t.slots i = some cap ∧ cap.resource = .logChannel k true w ∧ cap.read = true ∧
    k.toNat = kind

def Env.KeepsShell (env : Env) : Prop :=
  ∀ tick ∈ env.ticks, ∀ s : System, (s.kernel.sched.getTask 64).isSome = true →
    ((tick.meanwhile s).kernel.sched.getTask 64).isSome = true

def ClientCommand.OutOfRange : ClientCommand → Prop
  | .kvSet tok2 _ | .kvGet tok2 => Unfit tok2 (· < 32)
  | .logPublish tok2 _ | .logRead tok2 => Unfit tok2 (· < 16)
  | _ => False

def GrantCommand.OutOfRange (k : Kernel) : GrantCommand → Prop
  | .cap tok2 => Unfit tok2 (· < maxCaps)
  | .kv tok2 tok3 => Unfit tok2 (· < 32) ∨ Unfit tok3 k.HasRoom
  | .log tok2 tok3 => Unfit tok2 (· < 16) ∨ Unfit (logTarget tok3) k.HasRoom

def RevokeCommand.OutOfRange : RevokeCommand → Prop
  | .cap tok2 => Unfit tok2 (· < maxCaps)
  | .kv tok2 => Unfit tok2 (· < 32)
  | .log tok2 => Unfit tok2 (· < 16)

def ClientCommand.Safe (shell : CapTable) (exchange : Exchange) : ClientCommand → Prop
  | .logRead tok2 => ∀ n msg, parseUsize tok2 = some n → n < 16 →
      shell.Holds (Resource.isChannel Service.log.task) → exchange = .reply msg →
      replyByte msg.payload 0 = 0 → LogReplyFits msg.payload
  | _ => True

structure LogOperands (tok2 tok3 : List UInt8) (kind target : Nat) : Prop where
  number : parseUsize tok2 = some kind
  lt : kind < 16
  split : (logTarget tok3).length ≠ tok3.length
  rights : logRights tok3 ≠ []
  aim : parseUsize (logTarget tok3) = some target

/-- What makes a grant safe: if the shell has the capability, the slot must be one of the
store's and the target must have room. -/
def GrantCommand.Safe (shell : CapTable) (k : Kernel) : GrantCommand → Prop
  | .cap _ => True
  | .kv tok2 tok3 => ∀ slot target, parseUsize tok2 = some slot → parseUsize tok3 = some target →
      shell.Holds (Resource.isKv slot) → slot < 32 ∧ k.HasRoom target
  | .log tok2 tok3 => ∀ kind target, LogOperands tok2 tok3 kind target →
      shell.Holds (Resource.isLog (UInt8.ofNat kind)) → k.HasRoom target

/-- What makes a revocation safe: a number out of range, cut to a byte for a log, must not
lead to a capability of the shell. -/
def RevokeCommand.Safe (shell : CapTable) : RevokeCommand → Prop
  | .cap _ => True
  | .kv tok2 => ∀ slot, parseUsize tok2 = some slot → 32 ≤ slot → ¬ shell.Holds (Resource.isKv slot)
  | .log tok2 => ∀ kind, parseUsize tok2 = some kind → 16 ≤ kind →
      ¬ shell.Holds (Resource.isLog (UInt8.ofNat kind))

namespace Branch

def OutOfRange (s : System) (hist : History) : Branch → Prop
  | .capSeal tok2 => Unfit tok2 (· < maxCaps)
  | .faultCascade tok2 | .ipcStress tok2 => Unfit tok2 (fun n => 1 ≤ n ∧ n ≤ 8)
  | .ipcSend tok2 _ => Unfit tok2 (· = 65)
  | .ipcTyped tok2 _ => Unfit tok2 (· ≤ 3)
  | .history tok1 => tok1 ≠ [] ∧ Unfit tok1 (· < hist.count)
  | .client cmd => cmd.OutOfRange
  | .grant cmd => cmd.OutOfRange s.kernel
  | .revoke cmd => cmd.OutOfRange
  | _ => False

/-- The branch does not panic, and a number out of range is reported and changes
nothing. -/
def Answers (b : Branch) (s : System) (hist : History) (env : Env) : Prop :=
  ∃ ran, b.run s hist env = some ran ∧ (b.OutOfRange s hist → ran.Refuses s hist)

def Safe (shell : CapTable) (s : System) (env : Env) : Branch → Prop
  | .ipcSend tok2 _ => ∀ msg, parseUsize tok2 = some 65 → env.exchange = .reply msg →
      env.elapsed.toNat * 10 < 2 ^ 64
  | .ipcTyped tok2 _ => ∀ n msg, parseUsize tok2 = some n → n ≤ 3 → env.exchange = .reply msg →
      msg.len ≤ 128
  | .client cmd => cmd.Safe shell env.exchange
  | .grant cmd => cmd.Safe shell s.kernel
  | .revoke cmd => cmd.Safe shell
  | .logTail => (∀ kind, shell.ReadsLog kind → kind < 16) ∧
      TailFits shell.ReadsLog (s.ensureService .log) env.ticks
  | _ => True

end Branch

section Tables
variable {t : CapTable} {wanted : Resource → Bool}

theorem CapTable.firstSlot_holds : (∃ i, t.firstSlot wanted = some i) ↔ t.Holds wanted := by
  constructor
  · rintro ⟨i, hi⟩
    obtain ⟨c, hc, hw⟩ := firstSlot_some hi
    exact ⟨i, c, hc, hw⟩
  · rintro ⟨i, c, hc, hw⟩
    apply Option.isSome_iff_exists.mp
    apply List.find?_isSome.mpr
    exact ⟨i, List.mem_finRange i, by simp [hc, hw]⟩

theorem CapTable.firstCap_holds (h : t.Holds wanted) : ∃ c, t.firstCap wanted = some c := by
  obtain ⟨i, hi⟩ := firstSlot_holds.mpr h
  obtain ⟨c, hc, _⟩ := firstSlot_some hi
  exact ⟨c, by rw [firstCap, hi, Option.bind_some, hc]⟩

theorem CapTable.firstSlot_none (h : ¬ t.Holds wanted) : t.firstSlot wanted = none := by
  cases hi : t.firstSlot wanted with
  | none => rfl
  | some i => exact absurd (firstSlot_holds.mp ⟨i, hi⟩) h

theorem CapTable.firstCap_none (h : ¬ t.Holds wanted) : t.firstCap wanted = none := by
  rw [firstCap, firstSlot_none h, Option.bind_none]

theorem unfit_iff {tok : List UInt8} {ok : Nat → Prop} {n : Nat} (h : parseUsize tok = some n) :
    Unfit tok ok ↔ ¬ ok n := ⟨fun hu => hu n h, unfit_of_some h⟩

theorem not_unfit {tok : List UInt8} {ok : Nat → Prop} {n : Nat} (h : parseUsize tok = some n)
    (hn : ok n) : ¬ Unfit tok ok := fun hu => hu n h hn

end Tables

namespace Branch
variable {b : Branch} {s : System} {hist : History} {env : Env} {shell : Task}

theorem answers_of_refusal (hrun : ∃ r : Reply, b.run s hist env = some ⟨s, hist, [.reply r], none⟩ ∧
    r.isFailure = true) : b.Answers s hist env := by
  obtain ⟨r, hran, hr⟩ := hrun
  exact ⟨_, hran, fun _ => ⟨r, hr, rfl⟩⟩

theorem answers_of_fit (hrun : ∃ ran, b.run s hist env = some ran)
    (hfit : ¬ b.OutOfRange s hist) : b.Answers s hist env := by
  obtain ⟨ran, hran⟩ := hrun
  exact ⟨ran, hran, fun hout => absurd hout hfit⟩

/-- A branch that reads one number and checks it first. -/
theorem answers_checked (tok : List UInt8) (ok : Nat → Prop)
    (hout : ¬ Unfit tok ok → ¬ b.OutOfRange s hist)
    (hbad : parseUsize tok = none →
      b.run s hist env = some ⟨s, hist, [.reply (.badNumber tok)], none⟩)
    (hrefused : ∀ n, parseUsize tok = some n → ¬ ok n →
      ∃ text, b.run s hist env = some ⟨s, hist, [.reply (.fail text)], none⟩) :
    b.Answers s hist env ↔
      ∀ n, parseUsize tok = some n → ok n → ∃ ran, b.run s hist env = some ran := by
  constructor
  · rintro ⟨ran, hran, _⟩ n _ _
    exact ⟨ran, hran⟩
  · intro hrun
    cases hparse : parseUsize tok with
    | none => exact answers_of_refusal ⟨_, hbad hparse, rfl⟩
    | some n =>
      by_cases hn : ok n
      · exact answers_of_fit (hrun n hparse hn) (hout (not_unfit hparse hn))
      · obtain ⟨text, hran⟩ := hrefused n hparse hn
        exact answers_of_refusal ⟨_, hran, rfl⟩

section Cap

theorem capList_answers (h : s.kernel.sched.getTask 64 = some shell) :
    Branch.capList.Answers s hist env := by
  refine answers_of_fit ?_ id
  simp only [run, runCapList, Kernel.getShellCaps_eq h, Option.bind_some, prints]
  exact ⟨_, rfl⟩

theorem capSeal_answers (h : s.kernel.sched.getTask 64 = some shell) (tok2 : List UInt8) :
    (Branch.capSeal tok2).Answers s hist env := by
  refine (answers_checked tok2 (· < maxCaps) id ?_ ?_).mpr ?_
  · intro hparse
    simp only [run, runCapSeal, hparse, prints]
  · intro n hparse hn
    simp only [run, runCapSeal, hparse, if_pos (Nat.not_lt.mp hn), refuses, prints]
    exact ⟨_, rfl⟩
  · intro n hparse hn
    simp only [run, runCapSeal, hparse, if_neg (Nat.not_le.mpr hn), h, Option.bind_some,
      Lib.index_of_lt hn]
    cases shell.capTable.slots ⟨n, hn⟩ with
    | none => exact ⟨_, rfl⟩
    | some cap =>
      simp only [Lib.assign_of_lt hn, Option.bind_some]
      exact ⟨_, rfl⟩

theorem dump_total (log : AuditLog) : ∃ out, log.dump = some out := by
  obtain ⟨events, hevents⟩ := Lib.mapM_total
    (f := fun i => (Lib.index log.buffer
      (((if log.total > auditCapacity then log.next.val else 0) + i) % auditCapacity)).map
        (fun ev => ev.map (Output.event i)))
    (List.range (if log.total > auditCapacity then auditCapacity else log.total))
    (fun i _ => ⟨_, by rw [Lib.index_of_lt (Nat.mod_lt _ (by decide)), Option.map_some]⟩)
  simp only [AuditLog.dump, hevents, Option.bind_eq_bind, Option.bind_some]
  exact ⟨_, rfl⟩

theorem capAudit_answers : Branch.capAudit.Answers s hist env := by
  obtain ⟨out, hout⟩ := dump_total s.kernel.audit
  refine answers_of_fit ?_ id
  simp only [run, runCapAudit, hout, Option.bind_some, prints]
  exact ⟨_, rfl⟩

end Cap

-- What these branches do to the task slots is what the console's sections do.
section Slots
variable (sh : Shell) (cmd : Command)

theorem assignTask_eq (s : System) (i : Fin maxTasks) (table : CapTable) :
    s.assignTask i table = some (s.spawn i table) := dif_pos i.isLt

theorem isGone_total (s : System) (slot : Nat) (h : slot < maxTasks) :
    ∃ gone, s.isGone slot = some gone := by
  rw [System.isGone, Lib.index_of_lt h]
  exact ⟨_, rfl⟩

theorem vacateTask_eq (i : Fin maxTasks) :
    sh.system.vacateTask i = some (sh.clearOccupied cmd i).system := by
  simp only [System.vacateTask, Lib.index_of_lt i.isLt, Lib.assign_of_lt i.isLt,
    Shell.clearOccupied, Option.bind_eq_bind, Option.bind_some]
  change (if (sh.tasks i).isSome then _ else _) = _
  split <;> rfl

theorem ensureEcho_eq : sh.system.ensureEcho = some (sh.ensure cmd .echo).system := by
  simp only [System.ensureEcho, Lib.index_of_lt (show 65 < maxTasks by decide), Shell.ensure,
    Option.bind_eq_bind, Option.bind_some]
  change (if (sh.tasks Standing.echo.slot).isNone then _ else _) = _
  split
  · exact assignTask_eq _ Standing.echo.slot _
  · rfl

theorem faults_eq {n : Nat} (hn : n ≤ 8) :
    (List.range n).foldlM (fun s i => System.assignTask s (72 + i) CapTable.new) sh.system =
      some (sh.launch cmd ⟨[], slotsFrom 72 n, .fault⟩).system := by
  induction n with
  | zero => rfl
  | succ n ih =>
    have hlt : 72 + n < maxTasks := by unfold maxTasks; omega
    rw [List.range_succ, List.foldlM_append, ih (by omega), slotsFrom_succ hlt]
    simp only [Shell.launch, List.foldl_append, Option.bind_eq_bind, Option.bind_some,
      List.foldlM_cons, assignTask_eq _ ⟨72 + n, hlt⟩]
    rfl

/-- The branch makes both tables before it assigns the tasks. -/
theorem stressPair_eq {i : Nat} (h : i < 8) :
    sh.system.stressPair i = some ((sh.launch cmd ⟨[System.rootCap (.ipcChannel (74 + 2 * i)) false],
      slotsFrom (73 + 2 * i) 1, .stressWorker⟩).launch cmd
        ⟨[System.rootCap (.ipcChannel (73 + 2 * i)) false],
          slotsFrom (74 + 2 * i) 1, .stressWorker⟩).system := by
  have hinit : 73 + 2 * i < maxTasks := by unfold maxTasks; omega
  have hrepl : 74 + 2 * i < maxTasks := by unfold maxTasks; omega
  change (System.assignTask _ (73 + 2 * i) _).bind (fun s => s.assignTask (74 + 2 * i) _) = _
  rw [assignTask_eq _ ⟨73 + 2 * i, hinit⟩, Option.bind_some, assignTask_eq _ ⟨74 + 2 * i, hrepl⟩,
    slotsFrom_one hinit, slotsFrom_one hrepl]
  rfl

theorem stressPairs_eq {n : Nat} (hn : n ≤ 8) :
    (List.range n).foldlM System.stressPair sh.system =
      some ((Command.stressBatch n).foldl (fun sh l => sh.launch cmd l) sh).system := by
  induction n with
  | zero => rfl
  | succ n ih =>
    rw [List.range_succ, List.foldlM_append, ih (by omega)]
    simp only [Option.bind_eq_bind, Option.bind_some, List.foldlM_cons, stressPair_eq _ cmd hn,
      Command.stressBatch, List.range_succ, List.flatMap_append, List.flatMap_singleton,
      List.foldl_append]
    rfl

theorem vacatePairs_eq {n : Nat} (hn : n ≤ 8) :
    (List.range n).foldlM System.vacatePair sh.system =
      some ((slotsFrom 73 (2 * n)).foldl (fun sh i => sh.clearOccupied cmd i) sh).system := by
  induction n with
  | zero => rfl
  | succ n ih =>
    have hinit : 73 + 2 * n < maxTasks := by unfold maxTasks; omega
    have hrepl : 73 + (2 * n + 1) < maxTasks := by unfold maxTasks; omega
    rw [List.range_succ, List.foldlM_append, ih (by omega), Nat.mul_succ, slotsFrom_succ hrepl,
      slotsFrom_succ hinit, List.foldl_append, List.foldl_append]
    simp only [Option.bind_eq_bind, Option.bind_some, List.foldlM_cons, System.vacatePair,
      vacateTask_eq _ cmd ⟨_, hinit⟩, show 74 + 2 * n = 73 + (2 * n + 1) by omega,
      vacateTask_eq _ cmd ⟨_, hrepl⟩]
    rfl

theorem faultSpawn_answers : Branch.faultSpawn.Answers s hist env := by
  have hlt : 71 < maxTasks := by decide
  have hs₁ := assignTask_eq s ⟨71, hlt⟩ CapTable.new
  obtain ⟨gone, hgone⟩ := isGone_total (env.meanwhile (s.spawn ⟨71, hlt⟩ CapTable.new)) 71 hlt
  refine answers_of_fit ?_ id
  simp only [run, runFaultSpawn, hs₁, hgone, Option.bind_eq_bind, Option.bind_some]
  exact ⟨_, rfl⟩

theorem faultCascade_answers (tok2 : List UInt8) : (Branch.faultCascade tok2).Answers s hist env := by
  refine (answers_checked tok2 (fun n => 1 ≤ n ∧ n ≤ 8) id ?_ ?_).mpr ?_
  · intro hparse
    simp only [run, runFaultCascade, hparse, prints]
  · intro n hparse hn
    simp only [run, runFaultCascade, hparse, if_pos hn, refuses, prints]
    exact ⟨_, rfl⟩
  · intro n hparse hn
    obtain ⟨s₁, hs₁⟩ : ∃ s₁, (List.range n).foldlM
        (fun s i => System.assignTask s (72 + i) CapTable.new) s = some s₁ :=
      ⟨_, faults_eq (.boot s) (.faultCascade tok2) hn.2⟩
    obtain ⟨lines, hlines⟩ := Lib.mapM_total
      (f := fun i => ((env.meanwhile s₁).isGone (72 + i)).map (containedLine (72 + i)))
      (List.range n) (fun i hi => by
        have hin := List.mem_range.mp hi
        obtain ⟨gone, hgone⟩ := isGone_total (env.meanwhile s₁) (72 + i) (by unfold maxTasks; omega)
        exact ⟨_, by rw [hgone, Option.map_some]⟩)
    simp only [run, runFaultCascade, hparse, if_neg (not_not.mpr hn), hs₁, hlines,
      Option.bind_eq_bind, Option.bind_some]
    exact ⟨_, rfl⟩

theorem ipcStress_answers (tok2 : List UInt8) : (Branch.ipcStress tok2).Answers s hist env := by
  refine (answers_checked tok2 (fun n => 1 ≤ n ∧ n ≤ 8) id ?_ ?_).mpr ?_
  · intro hparse
    simp only [run, runIpcStress, hparse, prints]
  · intro n hparse hn
    simp only [run, runIpcStress, hparse, if_pos hn, refuses, prints]
    exact ⟨_, rfl⟩
  · intro n hparse hn
    obtain ⟨s₁, hs₁⟩ : ∃ s₁, (List.range n).foldlM System.stressPair s = some s₁ :=
      ⟨_, stressPairs_eq (.boot s) (.ipcStress tok2) hn.2⟩
    obtain ⟨s₂, hs₂⟩ : ∃ s₂, (List.range n).foldlM System.vacatePair (env.meanwhile s₁) = some s₂ :=
      ⟨_, vacatePairs_eq (.boot (env.meanwhile s₁)) (.ipcStress tok2) hn.2⟩
    simp only [run, runIpcStress, hparse, if_neg (not_not.mpr hn), hs₁, hs₂, Option.bind_eq_bind,
      Option.bind_some]
    exact ⟨_, rfl⟩

/-- The console's command that the branch is, for the branches that start tasks. -/
def command : Branch → Command
  | .faultSpawn => .faultSpawn
  | .faultCascade tok2 => .faultCascade tok2
  | .ipcSend tok2 _ => .ipcSend tok2
  | .ipcTyped tok2 _ => .ipcTyped tok2
  | .ipcStress tok2 => .ipcStress tok2
  | _ => .other

/-- The command has no section exactly where the branch refuses its number. -/
theorem command_sections (hb : b.command ≠ .other) :
    b.command.sections = [] ↔ b.OutOfRange s hist := by
  cases b with
  | faultSpawn => exact iff_of_false (List.cons_ne_nil _ _) id
  | faultCascade tok2 | ipcStress tok2 =>
    rw [OutOfRange, command, Command.sections, Command.upToEight]
    cases hparse : parseUsize tok2 with
    | none => simp [Unfit, hparse]
    | some n => by_cases hn : 1 ≤ n ∧ n ≤ 8 <;> simp [unfit_iff hparse, hn]
  | ipcSend tok2 tok3 | ipcTyped tok2 tok3 =>
    rw [OutOfRange, command, Command.sections]
    cases hparse : parseUsize tok2 with
    | none => simp [Unfit, hparse]
    | some n => simp [unfit_iff hparse]
  | _ => cases hb rfl

end Slots

section Ipc

theorem ipcSend_answers (shell : CapTable) (tok2 tok3 : List UInt8) :
    (Branch.ipcSend tok2 tok3).Answers s hist env ↔ (Branch.ipcSend tok2 tok3).Safe shell s env := by
  obtain ⟨s₁, hs₁⟩ : ∃ s₁, s.ensureEcho = some s₁ := ⟨_, ensureEcho_eq (.boot s) (.ipcSend tok2)⟩
  rw [answers_checked tok2 (· = 65) id]
  · constructor
    · intro hrun msg hparse hreply
      obtain ⟨ran, hran⟩ := hrun 65 hparse rfl
      simp only [run, runIpcSend, hparse, ne_eq, not_true_eq_false, if_false, hs₁, hreply,
        Option.bind_eq_bind, Option.bind_some] at hran
      split at hran
      · assumption
      · cases hran
    · intro hsafe n hparse hn
      subst hn
      simp only [run, runIpcSend, hparse, ne_eq, not_true_eq_false, if_false, hs₁,
        Option.bind_eq_bind, Option.bind_some]
      cases hexchange : env.exchange with
      | sendFailed e => exact ⟨_, rfl⟩
      | receiveFailed e => exact ⟨_, rfl⟩
      | reply msg => exact ⟨_, if_pos (hsafe msg hparse hexchange)⟩
  · intro hparse
    simp only [run, runIpcSend, hparse, prints]
  · intro n hparse hn
    simp only [run, runIpcSend, hparse, if_pos hn, refuses, prints, ne_eq]
    exact ⟨_, rfl⟩

theorem ipcTyped_answers (shell : CapTable) (tok2 tok3 : List UInt8) :
    (Branch.ipcTyped tok2 tok3).Answers s hist env ↔ (Branch.ipcTyped tok2 tok3).Safe shell s env := by
  obtain ⟨s₁, hs₁⟩ : ∃ s₁, s.ensureEcho = some s₁ := ⟨_, ensureEcho_eq (.boot s) (.ipcTyped tok2)⟩
  rw [answers_checked tok2 (· ≤ 3) id]
  · constructor
    · intro hrun n msg hparse hn hreply
      obtain ⟨ran, hran⟩ := hrun n hparse hn
      simp only [run, runIpcTyped, hparse, gt_iff_lt, if_neg (Nat.not_lt.mpr hn), hs₁, hreply,
        Option.bind_eq_bind, Option.bind_some] at hran
      obtain ⟨bytes, hbytes, _⟩ := Option.bind_eq_some_iff.mp hran
      exact (Lib.slice_length hbytes).2.2
    · intro hsafe n hparse hn
      simp only [run, runIpcTyped, hparse, gt_iff_lt, if_neg (Nat.not_lt.mpr hn), hs₁,
        Option.bind_eq_bind, Option.bind_some]
      cases hexchange : env.exchange with
      | sendFailed e => exact ⟨_, rfl⟩
      | receiveFailed e => exact ⟨_, rfl⟩
      | reply msg =>
        have hlen := hsafe n msg hparse hn hexchange
        obtain ⟨bytes, hbytes⟩ : ∃ bytes, Lib.slice msg.payload 0 msg.len = some bytes :=
          ⟨_, Lib.slice_of_le (Nat.zero_le _) hlen⟩
        have hcopy : Lib.copySlice (Vector.replicate 129 0) 0 msg.len bytes = some _ :=
          Lib.copySlice_eq (Nat.zero_le _) (by omega) (Lib.slice_length hbytes).1
        simp only [hbytes, hcopy, Lib.slice_of_le (Nat.zero_le _) (show msg.len ≤ 129 by omega),
          Option.bind_some]
        exact ⟨_, rfl⟩
  · intro hparse
    simp only [run, runIpcTyped, hparse, prints]
  · intro n hparse hn
    simp only [run, runIpcTyped, hparse, gt_iff_lt, if_pos (Nat.lt_of_not_le hn), refuses, prints]
    exact ⟨_, rfl⟩

end Ipc

section History
variable {kept : List (List UInt8)}

theorem history_answers (hr : hist.Records kept) (tok1 : List UInt8) :
    (Branch.history tok1).Answers s hist env := by
  by_cases hempty : tok1 = []
  · obtain ⟨entries, hentries⟩ := Lib.mapM_total
      (f := fun i => (hist.get (hist.count - i)).map (fun cmd => cmd.map (Output.entry i)))
      (List.range hist.count) (fun i _ => ⟨_, by rw [hr.get, Option.map_some]⟩)
    refine answers_of_fit ?_ (fun hout => hout.1 hempty)
    simp only [run, runHistory, hempty, List.isEmpty_nil, if_true, hentries, Option.bind_eq_bind,
      Option.bind_some]
    exact ⟨_, rfl⟩
  · have htok : ¬ tok1.isEmpty = true := by simpa using hempty
    have hout : ¬ Unfit tok1 (· < hist.count) → ¬ (Branch.history tok1).OutOfRange s hist :=
      fun hfit hout => hfit hout.2
    refine (answers_checked tok1 (· < hist.count) hout ?_ ?_).mpr ?_
    · intro hparse
      simp only [run, runHistory, if_neg htok, hparse, prints]
    · intro n hparse hn
      simp only [run, runHistory, if_neg htok, hparse, ge_iff_le, if_pos (Nat.not_lt.mp hn), refuses,
        prints]
      exact ⟨_, rfl⟩
    · intro n hparse hn
      obtain ⟨cmd, _, hget, hlen⟩ := recalls_index hr hn
      obtain ⟨cmdBuf, hcopy, hbegins⟩ := Lib.copySlice_front (Vector.replicate 128 0) cmd hlen
      obtain ⟨pushed, hpush, _⟩ := hr.push hlen
      simp only [run, runHistory, if_neg htok, hparse, ge_iff_le, if_neg (Nat.not_le.mpr hn), hget,
        hcopy, Lib.begins_slice hbegins hlen, hpush, Option.bind_eq_bind, Option.bind_some]
      exact ⟨_, rfl⟩

end History

section Watch

theorem length_afterWord (line : List UInt8) : (afterWord line).length ≤ line.length :=
  ((List.dropWhile_sublist _).trans (List.dropWhile_sublist _)).length_le

/-- The tokens of a line lie in it in their order. -/
theorem watchOperands_total (line : List UInt8) : ∃ operands, watchOperands line = some operands := by
  have h₁ : (afterWord (line.dropWhile (fun b => b = 32))).length ≤ line.length :=
    (length_afterWord _).trans (List.dropWhile_sublist _).length_le
  have h₂ := length_afterWord (afterWord (line.dropWhile (fun b => b = 32)))
  have h₃ : (tokenize line).tok2.length ≤
      (afterWord (afterWord (line.dropWhile (fun b => b = 32)))).length :=
    (List.takeWhile_sublist _).length_le
  unfold watchOperands
  dsimp only
  split
  · rw [lineSlice, if_pos (by omega)]
    exact ⟨_, rfl⟩
  · split <;> exact ⟨_, rfl⟩

def Within (b : WatchBuffers) : Prop := b.curLen ≤ 1024 ∧ b.prevLen ≤ 1024

theorem within_step {b : WatchBuffers} (h : Within b) (w : WatchStep) :
    ∃ b' out, b.step w = some (b', out) ∧ Within b' := by
  obtain ⟨hcur, hprev⟩ := h
  cases w with
  | forget => exact ⟨_, _, rfl, hcur, Nat.zero_le _⟩
  | redirect => exact ⟨_, _, rfl, Nat.zero_le _, hprev⟩
  | write bytes =>
    have hcopy : Lib.copySlice b.cur b.curLen (b.curLen + min bytes.length (1024 - b.curLen))
        (bytes.take (min bytes.length (1024 - b.curLen))) = some _ :=
      Lib.copySlice_eq (Nat.le_add_right _ _) (by omega) (by rw [List.length_take]; omega)
    simp only [WatchBuffers.step, WatchBuffers.write, if_pos hcur, hcopy, Option.map_some]
    exact ⟨_, _, rfl, show b.curLen + _ ≤ 1024 by omega, hprev⟩
  | compare =>
    simp only [WatchBuffers.step, Lib.slice_of_le (Nat.zero_le _) hcur,
      Lib.slice_of_le (Nat.zero_le _) hprev, Option.bind_eq_bind, Option.bind_some]
    exact ⟨_, _, rfl, hcur, hprev⟩
  | save =>
    obtain ⟨text, htext⟩ : ∃ text, Lib.slice b.cur 0 b.curLen = some text :=
      ⟨_, Lib.slice_of_le (Nat.zero_le _) hcur⟩
    have hcopy : Lib.copySlice b.prev 0 b.curLen text = some _ :=
      Lib.copySlice_eq (Nat.zero_le _) hcur (Lib.slice_length htext).1
    simp only [WatchBuffers.step, htext, hcopy, Option.bind_eq_bind, Option.bind_some]
    exact ⟨_, _, rfl, hcur, hcur⟩

theorem within_steps (ws : List WatchStep) {b : WatchBuffers} (h : Within b) :
    ∃ b' out, b.steps ws = some (b', out) ∧ Within b' := by
  induction ws generalizing b with
  | nil => exact ⟨b, [], rfl, h⟩
  | cons w ws ih =>
    obtain ⟨b₁, out, hb₁, h₁⟩ := within_step h w
    obtain ⟨b₂, rest, hb₂, h₂⟩ := ih h₁
    refine ⟨b₂, out ++ rest, ?_, h₂⟩
    simp only [WatchBuffers.steps, hb₁, hb₂, Option.bind_eq_bind, Option.bind_some]

/-- The loop starts the buffer anew in each turn, so its length before does not matter. -/
theorem watch_run_total (top : Output) (turns : List (List WatchStep)) {b : WatchBuffers}
    (h : b.prevLen ≤ 1024) : ∃ out, b.run top turns = some out := by
  induction turns generalizing b with
  | nil => exact ⟨[], rfl⟩
  | cons turn turns ih =>
    have hstart : Within { b with curLen := 0 } := ⟨Nat.zero_le _, h⟩
    obtain ⟨b₁, inner, hb₁, h₁⟩ := within_steps turn hstart
    have hturn : b.steps (.redirect :: turn) = some (b₁, inner) := by
      simp only [WatchBuffers.steps, WatchBuffers.step, hb₁, Option.bind_eq_bind, Option.bind_some,
        List.nil_append]
    obtain ⟨b₂, out, hb₂, h₂⟩ := within_steps [.compare, .save] h₁
    obtain ⟨rest, hrest⟩ := ih h₂.2
    simp only [WatchBuffers.run, hturn, hb₂, hrest, Option.bind_eq_bind, Option.bind_some]
    exact ⟨_, rfl⟩

theorem watch_answers (line : List UInt8) : (Branch.watch line).Answers s hist env := by
  refine answers_of_fit ?_ id
  obtain ⟨operands, hoperands⟩ := watchOperands_total line
  simp only [run, runWatch, hoperands, Option.bind_eq_bind, Option.bind_some]
  cases operands with
  | none => exact ⟨_, rfl⟩
  | some operands =>
    obtain ⟨subCmd, intervalTok⟩ := operands
    dsimp only
    cases parseUsize intervalTok with
    | none => exact ⟨_, rfl⟩
    | some interval =>
      obtain ⟨out, hout⟩ := watch_run_total (watchTop subCmd interval) env.turns
        (b := { env.buffers with prevLen := 0 }) (Nat.zero_le _)
      simp only [WatchBuffers.step, Option.bind_some]
      rw [hout]
      exact ⟨_, rfl⟩

end Watch

section Client
variable {cmd : ClientCommand} {req : Request}

theorem decodeLogReply_iff (payload : Vector UInt8 128) :
    (∃ entry, decodeLogReply payload = some entry) ↔ LogReplyFits payload := by
  have hslice : ∀ lo hi, lo ≤ hi → hi ≤ 128 →
      Lib.slice payload lo hi = some ((payload.toList.take hi).drop lo) :=
    fun lo hi hlo hhi => Lib.slice_of_le hlo hhi
  simp only [decodeLogReply, hslice 1 9 (by decide) (by decide), hslice 9 17 (by decide) (by decide),
    hslice 18 26 (by decide) (by decide), Option.bind_eq_bind, Option.bind_some]
  constructor
  · rintro ⟨entry, hentry⟩
    obtain ⟨bytes, hbytes, _⟩ := Option.bind_eq_some_iff.mp hentry
    exact (Lib.slice_length hbytes).2.2
  · intro hfits
    rw [Lib.slice_of_le (Nat.le_add_right _ _) hfits]
    exact ⟨_, rfl⟩

theorem request_fit (h : cmd.request = .ok req) : ¬ cmd.OutOfRange := by
  cases cmd with
  | fsMkdir | fsWrite | fsRead | fsDelete | fsStat => exact id
  | kvSet tok2 tok3 =>
    obtain ⟨i, hi, _⟩ := ClientCommand.kvSet_request h
    obtain ⟨hparse, hlt⟩ := ClientCommand.kvSlot_ok hi
    exact not_unfit hparse hlt
  | kvGet tok2 =>
    obtain ⟨i, hi, _⟩ := ClientCommand.kvGet_request h
    obtain ⟨hparse, hlt⟩ := ClientCommand.kvSlot_ok hi
    exact not_unfit hparse hlt
  | logPublish tok2 tok3 =>
    obtain ⟨kind, hkind, _⟩ := ClientCommand.logPublish_request h
    obtain ⟨hparse, hlt⟩ := ClientCommand.logKind_ok hkind
    exact not_unfit hparse hlt
  | logRead tok2 =>
    obtain ⟨kind, hkind, _⟩ := ClientCommand.logRead_request h
    obtain ⟨hparse, hlt⟩ := ClientCommand.logKind_ok hkind
    exact not_unfit hparse hlt

theorem shellChannel_ensured (h : s.kernel.sched.getTask 64 = some shell) (svc other : Service) :
    (s.ensureService svc).kernel.sched.shellChannel other =
      some (shell.capTable.firstSlot (Resource.isChannel other.task)) := by
  rw [Scheduler.shellChannel, s.ensureService_shell svc, Scheduler.tableOf, h]
  rfl

theorem client_refused {refusal : Reply} (hreq : cmd.request = .error refusal) :
    (Branch.client cmd).Answers s hist env :=
  answers_of_refusal ⟨refusal, by simp only [run, runClient, hreq, prints],
    ClientCommand.request_error hreq⟩

/-- A request that was not refused can only fail on its reply. -/
theorem client_run_iff (h : s.kernel.sched.getTask 64 = some shell) (hreq : cmd.request = .ok req) :
    (∃ ran, (Branch.client cmd).run s hist env = some ran) ↔
      ∀ msg, shell.capTable.Holds (Resource.isChannel req.svc.task) → env.exchange = .reply msg →
        ∃ r, cmd.report msg.payload = some r := by
  simp only [run, runClient, hreq, shellChannel_ensured h, Option.bind_eq_bind, Option.bind_some]
  cases hslot : shell.capTable.firstSlot (Resource.isChannel req.svc.task) with
  | none =>
    refine iff_of_true ⟨_, rfl⟩ ?_
    intro msg hholds
    obtain ⟨i, hi⟩ := CapTable.firstSlot_holds.mpr hholds
    cases hslot.symm.trans hi
  | some i =>
    have hholds := CapTable.firstSlot_holds.mp ⟨i, hslot⟩
    cases hexchange : env.exchange with
    | sendFailed e =>
      refine iff_of_true ⟨_, rfl⟩ ?_
      intro msg _ hmsg
      cases hmsg
    | receiveFailed e =>
      refine iff_of_true ⟨_, rfl⟩ ?_
      intro msg _ hmsg
      cases hmsg
    | reply msg =>
      constructor
      · rintro ⟨ran, hran⟩ msg' _ hmsg
        cases hmsg
        obtain ⟨r, hr, _⟩ := Option.bind_eq_some_iff.mp hran
        exact ⟨r, hr⟩
      · intro hreport
        obtain ⟨r, hr⟩ := hreport msg hholds rfl
        simp only [hr, Option.bind_some]
        exact ⟨_, rfl⟩

theorem client_answers_of_report (h : s.kernel.sched.getTask 64 = some shell)
    (hreport : ∀ req payload, cmd.request = .ok req → ∃ r, cmd.report payload = some r) :
    (Branch.client cmd).Answers s hist env := by
  cases hreq : cmd.request with
  | error refusal => exact client_refused hreq
  | ok req =>
    exact answers_of_fit ((client_run_iff h hreq).mpr (fun msg _ _ => hreport req msg.payload hreq))
      (request_fit hreq)

theorem kvReport_total (payload : Vector UInt8 128) (slot : Nat) (done : String) :
    ∃ r, ClientCommand.kvReport payload slot (some done) = some r := by
  unfold ClientCommand.kvReport
  split <;> exact ⟨_, rfl⟩

theorem kvSet_answers (h : s.kernel.sched.getTask 64 = some shell) (tok2 tok3 : List UInt8) :
    (Branch.client (.kvSet tok2 tok3)).Answers s hist env := by
  apply client_answers_of_report h
  intro req payload hreq
  obtain ⟨i, hi, _⟩ := ClientCommand.kvSet_request hreq
  simp only [ClientCommand.report, hi]
  exact kvReport_total payload i _

theorem kvGet_answers (h : s.kernel.sched.getTask 64 = some shell) (tok2 : List UInt8) :
    (Branch.client (.kvGet tok2)).Answers s hist env := by
  apply client_answers_of_report h
  intro req payload hreq
  obtain ⟨i, hi, _⟩ := ClientCommand.kvGet_request hreq
  have hkey : Lib.slice payload 1 17 = some _ := Lib.slice_of_le (by decide) (by decide)
  have hvalue : Lib.slice payload 17 81 = some _ := Lib.slice_of_le (by decide) (by decide)
  simp only [ClientCommand.report, hi, ClientCommand.gotLine, hkey, hvalue, Option.bind_eq_bind,
    Option.bind_some]
  exact kvReport_total payload i _

theorem logPublish_answers (h : s.kernel.sched.getTask 64 = some shell) (tok2 tok3 : List UInt8) :
    (Branch.client (.logPublish tok2 tok3)).Answers s hist env := by
  apply client_answers_of_report h
  intro req payload hreq
  obtain ⟨kind, hkind, _⟩ := ClientCommand.logPublish_request hreq
  simp only [ClientCommand.report, hkind]
  exact ⟨_, rfl⟩

theorem logReadReport_iff (payload : Vector UInt8 128) (kind : Nat) :
    (∃ r, ClientCommand.logReadReport payload kind = some r) ↔
      (replyByte payload 0 = 0 → LogReplyFits payload) := by
  rw [← decodeLogReply_iff]
  by_cases hbyte : replyByte payload 0 = 0
  · simp only [ClientCommand.logReadReport, hbyte, UInt8.toNat_zero, forall_const]
    constructor
    · rintro ⟨r, hr⟩
      obtain ⟨entry, hentry, _⟩ := Option.map_eq_some_iff.mp hr
      exact ⟨entry, hentry⟩
    · rintro ⟨entry, hentry⟩
      exact ⟨_, by rw [hentry, Option.map_some]⟩
  · refine iff_of_true ?_ (fun h => absurd h hbyte)
    unfold ClientCommand.logReadReport
    split
    · rename_i hzero
      exact absurd (UInt8.toNat_inj.mp hzero) hbyte
    all_goals exact ⟨_, rfl⟩

theorem logRead_answers (h : s.kernel.sched.getTask 64 = some shell) (tok2 : List UInt8) :
    (Branch.client (.logRead tok2)).Answers s hist env ↔
      (Branch.client (.logRead tok2)).Safe shell.capTable s env := by
  rcases ClientCommand.logKind_cases tok2 with ⟨kind, hparse, hlt, hkind⟩ | ⟨refusal, hunfit, _, hkind⟩
  · have hreq : (ClientCommand.logRead tok2).request = .ok ⟨.log, .logRead, [UInt8.ofNat kind]⟩ := by
      simp only [ClientCommand.request, hkind]
      rfl
    constructor
    · rintro ⟨ran, hran, _⟩ n msg _ _ hholds hreply
      obtain ⟨r, hr⟩ := (client_run_iff h hreq).mp ⟨ran, hran⟩ msg hholds hreply
      simp only [ClientCommand.report, hkind] at hr
      exact (logReadReport_iff msg.payload kind).mp ⟨r, hr⟩
    · intro hsafe
      refine answers_of_fit ((client_run_iff h hreq).mpr ?_) (request_fit hreq)
      intro msg hholds hreply
      simp only [ClientCommand.report, hkind]
      exact (logReadReport_iff msg.payload kind).mpr (hsafe kind msg hparse hlt hholds hreply)
  · have hreq : (ClientCommand.logRead tok2).request = .error refusal := by
      simp only [ClientCommand.request, hkind]
      rfl
    refine iff_of_true (client_refused hreq) ?_
    intro n msg hparse hlt
    exact absurd hlt (hunfit n hparse)

end Client

section Grant
variable {cmd : GrantCommand} {d : Delegation}

theorem grant_refused {r : Reply} (hd : s.kernel.delegation cmd = some (.error r))
    (hr : r.isFailure = true) : (Branch.grant cmd).Answers s hist env := by
  refine answers_of_refusal ⟨r, ?_, hr⟩
  simp only [run, runGrant, Kernel.consoleGrant, hd, Option.bind_some, prints]

/-- A grant that found a donor delivers, and says so. -/
theorem grant_run_iff (hd : s.kernel.delegation cmd = some (.ok d)) {ran : Ran} :
    (Branch.grant cmd).run s hist env = some ran ↔ ∃ k', s.kernel.deliver d cmd = some k' ∧
      ran = ⟨{ s with kernel := k' }, hist, [.reply (.ok (d.report s.kernel.nextCapId))], none⟩ := by
  simp only [run, runGrant, Kernel.consoleGrant, hd]
  cases s.kernel.deliver d cmd with
  | none =>
    refine iff_of_false ?_ ?_
    · intro hran
      cases hran
    · rintro ⟨k', hk', _⟩
      cases hk'
  | some k' =>
    constructor
    · intro hran
      cases hran
      exact ⟨k', rfl, rfl⟩
    · rintro ⟨k'', hk'', rfl⟩
      cases hk''
      rfl

theorem grant_not_refuses {ran : Ran} (hd : s.kernel.delegation cmd = some (.ok d))
    (hran : (Branch.grant cmd).run s hist env = some ran) : ¬ ran.Refuses s hist := by
  obtain ⟨k', _, rfl⟩ := (grant_run_iff hd).mp hran
  rintro ⟨r, hr, heq⟩
  injection heq with _ _ hout
  cases hout
  cases hr

theorem capGrant_answers (h : s.kernel.sched.getTask 64 = some shell) (tok2 : List UInt8) :
    (Branch.grant (.cap tok2)).Answers s hist env := by
  refine (answers_checked tok2 (· < maxCaps) id ?_ ?_).mpr ?_
  · intro hparse
    simp only [run, runGrant, Kernel.consoleGrant, Kernel.delegation, Kernel.capDelegation, hparse,
      Option.bind_some, prints]
  · intro n hparse hn
    simp only [run, runGrant, Kernel.consoleGrant, Kernel.delegation, Kernel.capDelegation, hparse,
      if_pos (Nat.not_lt.mp hn), Option.bind_some, prints]
    exact ⟨_, rfl⟩
  · intro n _ _
    rcases Kernel.delegation_cases h (.cap tok2) with ⟨r, hr⟩ | ⟨d, _, hd, _, hfits, _⟩
    · simp only [run, runGrant, Kernel.consoleGrant, hr, Option.bind_some]
      exact ⟨_, rfl⟩
    · obtain ⟨k', hk', _⟩ := hfits.mpr trivial
      exact ⟨_, (grant_run_iff hd).mpr ⟨k', hk', rfl⟩⟩

/-- A grant to a task whose operands have been read: without a donor it refuses, with one
it inserts into the target's table. -/
theorem grantToTask_answers {wanted : Resource → Bool} {target : Nat} {inRange : Prop}
    (hnone : ¬ shell.capTable.Holds wanted →
      s.kernel.delegation cmd = some (.error (.fail "no capability")))
    (hsome : shell.capTable.Holds wanted → ∃ d, s.kernel.delegation cmd = some (.ok d) ∧
      d.target = target ∧ s.kernel.deliver d cmd = s.kernel.grantToTask d)
    (hout : cmd.OutOfRange s.kernel ↔ ¬ inRange ∨ ¬ s.kernel.HasRoom target) :
    (Branch.grant cmd).Answers s hist env ↔
      (shell.capTable.Holds wanted → inRange ∧ s.kernel.HasRoom target) := by
  by_cases hholds : shell.capTable.Holds wanted
  · obtain ⟨d, hd, rfl, hdeliver⟩ := hsome hholds
    rw [imp_iff_right hholds]
    constructor
    · rintro ⟨ran, hran, hrefuses⟩
      by_contra hnot
      exact grant_not_refuses hd hran (hrefuses (hout.mpr (not_and_or.mp hnot)))
    · intro hin
      obtain ⟨k', hk', _⟩ := Kernel.grantToTask_iff.mpr hin.2
      refine answers_of_fit ⟨_, (grant_run_iff hd).mpr ⟨k', hdeliver.trans hk', rfl⟩⟩ ?_
      intro h
      exact not_and_or.mpr (hout.mp h) hin
  · exact iff_of_true (grant_refused (hnone hholds) rfl) (fun h => absurd h hholds)

theorem kvGrant_answers (h : s.kernel.sched.getTask 64 = some shell) (tok2 tok3 : List UInt8) :
    (Branch.grant (.kv tok2 tok3)).Answers s hist env ↔
      (GrantCommand.kv tok2 tok3).Safe shell.capTable s.kernel := by
  cases hslot : parseUsize tok2 with
  | none =>
    refine iff_of_true (grant_refused (r := .badNumber tok2) ?_ rfl) ?_
    · simp only [Kernel.delegation, Kernel.kvDelegation, hslot]
    · intro slot target hparse
      cases hslot.symm.trans hparse
  | some slot =>
    cases htarget : parseUsize tok3 with
    | none =>
      refine iff_of_true (grant_refused (r := .badNumber tok3) ?_ rfl) ?_
      · simp only [Kernel.delegation, Kernel.kvDelegation, hslot, htarget]
      · intro _ target _ hparse
        cases htarget.symm.trans hparse
    | some target =>
      have hnone : ¬ shell.capTable.Holds (Resource.isKv slot) →
          s.kernel.delegation (.kv tok2 tok3) = some (.error (.fail "no capability")) := by
        intro hnot
        simp only [Kernel.delegation, Kernel.kvDelegation, hslot, htarget, Kernel.getShellCaps_eq h,
          CapTable.firstCap_none hnot]
      have hsome : shell.capTable.Holds (Resource.isKv slot) → ∃ d,
          s.kernel.delegation (.kv tok2 tok3) = some (.ok d) ∧ d.target = target ∧
            s.kernel.deliver d (.kv tok2 tok3) = s.kernel.grantToTask d := by
        intro hholds
        obtain ⟨donor, hdonor⟩ := CapTable.firstCap_holds hholds
        simp only [Kernel.delegation, Kernel.kvDelegation, hslot, htarget, Kernel.getShellCaps_eq h,
          hdonor]
        exact ⟨_, rfl, rfl, rfl⟩
      rw [grantToTask_answers hnone hsome ((unfit_iff hslot).or (unfit_iff htarget))]
      constructor
      · intro hone slot' target' hslot' htarget'
        cases hslot.symm.trans hslot'
        cases htarget.symm.trans htarget'
        exact hone
      · intro hsafe
        exact hsafe slot target hslot htarget

/-- `log grant` refuses its operands or reads them. -/
theorem logOperands_cases (k : Kernel) (tok2 tok3 : List UInt8) :
    (∃ r : Reply, r.isFailure = true ∧ k.logDelegation tok2 tok3 = some (.error r) ∧
      ∀ kind target, ¬ LogOperands tok2 tok3 kind target) ∨
    ∃ kind target, LogOperands tok2 tok3 kind target := by
  unfold Kernel.logDelegation
  cases hkind : parseUsize tok2 with
  | none => exact .inl ⟨_, rfl, rfl, fun _ _ ho => by cases hkind.symm.trans ho.number⟩
  | some kind =>
    by_cases hlt : 16 ≤ kind
    · refine .inl ⟨_, ?_, if_pos hlt, ?_⟩
      · rfl
      · intro kind' _ ho
        cases hkind.symm.trans ho.number
        exact absurd ho.lt (Nat.not_lt.mpr hlt)
    by_cases hsplit : (logTarget tok3).length = tok3.length
    · simp only [if_neg hlt, if_pos hsplit]
      exact .inl ⟨_, rfl, rfl, fun _ _ ho => ho.split hsplit⟩
    by_cases hrights : (logRights tok3).isEmpty = true
    · simp only [if_neg hlt, if_neg hsplit, if_pos hrights]
      exact .inl ⟨_, rfl, rfl, fun _ _ ho => ho.rights (List.isEmpty_iff.mp hrights)⟩
    simp only [if_neg hlt, if_neg hsplit, if_neg hrights]
    cases htarget : parseUsize (logTarget tok3) with
    | none => exact .inl ⟨_, rfl, rfl, fun _ _ ho => by cases htarget.symm.trans ho.aim⟩
    | some target =>
      exact .inr ⟨kind, target, hkind, Nat.lt_of_not_le hlt, hsplit,
        fun he => hrights (List.isEmpty_iff.mpr he), htarget⟩

theorem logGrant_answers (h : s.kernel.sched.getTask 64 = some shell) (tok2 tok3 : List UInt8) :
    (Branch.grant (.log tok2 tok3)).Answers s hist env ↔
      (GrantCommand.log tok2 tok3).Safe shell.capTable s.kernel := by
  rcases logOperands_cases s.kernel tok2 tok3 with ⟨r, hr, hd, hnot⟩ | ⟨kind, target, ho⟩
  · exact iff_of_true (grant_refused hd hr) (fun kind target ho => absurd ho (hnot kind target))
  · have hrights : ¬ (logRights tok3).isEmpty = true := fun he => ho.rights (List.isEmpty_iff.mp he)
    have hnone : ¬ shell.capTable.Holds (Resource.isLog (UInt8.ofNat kind)) →
        s.kernel.delegation (.log tok2 tok3) = some (.error (.fail "no capability")) := by
      intro hnot
      simp only [Kernel.delegation, Kernel.logDelegation, ho.number, if_neg (Nat.not_le.mpr ho.lt),
        if_neg ho.split, if_neg hrights, ho.aim, Kernel.getShellCaps_eq h, CapTable.firstCap_none hnot]
    have hsome : shell.capTable.Holds (Resource.isLog (UInt8.ofNat kind)) → ∃ d,
        s.kernel.delegation (.log tok2 tok3) = some (.ok d) ∧ d.target = target ∧
          s.kernel.deliver d (.log tok2 tok3) = s.kernel.grantToTask d := by
      intro hholds
      obtain ⟨donor, hdonor⟩ := CapTable.firstCap_holds hholds
      simp only [Kernel.delegation, Kernel.logDelegation, ho.number, if_neg (Nat.not_le.mpr ho.lt),
        if_neg ho.split, if_neg hrights, ho.aim, Kernel.getShellCaps_eq h, hdonor]
      exact ⟨_, rfl, rfl, rfl⟩
    rw [grantToTask_answers hnone hsome ((unfit_iff ho.number).or (unfit_iff ho.aim))]
    constructor
    · intro hone kind' target' ho' hholds
      cases ho.number.symm.trans ho'.number
      cases ho.aim.symm.trans ho'.aim
      exact (hone hholds).2
    · intro hsafe hholds
      exact ⟨ho.lt, hsafe kind target ho hholds⟩

end Grant

section Revoke

/-- The common part of `kv revoke` and `log revoke` finds nothing, or says what it has
revoked. -/
theorem revokeFirst_cases (h : s.kernel.sched.getTask 64 = some shell) (wanted : Resource → Bool)
    (missing : String) (done : Nat → String) :
    (¬ shell.capTable.Holds wanted ∧
      s.kernel.revokeFirst wanted missing done = some (s.kernel, .fail missing)) ∨
    shell.capTable.Holds wanted ∧ ∃ k' text,
      s.kernel.revokeFirst wanted missing done = some (k', .ok text) := by
  unfold Kernel.revokeFirst
  rw [Kernel.getShellCaps_eq h]
  cases hslot : shell.capTable.firstSlot wanted with
  | none =>
    refine .inl ⟨?_, by simp only [hslot]⟩
    intro hholds
    obtain ⟨i, hi⟩ := CapTable.firstSlot_holds.mpr hholds
    cases hslot.symm.trans hi
  | some i =>
    obtain ⟨c, hc, _⟩ := CapTable.firstSlot_some hslot
    simp only [hslot, Kernel.shellRevoke_eq h, hc]
    exact .inr ⟨CapTable.firstSlot_holds.mp ⟨i, hslot⟩, _, _, rfl⟩

/-- A revocation by a number, which `revokeFirst` does once the number is read. -/
theorem revokeFirst_answers {cmd : RevokeCommand} {tok2 : List UInt8} {limit : Nat}
    (wanted : Nat → Resource → Bool) (h : s.kernel.sched.getTask 64 = some shell)
    (hbad : parseUsize tok2 = none → s.kernel.consoleRevoke cmd = some (s.kernel, .badNumber tok2))
    (hrevoke : ∀ n, parseUsize tok2 = some n → ∃ missing done,
      s.kernel.consoleRevoke cmd = s.kernel.revokeFirst (wanted n) missing done)
    (hout : cmd.OutOfRange ↔ Unfit tok2 (· < limit)) :
    (Branch.revoke cmd).Answers s hist env ↔
      ∀ n, parseUsize tok2 = some n → limit ≤ n → ¬ shell.capTable.Holds (wanted n) := by
  cases hparse : parseUsize tok2 with
  | none =>
    refine iff_of_true (answers_of_refusal ⟨.badNumber tok2, ?_, rfl⟩) ?_
    · simp only [run, runRevoke, hbad hparse, Option.bind_some, prints]
    · intro n hn
      cases hn
  | some n =>
    obtain ⟨missing, done, heq⟩ := hrevoke n hparse
    rcases revokeFirst_cases h (wanted n) missing done with ⟨hnot, hrun⟩ | ⟨hholds, k', text, hrun⟩
    · refine iff_of_true (answers_of_refusal ⟨.fail missing, ?_, rfl⟩) ?_
      · simp only [run, runRevoke, heq, hrun, Option.bind_some, prints]
      · intro m hm _
        cases hm
        exact hnot
    · have hran : (Branch.revoke cmd).run s hist env =
          some ⟨{ s with kernel := k' }, hist, [.reply (.ok text)], none⟩ := by
        simp only [run, runRevoke, heq, hrun, Option.bind_some, prints]
      constructor
      · rintro ⟨ran, hran', hrefuses⟩ m hm hge
        cases hm
        cases hran.symm.trans hran'
        obtain ⟨r, hr, hlines⟩ := hrefuses (hout.mpr ((unfit_iff hparse).mpr (Nat.not_lt.mpr hge)))
        injection hlines with _ _ hlines
        cases hlines
        cases hr
      · intro himp
        refine answers_of_fit ⟨_, hran⟩ ?_
        intro ho
        have hge : ¬ n < limit := hout.mp ho n hparse
        exact himp n rfl (Nat.not_lt.mp hge) hholds

theorem capRevoke_answers (h : s.kernel.sched.getTask 64 = some shell) (tok2 : List UInt8) :
    (Branch.revoke (.cap tok2)).Answers s hist env := by
  refine (answers_checked tok2 (· < maxCaps) id ?_ ?_).mpr ?_
  · intro hparse
    simp only [run, runRevoke, Kernel.consoleRevoke, Kernel.capRevoke, hparse, Option.bind_some, prints]
  · intro n hparse hn
    simp only [run, runRevoke, Kernel.consoleRevoke, Kernel.capRevoke, hparse,
      if_pos (Nat.not_lt.mp hn), Option.bind_some, prints]
    exact ⟨_, rfl⟩
  · intro n _ _
    obtain ⟨k', reply, hrevoke, _⟩ := Kernel.consoleRevoke_empties h (.cap tok2)
    simp only [run, runRevoke, hrevoke, Option.bind_some]
    exact ⟨_, rfl⟩

theorem kvRevoke_answers (h : s.kernel.sched.getTask 64 = some shell) (tok2 : List UInt8) :
    (Branch.revoke (.kv tok2)).Answers s hist env ↔ (RevokeCommand.kv tok2).Safe shell.capTable := by
  refine revokeFirst_answers Resource.isKv h ?_ ?_ Iff.rfl
  · intro hparse
    simp only [Kernel.consoleRevoke, Kernel.kvRevoke, hparse]
  · intro n hparse
    simp only [Kernel.consoleRevoke, Kernel.kvRevoke, hparse]
    exact ⟨_, _, rfl⟩

theorem logRevoke_answers (h : s.kernel.sched.getTask 64 = some shell) (tok2 : List UInt8) :
    (Branch.revoke (.log tok2)).Answers s hist env ↔ (RevokeCommand.log tok2).Safe shell.capTable := by
  refine revokeFirst_answers (fun kind => Resource.isLog (UInt8.ofNat kind)) h ?_ ?_ Iff.rfl
  · intro hparse
    simp only [Kernel.consoleRevoke, Kernel.logRevoke, hparse]
  · intro n hparse
    simp only [Kernel.consoleRevoke, Kernel.logRevoke, hparse]
    exact ⟨_, _, rfl⟩

end Revoke

section Tail
variable {t : CapTable} {kinds : Fin 16 → Bool} {reads : Nat → Prop}

def slotKind (t : CapTable) (i : Fin maxCaps) : Option UInt8 :=
  match t.slots i with
  | some cap =>
    match cap.resource with
    | .logChannel kind readable _ => if readable && cap.read then some kind else none
    | _ => none
  | none => none

theorem readsLog_iff {kind : Nat} :
    t.ReadsLog kind ↔ ∃ i k, slotKind t i = some k ∧ k.toNat = kind := by
  constructor
  · rintro ⟨i, cap, k, w, hcap, hres, hread, hk⟩
    refine ⟨i, k, ?_, hk⟩
    simp [slotKind, hcap, hres, hread]
  · rintro ⟨i, k, hslot, hk⟩
    unfold slotKind at hslot
    split at hslot
    · rename_i cap hcap
      split at hslot
      · rename_i kind' readable w hres
        split at hslot
        · rename_i hread
          cases hslot
          obtain ⟨rfl, hread⟩ := Bool.and_eq_true_iff.mp hread
          exact ⟨i, cap, k, w, hcap, hres, hread, hk⟩
        · cases hslot
      · cases hslot
    · cases hslot

def markKind (t : CapTable) (kinds : Fin 16 → Bool) (i : Fin maxCaps) : Option (Fin 16 → Bool) :=
  match slotKind t i with
  | some kind => Lib.assign kinds kind.toNat true
  | none => some kinds

theorem readableKinds_eq (t : CapTable) :
    t.readableKinds = (List.finRange maxCaps).foldlM (markKind t) (fun _ => false) := by
  unfold CapTable.readableKinds
  congr 1
  funext kinds i
  unfold markKind slotKind
  cases t.slots i with
  | none => rfl
  | some cap =>
    dsimp only
    cases cap.resource with
    | logChannel kind readable w =>
      dsimp only
      split <;> rfl
    | _ => rfl

/-- The marks are those of the kinds in the slots visited. -/
theorem foldlM_markKind {l : List (Fin maxCaps)} {kinds' : Fin 16 → Bool}
    (h : l.foldlM (markKind t) kinds = some kinds') :
    (∀ i ∈ l, ∀ k, slotKind t i = some k → k.toNat < 16) ∧
    ∀ kind, kinds' kind = true ↔
      kinds kind = true ∨ ∃ i ∈ l, ∃ k, slotKind t i = some k ∧ k.toNat = kind := by
  induction l generalizing kinds with
  | nil =>
    cases h
    simp
  | cons i l ih =>
    obtain ⟨kinds₁, hmark, h⟩ := Option.bind_eq_some_iff.mp h
    obtain ⟨hlt, hmarks⟩ := ih h
    cases hslot : slotKind t i with
    | none =>
      simp only [markKind, hslot] at hmark
      cases hmark
      simpa [hslot] using ⟨hlt, hmarks⟩
    | some k =>
      simp only [markKind, hslot] at hmark
      by_cases hk : k.toNat < 16
      · rw [Lib.assign_of_lt hk] at hmark
        cases hmark
        constructor
        · simpa [hslot, hk] using hlt
        · intro kind
          rw [hmarks]
          by_cases heq : kind = ⟨k.toNat, hk⟩
          · subst heq
            simp [hslot]
          · have hne : k.toNat ≠ kind.val := fun he => heq (Fin.ext he.symm)
            simp [Function.update_of_ne heq, hslot, hne]
      · rw [Lib.assign, dif_neg hk] at hmark
        cases hmark

theorem readableKinds_total (h : ∀ kind, t.ReadsLog kind → kind < 16) :
    ∃ kinds, t.readableKinds = some kinds := by
  rw [readableKinds_eq]
  apply Lib.foldlM_total
  intro kinds i _
  unfold markKind
  cases hslot : slotKind t i with
  | none => exact ⟨kinds, rfl⟩
  | some k => exact ⟨_, Lib.assign_of_lt (h _ (readsLog_iff.mpr ⟨i, k, hslot, rfl⟩)) true⟩

theorem readableKinds_some (h : t.readableKinds = some kinds) :
    (∀ kind, t.ReadsLog kind → kind < 16) ∧ ∀ kind, kinds kind = true ↔ t.ReadsLog kind := by
  rw [readableKinds_eq] at h
  obtain ⟨hlt, hmarks⟩ := foldlM_markKind h
  constructor
  · intro kind hreads
    obtain ⟨i, k, hslot, rfl⟩ := readsLog_iff.mp hreads
    exact hlt i (List.mem_finRange i) k hslot
  · intro kind
    rw [hmarks, readsLog_iff]
    simp

theorem drainKind_iff (kind : Nat) (xs : List Exchange) :
    (∃ out, drainKind kind xs = some out) ↔ DrainFits xs := by
  induction xs with
  | nil => exact iff_of_true ⟨_, rfl⟩ trivial
  | cons x xs ih =>
    cases x with
    | sendFailed e => exact iff_of_true ⟨_, rfl⟩ trivial
    | receiveFailed e => exact iff_of_true ⟨_, rfl⟩ trivial
    | reply msg =>
      by_cases hzero : replyByte msg.payload 0 = 0
      · rw [DrainFits, imp_iff_right hzero, ← decodeLogReply_iff, ← ih]
        simp only [drainKind, if_pos hzero, Option.bind_eq_bind]
        constructor
        · rintro ⟨out, hout⟩
          obtain ⟨entry, hentry, hout⟩ := Option.bind_eq_some_iff.mp hout
          obtain ⟨rest, hrest, _⟩ := Option.bind_eq_some_iff.mp hout
          exact ⟨⟨entry, hentry⟩, rest, hrest⟩
        · rintro ⟨⟨entry, hentry⟩, rest, hrest⟩
          simp only [hentry, hrest, Option.bind_some]
          exact ⟨_, rfl⟩
      · refine iff_of_true ⟨[], ?_⟩ (fun h => absurd h hzero)
        simp only [drainKind, if_neg hzero]

theorem index_kinds (hkinds : ∀ kind, kinds kind = true ↔ reads kind) {kind : Nat} (h : kind < 16) :
    ∃ readable, Lib.index kinds kind = some readable ∧ (readable = true ↔ reads kind) :=
  ⟨_, Lib.index_of_lt h, hkinds ⟨kind, h⟩⟩

/-- With a channel, the loop over the kinds goes on exactly if every entry fits. -/
theorem tailKinds_channel (exchanges : Nat → List Exchange) (hkinds : ∀ kind, kinds kind = true ↔ reads kind) {i : Fin maxCaps}
    (hchannel : s.kernel.sched.shellChannel .log = some (some i)) {l : List Nat}
    (hl : ∀ kind ∈ l, kind < 16) :
    (∀ r, tailKinds s kinds exchanges l = some r → r.1 = true) ∧
    ((∃ r, tailKinds s kinds exchanges l = some r) ↔
      ∀ kind ∈ l, reads kind → DrainFits (exchanges kind)) := by
  induction l with
  | nil =>
    refine ⟨?_, iff_of_true ⟨_, rfl⟩ (fun _ h => by cases h)⟩
    intro r hr
    cases hr
    rfl
  | cons kind l ih =>
    obtain ⟨hgo, hiff⟩ := ih (fun k hk => hl k (List.mem_cons_of_mem _ hk))
    obtain ⟨readable, hindex, hreadable⟩ := index_kinds hkinds (hl kind List.mem_cons_self)
    simp only [tailKinds, hindex, Option.bind_eq_bind, Option.bind_some, List.forall_mem_cons]
    cases readable with
    | false =>
      have hnot : ¬ reads kind := fun h => by cases hreadable.mpr h
      simp only [Bool.false_eq_true, if_false]
      exact ⟨hgo, hiff.trans (and_iff_right (fun h => absurd h hnot)).symm⟩
    | true =>
      have hreads : reads kind := hreadable.mp rfl
      rw [imp_iff_right hreads, ← drainKind_iff kind, ← hiff]
      simp only [if_true, hchannel, Option.bind_some]
      constructor
      · intro r hr
        obtain ⟨entries, _, hr⟩ := Option.bind_eq_some_iff.mp hr
        obtain ⟨⟨goOn, out⟩, hrest, hr⟩ := Option.bind_eq_some_iff.mp hr
        cases hr
        exact hgo (goOn, out) hrest
      · constructor
        · rintro ⟨r, hr⟩
          obtain ⟨entries, hentries, hr⟩ := Option.bind_eq_some_iff.mp hr
          obtain ⟨rest, hrest, _⟩ := Option.bind_eq_some_iff.mp hr
          exact ⟨⟨entries, hentries⟩, rest, hrest⟩
        · rintro ⟨⟨entries, hentries⟩, rest, hrest⟩
          simp only [hentries, hrest, Option.bind_some]
          exact ⟨_, rfl⟩

/-- Without one, it stops at the first kind that the shell may read. -/
theorem tailKinds_missing (exchanges : Nat → List Exchange) (hkinds : ∀ kind, kinds kind = true ↔ reads kind)
    (hchannel : s.kernel.sched.shellChannel .log = some none) {l : List Nat}
    (hl : ∀ kind ∈ l, kind < 16) : ∃ r, tailKinds s kinds exchanges l = some r ∧
      (r.1 = true → ∀ kind ∈ l, ¬ reads kind) := by
  induction l with
  | nil => exact ⟨_, rfl, fun _ _ h => by cases h⟩
  | cons kind l ih =>
    obtain ⟨r, hr, hgo⟩ := ih (fun k hk => hl k (List.mem_cons_of_mem _ hk))
    obtain ⟨readable, hindex, hreadable⟩ := index_kinds hkinds (hl kind List.mem_cons_self)
    simp only [tailKinds, hindex, Option.bind_eq_bind, Option.bind_some, List.forall_mem_cons]
    cases readable with
    | false =>
      have hnot : ¬ reads kind := fun h => by cases hreadable.mpr h
      exact ⟨r, hr, fun h => ⟨hnot, hgo h⟩⟩
    | true =>
      simp only [if_true, hchannel, Option.bind_some]
      exact ⟨_, rfl, fun h => by cases h⟩

theorem tailKinds_idle (exchanges : Nat → List Exchange) (hkinds : ∀ kind, kinds kind = true ↔ reads kind) {l : List Nat}
    (hl : ∀ kind ∈ l, kind < 16) (hidle : ∀ kind ∈ l, ¬ reads kind) :
    tailKinds s kinds exchanges l = some (true, []) := by
  induction l with
  | nil => rfl
  | cons kind l ih =>
    obtain ⟨readable, hindex, hreadable⟩ := index_kinds hkinds (hl kind List.mem_cons_self)
    have hfalse : ¬ readable = true := fun h => hidle kind List.mem_cons_self (hreadable.mp h)
    simp only [tailKinds, hindex, Option.bind_eq_bind, Option.bind_some, if_neg hfalse]
    exact ih (fun k hk => hl k (List.mem_cons_of_mem _ hk))
      (fun k hk => hidle k (List.mem_cons_of_mem _ hk))

theorem tailLoop_idle (hkinds : ∀ kind, kinds kind = true ↔ reads kind)
    (hidle : ∀ kind ∈ List.range 16, ¬ reads kind) (ticks : List TailTick) (s : System) :
    ∃ r, tailLoop kinds s ticks = some r := by
  induction ticks generalizing s with
  | nil => exact ⟨_, rfl⟩
  | cons tick ticks ih =>
    rw [tailLoop]
    split
    · exact ⟨_, rfl⟩
    · obtain ⟨⟨s', out⟩, hrest⟩ := ih (tick.meanwhile s)
      simp only [tailKinds_idle tick.exchanges hkinds (fun _ => List.mem_range.mp) hidle, hrest, if_true,
        Option.bind_eq_bind, Option.bind_some]
      exact ⟨_, rfl⟩

theorem tailLoop_iff (hkinds : ∀ kind, kinds kind = true ↔ reads kind) {ticks : List TailTick}
    (hkeeps : ∀ tick ∈ ticks, ∀ s : System, (s.kernel.sched.getTask 64).isSome = true →
      ((tick.meanwhile s).kernel.sched.getTask 64).isSome = true)
    (hshell : (s.kernel.sched.getTask 64).isSome = true) :
    (∃ r, tailLoop kinds s ticks = some r) ↔ TailFits reads s ticks := by
  induction ticks generalizing s with
  | nil => exact iff_of_true ⟨_, rfl⟩ trivial
  | cons tick ticks ih =>
    have hshell' := hkeeps tick List.mem_cons_self s hshell
    have ih' := ih (fun t ht => hkeeps t (List.mem_cons_of_mem _ ht)) hshell'
    rw [tailLoop, TailFits]
    by_cases hquits : tick.key = some 113 ∨ tick.key = some 81
    · exact iff_of_true ⟨_, if_pos hquits⟩ (fun h => absurd hquits h)
    simp only [if_neg hquits]
    rw [imp_iff_right (show ¬ tick.Quits from hquits)]
    obtain ⟨shell, hsome⟩ := Option.isSome_iff_exists.mp hshell'
    obtain ⟨channel, hchannel⟩ : ∃ channel,
        (tick.meanwhile s).kernel.sched.shellChannel .log = some channel := by
      rw [Scheduler.shellChannel, Scheduler.tableOf, hsome]
      exact ⟨_, rfl⟩
    cases channel with
    | none =>
      refine iff_of_true ?_ ?_
      · obtain ⟨⟨goOn, out⟩, hr, hgo⟩ :=
          tailKinds_missing tick.exchanges hkinds hchannel (fun _ => List.mem_range.mp)
        rw [hr, Option.bind_eq_bind, Option.bind_some]
        cases goOn with
        | false => exact ⟨_, rfl⟩
        | true =>
          obtain ⟨⟨s', rest⟩, hrest⟩ := tailLoop_idle hkinds (hgo rfl) ticks (tick.meanwhile s)
          simp only [if_true, hrest, Option.bind_eq_bind, Option.bind_some]
          exact ⟨_, rfl⟩
      · rintro ⟨i, hi⟩
        cases hchannel.symm.trans hi
    | some i =>
      obtain ⟨hgo, hiff⟩ :=
        tailKinds_channel tick.exchanges hkinds hchannel (fun _ => List.mem_range.mp)
      rw [imp_iff_right ⟨i, hchannel⟩, ← ih']
      simp only [List.mem_range] at hiff
      rw [← hiff]
      constructor
      · rintro ⟨r, hr⟩
        obtain ⟨⟨goOn, out⟩, hkind, hr⟩ := Option.bind_eq_some_iff.mp hr
        have htrue : goOn = true := hgo _ hkind
        subst htrue
        obtain ⟨rest, hrest, _⟩ := Option.bind_eq_some_iff.mp hr
        exact ⟨⟨_, hkind⟩, rest, hrest⟩
      · rintro ⟨⟨⟨goOn, out⟩, hkind⟩, ⟨s', rest⟩, hrest⟩
        have htrue : goOn = true := hgo _ hkind
        subst htrue
        simp only [hkind, hrest, if_true, Option.bind_eq_bind, Option.bind_some]
        exact ⟨_, rfl⟩

theorem logTail_answers (h : s.kernel.sched.getTask 64 = some shell) (henv : env.KeepsShell) :
    Branch.logTail.Answers s hist env ↔ Branch.logTail.Safe shell.capTable s env := by
  have hshell : ((s.ensureService .log).kernel.sched.getTask 64).isSome = true := by
    have htable := s.ensureService_shell .log
    rw [Scheduler.tableOf, Scheduler.tableOf, h] at htable
    rw [← Option.isSome_map, htable]
    rfl
  constructor
  · rintro ⟨ran, hran, _⟩
    simp only [run, runLogTail, Kernel.getShellCaps_eq h, Option.bind_eq_bind, Option.bind_some] at hran
    obtain ⟨kinds, hkinds, hran⟩ := Option.bind_eq_some_iff.mp hran
    obtain ⟨r, hr, _⟩ := Option.bind_eq_some_iff.mp hran
    obtain ⟨hlt, hreads⟩ := readableKinds_some hkinds
    exact ⟨hlt, (tailLoop_iff hreads henv hshell).mp ⟨r, hr⟩⟩
  · rintro ⟨hlt, hfits⟩
    obtain ⟨kinds, hkinds⟩ := readableKinds_total hlt
    obtain ⟨r, hr⟩ := (tailLoop_iff (readableKinds_some hkinds).2 henv hshell).mpr hfits
    refine answers_of_fit ?_ id
    simp only [run, runLogTail, Kernel.getShellCaps_eq h, hkinds, hr, Option.bind_eq_bind,
      Option.bind_some]
    exact ⟨_, rfl⟩

end Tail

def OfStores : Branch → Prop
  | .client (.kvSet _ _) | .client (.kvGet _) | .client (.logPublish _ _) | .client (.logRead _) => True
  | .client _ => False
  | _ => True

theorem group_stores (line : List UInt8) (t : Tokens) :
    (ofCap line t).OfStores ∧ (ofFault line t).OfStores ∧ (ofIpc line t).OfStores ∧
      (ofKv t).OfStores ∧ (ofLog t).OfStores := by
  refine ⟨?_, ?_, ?_, ?_, ?_⟩
  · unfold ofCap
    repeat' split
    all_goals exact trivial
  · unfold ofFault
    repeat' split
    all_goals exact trivial
  · unfold ofIpc
    repeat' split
    all_goals exact trivial
  · unfold ofKv
    repeat' split
    all_goals exact trivial
  · unfold ofLog
    repeat' split
    all_goals exact trivial

theorem ofLine_stores {line : List UInt8} (h : ofLine line = some b) : b.OfStores := by
  obtain ⟨hcap, hfault, hipc, hkv, hlog⟩ := group_stores line (tokenize line)
  unfold ofLine at h
  dsimp only at h
  split at h
  · exact Option.some.inj h ▸ hcap
  split at h
  · exact Option.some.inj h ▸ hfault
  split at h
  · exact Option.some.inj h ▸ hipc
  split at h
  · cases h
    exact trivial
  split at h
  · cases h
    exact trivial
  split at h
  · exact Option.some.inj h ▸ hkv
  split at h
  · exact Option.some.inj h ▸ hlog
  · cases h

theorem client_answers (h : s.kernel.sched.getTask 64 = some shell) {cmd : ClientCommand}
    (hcmd : (Branch.client cmd).OfStores) : (Branch.client cmd).Answers s hist env ↔
      (Branch.client cmd).Safe shell.capTable s env := by
  cases cmd with
  | fsMkdir | fsWrite | fsRead | fsDelete | fsStat => exact absurd hcmd id
  | kvSet tok2 tok3 => exact iff_of_true (kvSet_answers h tok2 tok3) trivial
  | kvGet tok2 => exact iff_of_true (kvGet_answers h tok2) trivial
  | logPublish tok2 tok3 => exact iff_of_true (logPublish_answers h tok2 tok3) trivial
  | logRead tok2 => exact logRead_answers h tok2

theorem grant_answers (h : s.kernel.sched.getTask 64 = some shell) (cmd : GrantCommand) :
    (Branch.grant cmd).Answers s hist env ↔ (Branch.grant cmd).Safe shell.capTable s env := by
  cases cmd with
  | cap tok2 => exact iff_of_true (capGrant_answers h tok2) trivial
  | kv tok2 tok3 => exact kvGrant_answers h tok2 tok3
  | log tok2 tok3 => exact logGrant_answers h tok2 tok3

theorem revoke_answers (h : s.kernel.sched.getTask 64 = some shell) (cmd : RevokeCommand) :
    (Branch.revoke cmd).Answers s hist env ↔ (Branch.revoke cmd).Safe shell.capTable s env := by
  cases cmd with
  | cap tok2 => exact iff_of_true (capRevoke_answers h tok2) trivial
  | kv tok2 => exact kvRevoke_answers h tok2
  | log tok2 => exact logRevoke_answers h tok2

end Branch

/-- A console line does not panic and reports what is out of range exactly if it is safe,
whatever has been entered before. -/
theorem line_answered_iff {s : System} {hist : History} {env : Env} {shell : Task}
    {cmds : List (List UInt8)} {line : List UInt8} {b : Branch}
    (hshell : s.kernel.sched.getTask 64 = some shell)
    (hcmds : ∀ cmd ∈ cmds, cmd.length ≤ 128)
    (hhist : cmds.foldlM History.push History.new = some hist)
    (henv : env.KeepsShell) (hline : Branch.ofLine line = some b) :
    b.Answers s hist env ↔ b.Safe shell.capTable s env := by
  obtain ⟨hist', hpushed, hr⟩ := History.new_records.pushes hcmds
  cases hpushed.symm.trans hhist
  cases b with
  | capList => exact iff_of_true (Branch.capList_answers hshell) trivial
  | capSeal tok2 => exact iff_of_true (Branch.capSeal_answers hshell tok2) trivial
  | capAudit => exact iff_of_true Branch.capAudit_answers trivial
  | faultSpawn => exact iff_of_true Branch.faultSpawn_answers trivial
  | faultCascade tok2 => exact iff_of_true (Branch.faultCascade_answers tok2) trivial
  | ipcSend tok2 tok3 => exact Branch.ipcSend_answers shell.capTable tok2 tok3
  | ipcTyped tok2 tok3 => exact Branch.ipcTyped_answers shell.capTable tok2 tok3
  | ipcStress tok2 => exact iff_of_true (Branch.ipcStress_answers tok2) trivial
  | history tok1 => exact iff_of_true (Branch.history_answers hr tok1) trivial
  | watch line => exact iff_of_true (Branch.watch_answers line) trivial
  | client cmd => exact Branch.client_answers hshell (Branch.ofLine_stores hline)
  | grant cmd => exact Branch.grant_answers hshell cmd
  | revoke cmd => exact Branch.revoke_answers hshell cmd
  | logTail => exact Branch.logTail_answers hshell henv
  | unknownKv tok1 => exact iff_of_true (Branch.answers_of_fit ⟨_, rfl⟩ id) trivial
  | unknownLog tok1 => exact iff_of_true (Branch.answers_of_fit ⟨_, rfl⟩ id) trivial
  | unknown line => exact iff_of_true (Branch.answers_of_fit ⟨_, rfl⟩ id) trivial

def lendingShell (n : Nat) : System :=
  .ofTasks [Task.new 0 0 64 (CapTable.ofList (List.replicate n (System.rootCap (.kvEntry 0 true true) true)))]

def quietEnv : Env where
  meanwhile := id
  exchange := .sendFailed .noCapability
  elapsed := 0
  deliveries := 0
  ticks := []
  buffers := ⟨Vector.replicate 1024 0, 0, Vector.replicate 1024 0, 0⟩
  turns := []

/-- `kv grant 0 70` -/
theorem line_answered_iff_spare :
    Branch.ofLine [107, 118, 32, 103, 114, 97, 110, 116, 32, 48, 32, 55, 48] =
      some (.grant (.kv [48] [55, 48])) ∧
    (Branch.grant (.kv [48] [55, 48])).Answers (lendingShell 1) History.new quietEnv := by
  have hline : Branch.ofLine [107, 118, 32, 103, 114, 97, 110, 116, 32, 48, 32, 55, 48] =
      some (.grant (.kv [48] [55, 48])) := rfl
  have hcmds : ∀ cmd ∈ ([] : List (List UInt8)), cmd.length ≤ 128 := by decide
  have hkeeps : quietEnv.KeepsShell := fun tick htick => absurd htick List.not_mem_nil
  refine ⟨hline, (line_answered_iff rfl hcmds rfl hkeeps hline).mpr ?_⟩
  intro slot target hslot htarget _
  cases hslot
  cases htarget
  exact ⟨by decide, by decide, fun t ht => by cases ht⟩

/-- `kv grant 0 132`, and `kv grant 0 64` when the shell's own table is full. -/
theorem grant_past_room_panics :
    Branch.ofLine [107, 118, 32, 103, 114, 97, 110, 116, 32, 48, 32, 49, 51, 50] =
      some (.grant (.kv [48] [49, 51, 50])) ∧
    (Branch.grant (.kv [48] [49, 51, 50])).run (lendingShell 1) History.new quietEnv = none ∧
    (Branch.grant (.kv [48] [54, 52])).run (lendingShell 32) History.new quietEnv = none :=
  ⟨rfl, rfl, rfl⟩

end Runix
