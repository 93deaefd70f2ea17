import Runix.Proofs.Framing
import Runix.Proofs.Routing
import Runix.Shell

namespace Runix

theorem Standing.slot_range (svc : Standing) :
    svc.slot.val = 65 ∨ 82 ≤ svc.slot.val ∧ svc.slot.val ≤ 86 := by
  cases svc with
  | echo => exact .inl rfl
  | store svc => cases svc <;> exact .inr ⟨by decide, by decide⟩

theorem mem_slotsFrom {base n : Nat} {i : Fin maxTasks} :
    i ∈ slotsFrom base n ↔ base ≤ i.val ∧ i.val < base + n := by
  unfold slotsFrom
  rw [List.mem_filterMap]
  constructor
  · rintro ⟨j, hj, hi⟩
    split at hi
    · cases hi
      exact ⟨Nat.le_add_right _ _, Nat.add_lt_add_left (List.mem_range.mp hj) _⟩
    · cases hi
  · rintro ⟨hle, hlt⟩
    have hval : base + (i.val - base) = i.val := by omega
    refine ⟨i.val - base, List.mem_range.mpr (by omega), ?_⟩
    rw [dif_pos (by rw [hval]; exact i.isLt)]
    exact congrArg some (Fin.ext hval)

theorem slotsFrom_succ {base n : Nat} (h : base + n < maxTasks) :
    slotsFrom base (n + 1) = slotsFrom base n ++ [⟨base + n, h⟩] := by
  simp [slotsFrom, List.range_succ, h]

theorem slotsFrom_one {base : Nat} (h : base < maxTasks) : slotsFrom base 1 = [⟨base, h⟩] :=
  slotsFrom_succ (n := 0) h

theorem upToEight_some {tok2 : List UInt8} {n : Nat} (h : Command.upToEight tok2 = some n) :
    1 ≤ n ∧ n ≤ 8 := by
  unfold Command.upToEight at h
  split at h
  · cases h
  · split at h
    · cases h
      assumption
    · cases h

namespace Shell
variable {sh sh' : Shell} {cmd : Command} {sec : Section} {trace : List SlotWrite}
  {i j : Fin maxTasks} {e : Option Entry} {w : SlotWrite} {system : System}

theorem holder_cons (w : SlotWrite) (trace : List SlotWrite) (i : Fin maxTasks) :
    holder (w :: trace) i = if w.slot = i then w.entry else holder trace i := by
  unfold holder
  rw [List.find?_cons]
  by_cases h : w.slot = i <;> simp [h]

/-- The assignment does not hit a service that stands, unless the command is `service
restart echo`. -/
def Allowed (trace : List SlotWrite) (w : SlotWrite) : Prop :=
  ∀ svc : Standing, w.slot = svc.slot → Stands trace svc → w.command = Command.restartEcho

def Undisturbed : List SlotWrite → Prop
  | [] => True
  | w :: earlier => Allowed earlier w ∧ Undisturbed earlier

def Vacant (trace : List SlotWrite) (i : Fin maxTasks) : Prop :=
  ∀ svc : Standing, i = svc.slot → ¬ Stands trace svc

theorem vacant_of_range (h : i.val ≠ 65 ∧ (i.val < 82 ∨ 86 < i.val)) : Vacant trace i := by
  intro svc hi _
  have hrange := svc.slot_range
  rw [← hi] at hrange
  omega

theorem vacant_of_slotsFrom {base n : Nat} (h : 65 < base) (hr : base + n ≤ 82 ∨ 86 < base)
    (hi : i ∈ slotsFrom base n) : Vacant trace i := by
  obtain ⟨hle, hlt⟩ := mem_slotsFrom.mp hi
  exact vacant_of_range (by omega)

theorem Vacant.cons (h : Vacant trace i) (hw : ∀ svc, w.entry ≠ some (.service svc)) :
    Vacant (w :: trace) i := by
  intro svc hi hst
  unfold Stands at hst
  rw [holder_cons] at hst
  split at hst
  · exact hw svc hst
  · exact h svc hi hst

structure Sound (sh : Shell) : Prop where
  agrees : ∀ i, holder sh.trace i ≠ none → sh.tasks i ≠ none
  undisturbed : Undisturbed sh.trace

/-- An empty slot is vacant. -/
theorem Sound.vacant (h : sh.Sound) (hi : sh.tasks i = none) : Vacant sh.trace i := by
  rintro svc rfl hst
  refine h.agrees svc.slot ?_ hi
  rw [hst]
  exact Option.some_ne_none _

theorem Sound.put (h : sh.Sound) (hallowed : Allowed sh.trace ⟨cmd, i, e⟩)
    (hfilled : e ≠ none → system.kernel.sched.tasks i ≠ none)
    (hothers : ∀ j, j ≠ i → sh.tasks j ≠ none → system.kernel.sched.tasks j ≠ none) :
    (sh.put cmd i e system).Sound := by
  refine ⟨fun j hj => ?_, hallowed, h.undisturbed⟩
  change holder (⟨cmd, i, e⟩ :: sh.trace) j ≠ none at hj
  rw [holder_cons] at hj
  split at hj
  · rename_i hij
    exact hij ▸ hfilled hj
  · rename_i hij
    exact hothers j (Ne.symm hij) (h.agrees j hj)

/-- A change that adds no assignment and empties no slot. -/
theorem Sound.keep (h : sh.Sound) (htrace : sh'.trace = sh.trace)
    (htasks : ∀ i, sh.tasks i ≠ none → sh'.tasks i ≠ none) : sh'.Sound := by
  refine ⟨fun i hi => htasks i (h.agrees i ?_), ?_⟩
  · rwa [htrace] at hi
  · rw [htrace]
    exact h.undisturbed

structure Tidy (sh sh' : Shell) : Prop where
  sound : sh.Sound → sh'.Sound
  vacant : ∀ i, Vacant sh.trace i → Vacant sh'.trace i

theorem Tidy.refl (sh : Shell) : Tidy sh sh := ⟨id, fun _ => id⟩

theorem Tidy.trans {sh'' : Shell} (h : Tidy sh sh') (h' : Tidy sh' sh'') : Tidy sh sh'' :=
  ⟨h'.sound ∘ h.sound, fun i hi => h'.vacant i (h.vacant i hi)⟩

theorem tidy_foldl {α : Type} {f : Shell → α → Shell} (Pre : Shell → α → Prop)
    (hmono : ∀ sh sh' a, Tidy sh sh' → Pre sh a → Pre sh' a)
    (hstep : ∀ sh a, Pre sh a → Tidy sh (f sh a)) (as : List α) (hpre : ∀ a ∈ as, Pre sh a) :
    Tidy sh (as.foldl f sh) := by
  induction as generalizing sh with
  | nil => exact .refl sh
  | cons a as ih =>
    have hhead := hstep sh a (hpre a List.mem_cons_self)
    refine hhead.trans (ih (fun b hb => ?_))
    exact hmono sh _ b hhead (hpre b (List.mem_cons_of_mem a hb))

def Open (cmd : Command) (sh : Shell) (i : Fin maxTasks) : Prop :=
  Vacant sh.trace i ∨ cmd = Command.restartEcho

theorem Open.mono (h : Tidy sh sh') (hi : Open cmd sh i) : Open cmd sh' i :=
  hi.imp_left (h.vacant i)

theorem tidy_put (hopen : Open cmd sh i) (he : ∀ svc, e ≠ some (.service svc))
    (hfilled : e ≠ none → system.kernel.sched.tasks i ≠ none)
    (hothers : ∀ j, j ≠ i → sh.tasks j ≠ none → system.kernel.sched.tasks j ≠ none) :
    Tidy sh (sh.put cmd i e system) := by
  refine ⟨fun h => h.put ?_ hfilled hothers, fun j hj => hj.cons he⟩
  intro svc hi hst
  rcases hopen with hvacant | hrestart
  · exact absurd hst (hvacant svc hi)
  · exact hrestart

theorem spawn_tasks (s : System) (i j : Fin maxTasks) (table : CapTable) :
    (s.spawn i table).kernel.sched.tasks j = if j = i then
      some (Task.new s.kernel.stackBase s.kernel.memory.activePml4 i table)
      else s.kernel.sched.tasks j :=
  Scheduler.set_tasks ..

theorem tidy_launch {l : Launch} (hentry : ∀ svc, l.entry ≠ .service svc)
    (hslots : ∀ i ∈ l.slots, Open cmd sh i) : Tidy sh (sh.launch cmd l) := by
  unfold launch
  have hcounter : ∀ counter, Tidy sh { sh with system := sh.system.setCounter counter } := by
    intro counter
    exact ⟨fun h => h.keep rfl (fun _ => id), fun _ => id⟩
  refine (hcounter _).trans (tidy_foldl (Open cmd) (fun _ _ _ => Open.mono)
    (fun sh i hi => ?_) l.slots hslots)
  refine tidy_put hi (fun svc h => hentry svc (Option.some.inj h)) (fun _ => ?_) (fun j hj hold => ?_)
  · rw [spawn_tasks, if_pos rfl]
    exact Option.some_ne_none _
  · rwa [spawn_tasks, if_neg hj]

theorem tidy_clear (hopen : Open cmd sh i) : Tidy sh (sh.clear cmd i) := by
  refine tidy_put hopen (fun _ => nofun) (fun h => absurd rfl h) (fun j hj hold => ?_)
  change (sh.system.kernel.sched.set i none).tasks j ≠ none
  rwa [Scheduler.set_tasks, if_neg hj]

theorem tidy_clearOccupied (hopen : Open cmd sh i) : Tidy sh (sh.clearOccupied cmd i) := by
  unfold clearOccupied
  split
  · exact tidy_clear hopen
  · exact .refl sh

/-- A service is started only in an empty slot. -/
theorem Sound.ensure (h : sh.Sound) (cmd : Command) (svc : Standing) : (sh.ensure cmd svc).Sound := by
  unfold Shell.ensure
  split
  · rename_i hnone
    rw [Option.isNone_iff_eq_none] at hnone
    have hvacant := h.vacant hnone
    refine Sound.put (h.keep rfl (fun _ => id)) (fun other hi hst => absurd hst (hvacant other hi))
      (fun _ => ?_) (fun j hj hold => ?_)
    · rw [spawn_tasks, if_pos rfl]
      exact Option.some_ne_none _
    · rwa [spawn_tasks, if_neg hj]
  · exact h

theorem launchUser_tidy (h : sh.launchUser cmd i = some sh') (hopen : Open cmd sh i) :
    Tidy sh sh' := by
  unfold launchUser at h
  split at h
  · cases h
  · cases h
    refine tidy_put hopen (fun _ => nofun) (fun _ => ?_) (fun j hj hold => ?_)
    · simp only [Scheduler.set_tasks_self]
      exact Option.some_ne_none _
    · simp only [Scheduler.set_tasks, if_neg hj]
      exact hold

end Shell

namespace Kernel
variable {k k' : Kernel} {d : Delegation} {g : GrantCommand}

theorem capDelegation_target {tok2 : List UInt8} (h : k.capDelegation tok2 = some (.ok d)) :
    d.target = 66 := by
  unfold capDelegation at h
  split at h
  · cases h
  · split at h
    · cases h
    · split at h
      · cases h
      · split at h
        · cases h
        · split at h
          · cases h
          · cases h
            rfl

/-- A grant fills its target's slot and leaves the others. -/
theorem deliver_set (h : k.deliver d g = some k') : ∃ (hlt : d.target < maxTasks) (t : Task),
    k'.sched = k.sched.set ⟨d.target, hlt⟩ (some t) := by
  have hnew : ∀ {k'}, k.grantToNewTask d = some k' → ∃ (hlt : d.target < maxTasks) (t : Task),
      k'.sched = k.sched.set ⟨d.target, hlt⟩ (some t) := by
    intro k' h
    unfold grantToNewTask at h
    split at h
    · cases h
    · split at h
      · cases h
        exact ⟨_, _, rfl⟩
      · cases h
  have hold : ∀ {k'}, k.grantToTask d = some k' → ∃ (hlt : d.target < maxTasks) (t : Task),
      k'.sched = k.sched.set ⟨d.target, hlt⟩ (some t) := by
    intro k' h
    unfold grantToTask at h
    split at h
    · simp only at h
      split at h
      · cases h
      · cases h
        exact ⟨_, _, rfl⟩
    · cases h
  cases g with
  | cap => exact hnew h
  | kv => exact hold h
  | log => exact hold h

end Kernel

namespace Shell
variable {sh sh' : Shell} {cmd : Command}

/-- A grant assigns task 66, or a slot that is empty. -/
theorem grantSlot_vacant (h : sh.Sound) {g : GrantCommand} {d : Delegation} {i : Fin maxTasks}
    (hd : sh.system.kernel.delegation g = some (.ok d)) (hi : sh.grantSlot g d = some i) :
    i.val = d.target ∧ Vacant sh.trace i := by
  unfold grantSlot at hi
  split at hi
  · rename_i hlt
    cases g with
    | cap tok2 =>
      have htarget : d.target = 66 := Kernel.capDelegation_target hd
      cases hi
      exact ⟨rfl, vacant_of_range (by simp only; omega)⟩
    | kv tok2 tok3 | log tok2 tok3 =>
      simp only at hi
      split at hi
      · rename_i hnone
        cases hi
        exact ⟨rfl, h.vacant (Option.isNone_iff_eq_none.mp hnone)⟩
      · cases hi
  · cases hi

theorem Sound.delegate (h : sh.Sound) {g : GrantCommand} (hexec : sh.delegate cmd g = some sh') :
    sh'.Sound := by
  unfold Shell.delegate at hexec
  split at hexec
  · cases hexec
  · cases hexec
    exact h
  · rename_i d hd
    split at hexec
    · cases hexec
    · rename_i kernel hk
      obtain ⟨hlt, t, hsched⟩ := Kernel.deliver_set hk
      have hkeep : ∀ j, sh.tasks j ≠ none → kernel.sched.tasks j ≠ none := by
        intro j hj
        rw [hsched, Scheduler.set_tasks]
        split
        · exact Option.some_ne_none t
        · exact hj
      split at hexec
      · rename_i i hi
        cases hexec
        obtain ⟨hval, hvacant⟩ := grantSlot_vacant h hd hi
        refine h.put (fun svc hslot hst => absurd hst (hvacant svc hslot)) (fun _ => ?_)
          (fun j _ => hkeep j)
        have hself : i = ⟨d.target, hlt⟩ := Fin.ext hval
        simp only [hsched, hself, Scheduler.set_tasks_self]
        exact Option.some_ne_none t
      · cases hexec
        exact h.keep rfl hkeep

end Shell

theorem Scheduler.modify_occupied (s : Scheduler) (id : TaskId) (f : Task → Task)
    {i : Fin maxTasks} (h : s.tasks i ≠ none) : (s.modify id f).tasks i ≠ none := by
  unfold modify
  split
  · split
    · rw [set_tasks]
      split
      · exact Option.some_ne_none _
      · exact h
    · exact h
  · exact h

namespace System
variable {s t : System} {svc : ServiceId} {i : Fin maxTasks}

def Keeps (s t : System) : Prop :=
  ∀ i, s.kernel.sched.tasks i ≠ none → t.kernel.sched.tasks i ≠ none

theorem routeSend_keeps (s : System) (cap : Capability) (payload : List UInt8) :
    s.Keeps (s.routeSend cap payload).1 ∧
      (s.routeSend cap payload).1.registry = s.registry := by
  unfold routeSend
  split
  · split
    · exact ⟨fun _ => id, rfl⟩
    · exact ⟨fun i hi => Scheduler.modify_occupied _ _ _ hi, rfl⟩
    · exact ⟨fun _ => id, rfl⟩
  · exact ⟨fun _ => id, rfl⟩

theorem failover_keeps (s : System) (svc : ServiceId) (replica : TaskId) :
    s.Keeps (s.failover svc replica).1 := by
  unfold failover
  split
  · exact fun _ => id
  · split
    · exact fun _ => id
    · exact fun i hi => Scheduler.modify_occupied _ _ _ hi

theorem pumpRemote_kernel {count : Nat} (h : s.pumpRemote = some (t, count)) :
    t.kernel = s.kernel := by
  obtain ⟨r, _, hr⟩ := Option.map_eq_some_iff.mp h
  cases hr
  rfl

/-- `migrate` empties one slot at most. -/
theorem migrate_others (s : System) (svc : ServiceId) (dest : NodeId)
    (hi : s.departing svc ≠ some i) (h : s.kernel.sched.tasks i ≠ none) :
    (s.migrate svc dest).1.kernel.sched.tasks i ≠ none := by
  unfold migrate
  split
  · rename_i tid hloc
    split
    · exact h
    · rename_i task hget
      have hlt := (Scheduler.getTask_some hget).2.1
      have hne : i ≠ ⟨tid, hlt⟩ := by
        rintro rfl
        simp only [departing, hloc, dif_pos hlt, hget, Option.isSome_some, if_true] at hi
        exact hi rfl
      change ((fun sched : Scheduler => if h : tid < maxTasks then sched.set ⟨tid, h⟩ none else sched)
        s.kernel.sched).tasks i ≠ none
      simp only [dif_pos hlt, Scheduler.set_tasks, if_neg hne]
      exact h
  · exact h

theorem demoHere_keeps (s : System) :
    s.Keeps s.demoHere ∧ s.demoHere.registry = s.registry.set 1 (.localTask 75) := by
  obtain ⟨h₁, hr₁⟩ := (s.register 1 (.localTask 75)).routeSend_keeps demoCap [97, 108, 112, 104, 97]
  obtain ⟨h₂, hr₂⟩ := ((s.register 1 (.localTask 75)).routeSend demoCap
    [97, 108, 112, 104, 97]).1.routeSend_keeps demoCap [98, 101, 116, 97]
  exact ⟨fun i hi => h₂ i (h₁ i hi), hr₂.trans hr₁⟩

/-- The service of the demonstration is at task 75, if the routing table had room for
it. -/
theorem demoHere_departing (h : s.demoHere.departing 1 = some i) : i.val = 75 := by
  unfold departing at h
  split at h
  · rename_i tid hloc
    rw [s.demoHere_keeps.2, ServiceRegistry.resolve_eq, ServiceRegistry.set_entries] at hloc
    cases Lib.Table.lookup_put_some hloc
    split at h
    · split at h
      · cases h
        rfl
      · cases h
    · cases h
  · cases h

theorem demoAway_others (h : s.demoAway = some t) (hi : s.departing 1 ≠ some i)
    (hold : s.kernel.sched.tasks i ≠ none) : t.kernel.sched.tasks i ≠ none := by
  have hmigrate := s.migrate_others 1 1 hi hold
  unfold demoAway at h
  split at h
  · rename_i u heq
    cases h
    rw [heq] at hmigrate
    exact hmigrate
  · rename_i u n heq
    rw [heq] at hmigrate
    obtain ⟨⟨v, count⟩, hpump, hrest⟩ := Option.bind_eq_some_iff.mp h
    have hfirst := (u.routeSend_keeps demoCap [103, 97, 109, 109, 97]).1 i hmigrate
    have hsecond := (routeSend_keeps _ demoCap [100, 101, 108, 116, 97]).1 i hfirst
    rw [← pumpRemote_kernel hpump] at hsecond
    have hfailover := v.failover_keeps 1 76 i hsecond
    simp only at hrest
    split at hrest
    · rename_i z m hz
      cases hrest
      rw [hz] at hfailover
      exact (z.routeSend_keeps demoCap _).1 i hfailover
    · rename_i z hz
      cases hrest
      rw [hz] at hfailover
      exact hfailover

end System

namespace Shell
variable {sh sh' : Shell} {cmd : Command} {sec : Section} {as : List ShellAction}

theorem Sound.demo (h : sh.Sound) (hexec : sh.demo cmd = some sh') : sh'.Sound := by
  unfold Shell.demo at hexec
  simp only at hexec
  split at hexec
  · cases hexec
  · rename_i system hsystem
    have hothers : ∀ j, sh.system.demoHere.departing 1 ≠ some j → sh.tasks j ≠ none →
        system.kernel.sched.tasks j ≠ none := by
      intro j hj hold
      exact System.demoAway_others hsystem hj (sh.system.demoHere_keeps.1 j hold)
    split at hexec
    · rename_i i hi
      cases hexec
      have hval := System.demoHere_departing hi
      have hvacant : Vacant sh.trace i := vacant_of_range (by omega)
      refine h.put (fun svc hslot hst => absurd hst (hvacant svc hslot)) (fun hnone => absurd rfl hnone)
        (fun j hj hold => hothers j (fun he => ?_) hold)
      rw [hi] at he
      exact hj (Option.some.inj he).symm
    · rename_i hnone
      cases hexec
      exact h.keep rfl (fun j hold => hothers j (by rw [hnone]; exact nofun) hold)

def Fits (sh : Shell) (cmd : Command) : Section → Prop
  | .launch batch => ∀ l ∈ batch, (∀ svc, l.entry ≠ .service svc) ∧ ∀ i ∈ l.slots, Open cmd sh i
  | .launchUser i => Open cmd sh i
  | .clear slots | .clearOccupied slots => ∀ i ∈ slots, Open cmd sh i
  | .ensure _ | .ensureFor _ | .delegate _ | .demo => True

def Assigns : Section → Prop
  | .launch _ | .launchUser _ | .clear _ | .clearOccupied _ => True
  | .ensure _ | .ensureFor _ | .delegate _ | .demo => False

theorem exec_tidy (hfits : sh.Fits cmd sec) (hexec : sh.exec cmd sec = some sh')
    (hsec : Assigns sec) : Tidy sh sh' := by
  cases sec with
  | launch batch =>
    cases hexec
    exact tidy_foldl
      (fun sh (l : Launch) => (∀ svc, l.entry ≠ .service svc) ∧ ∀ i ∈ l.slots, Open cmd sh i)
      (fun _ _ _ htidy hl => ⟨hl.1, fun i hi => (hl.2 i hi).mono htidy⟩)
      (fun _ _ hl => tidy_launch hl.1 hl.2) batch hfits
  | launchUser i => exact launchUser_tidy hexec hfits
  | clear slots =>
    cases hexec
    exact tidy_foldl (Open cmd) (fun _ _ _ => Open.mono) (fun _ _ => tidy_clear) slots hfits
  | clearOccupied slots =>
    cases hexec
    exact tidy_foldl (Open cmd) (fun _ _ _ => Open.mono) (fun _ _ => tidy_clearOccupied) slots hfits
  | ensure | ensureFor | delegate | demo => exact hsec.elim

theorem Sound.exec (h : sh.Sound) (hfits : sh.Fits cmd sec) (hexec : sh.exec cmd sec = some sh') :
    sh'.Sound := by
  cases sec with
  | ensure svc =>
    cases hexec
    exact h.ensure cmd svc
  | ensureFor obj =>
    simp only [Shell.exec] at hexec
    split at hexec
    · cases hexec
    · split at hexec
      · cases hexec
        exact h.ensure cmd _
      · cases hexec
        exact h
  | launch | launchUser | clear | clearOccupied => exact (exec_tidy hfits hexec trivial).sound h
  | delegate g => exact h.delegate hexec
  | demo => exact h.demo hexec

def Clears (trace : List SlotWrite) : Command → Prop
  | .ipcStress tok2 =>
    ∀ n, Command.upToEight tok2 = some n → ∀ i ∈ slotsFrom 73 (2 * n), Vacant trace i
  | _ => True

theorem open_slotsFrom {base n : Nat} (h : 65 < base) (hr : base + n ≤ 82 ∨ 86 < base) :
    ∀ i ∈ slotsFrom base n, Open cmd sh i := by
  intro i hi
  exact .inl (vacant_of_slotsFrom h hr hi)

theorem open_contendTasks (n : Nat) : ∀ i ∈ System.contendTasks n, Open cmd sh i := by
  intro i hi
  obtain ⟨j, _, rfl⟩ := List.mem_map.mp hi
  exact .inl (vacant_of_range (by simp only; omega))

theorem open_syncDemoTasks : ∀ i ∈ System.syncDemoTasks, Open cmd sh i := by
  intro i hi
  rcases List.mem_cons.mp hi with rfl | hi
  · exact .inl (vacant_of_range (by decide))
  · obtain rfl := List.mem_singleton.mp hi
    exact .inl (vacant_of_range (by decide))

/-- The workers of `ipc stress` are in its slots. -/
theorem stressBatch_slots {n : Nat} {l : Launch} (h : l ∈ Command.stressBatch n) :
    l.entry = .stressWorker ∧ ∀ i ∈ l.slots, i ∈ slotsFrom 73 (2 * n) := by
  obtain ⟨j, hj, hl⟩ := List.mem_flatMap.mp h
  have hlt := List.mem_range.mp hj
  rcases List.mem_cons.mp hl with rfl | hl
  · refine ⟨rfl, fun i hi => ?_⟩
    obtain ⟨hle, hlt'⟩ := mem_slotsFrom.mp hi
    exact mem_slotsFrom.mpr (by omega)
  · obtain rfl := List.mem_singleton.mp hl
    refine ⟨rfl, fun i hi => ?_⟩
    obtain ⟨hle, hlt'⟩ := mem_slotsFrom.mp hi
    exact mem_slotsFrom.mpr (by omega)

theorem fits_launch {caps : List Capability} {slots : List (Fin maxTasks)} {entry : Entry}
    (hentry : ∀ svc, entry ≠ .service svc) (hslots : ∀ i ∈ slots, Open cmd sh i) :
    sh.Fits cmd (.launch [⟨caps, slots, entry⟩]) := by
  intro l hl
  obtain rfl := List.mem_singleton.mp hl
  exact ⟨hentry, hslots⟩

theorem fits_launch_pair {caps caps' : List Capability} {slots slots' : List (Fin maxTasks)}
    {entry entry' : Entry} (hentry : ∀ svc, entry ≠ .service svc)
    (hentry' : ∀ svc, entry' ≠ .service svc) (hslots : ∀ i ∈ slots, Open cmd sh i)
    (hslots' : ∀ i ∈ slots', Open cmd sh i) :
    sh.Fits cmd (.launch [⟨caps, slots, entry⟩, ⟨caps', slots', entry'⟩]) := by
  intro l hl
  rcases List.mem_cons.mp hl with rfl | hl
  · exact ⟨hentry, hslots⟩
  · obtain rfl := List.mem_singleton.mp hl
    exact ⟨hentry', hslots'⟩

theorem fits_single (h : sh.Fits cmd sec) : ∀ other ∈ [sec], sh.Fits cmd other := by
  intro other hother
  exact List.mem_singleton.mp hother ▸ h

theorem fits_none : ∀ sec ∈ ([] : List Section), sh.Fits cmd sec := by
  intro sec hsec
  cases hsec

theorem fits_append {xs ys : List Section} (hx : ∀ sec ∈ xs, sh.Fits cmd sec)
    (hy : ∀ sec ∈ ys, sh.Fits cmd sec) : ∀ sec ∈ xs ++ ys, sh.Fits cmd sec := by
  intro sec hsec
  exact (List.mem_append.mp hsec).elim (hx sec) (hy sec)

theorem fits_benchSched : ∀ sec ∈ Command.benchSchedSections, sh.Fits cmd sec :=
  fits_single (fits_launch (fun _ => nofun) (open_slotsFrom (by decide) (.inr (by decide))))

theorem fits_benchFs : ∀ sec ∈ Command.benchFsSections, sh.Fits cmd sec := by
  intro sec hsec
  rw [List.eq_of_mem_replicate hsec]
  trivial

theorem fits_stress {tok2 : List UInt8} (hclear : Clears sh.trace (.ipcStress tok2)) :
    ∀ sec ∈ (Command.ipcStress tok2).sections, sh.Fits (.ipcStress tok2) sec := by
  simp only [Command.sections]
  cases hn : Command.upToEight tok2 with
  | none => exact fits_none
  | some n =>
    have hopen : ∀ i ∈ slotsFrom 73 (2 * n), Open (.ipcStress tok2) sh i := fun i hi =>
      .inl (hclear n hn i hi)
    refine List.forall_mem_cons.mpr ⟨fun l hl => ?_, fits_single hopen⟩
    obtain ⟨hentry, hslots⟩ := stressBatch_slots hl
    refine ⟨fun svc => ?_, fun i hi => hopen i (hslots i hi)⟩
    rw [hentry]
    exact nofun

/-- Only `ipc stress` has slots in which a service can stand. -/
theorem sections_fit (hclear : Clears sh.trace cmd) : ∀ sec ∈ cmd.sections, sh.Fits cmd sec := by
  cases cmd with
  | delegate | logTail | benchIpc | benchCap => exact fits_single trivial
  | other => exact fits_none
  | schedTimeslice =>
    exact fits_single (fits_launch_pair (fun _ => nofun) (fun _ => nofun)
      (open_slotsFrom (by decide) (.inl (by decide))) (open_slotsFrom (by decide) (.inl (by decide))))
  | schedPreemptRace =>
    have hrace : sh.Fits .schedPreemptRace (.launch [Command.raceTask]) :=
      fits_launch (fun _ => nofun) (open_slotsFrom (by decide) (.inl (by decide)))
    exact List.forall_mem_cons.mpr ⟨hrace, fits_single hrace⟩
  | schedPreemptUser =>
    exact List.forall_mem_cons.mpr ⟨.inl (vacant_of_range (by decide)),
      fits_single (open_slotsFrom (by decide) (.inl (by decide)))⟩
  | faultSpawn =>
    exact fits_single (fits_launch (fun _ => nofun) (open_slotsFrom (by decide) (.inl (by decide))))
  | faultCascade tok2 =>
    simp only [Command.sections]
    cases hn : Command.upToEight tok2 with
    | none => exact fits_none
    | some n =>
      have hle := (upToEight_some hn).2
      exact fits_single (fits_launch (fun _ => nofun)
        (open_slotsFrom (by decide) (.inl (by omega))))
  | ipcStress tok2 => exact fits_stress hclear
  | serviceRestart tok2 =>
    simp only [Command.sections]
    split
    · rename_i htok
      subst htok
      exact List.forall_mem_cons.mpr ⟨fun _ _ => .inr rfl, fits_single trivial⟩
    · exact fits_none
  | migrate tok1 tok2 =>
    simp only [Command.sections]
    split
    · exact List.forall_mem_cons.mpr ⟨fits_launch_pair (fun _ => nofun) (fun _ => nofun)
        (open_slotsFrom (by decide) (.inl (by decide)))
        (open_slotsFrom (by decide) (.inl (by decide))), fits_single trivial⟩
    · exact fits_none
  | client cmd =>
    simp only [Command.sections]
    cases cmd.request with
    | error => exact fits_none
    | ok req => exact fits_single trivial
  | ipcTyped tok2 =>
    simp only [Command.sections]
    cases parseUsize tok2 with
    | none => exact fits_none
    | some schema =>
      by_cases h : schema > 3
      · simp only [h, if_true]
        exact fits_none
      · simp only [h, if_false]
        exact fits_single trivial
  | syncAcquire tok2 | syncRelease tok2 =>
    simp only [Command.sections]
    cases parseUsize tok2 with
    | none => exact fits_none
    | some id => exact fits_single trivial
  | ipcSend | fsLs | devRead | devWrite | syncCreate =>
    simp only [Command.sections]
    split
    · first | exact fits_none | exact fits_single trivial
    · first | exact fits_none | exact fits_single trivial
  | benchSched => exact fits_benchSched
  | benchFs => exact fits_benchFs
  | benchAll =>
    exact fits_append (fits_append (fits_append (fits_single trivial) fits_benchSched)
      (fits_single trivial)) fits_benchFs
  | benchContend tok2 =>
    exact List.forall_mem_cons.mpr ⟨trivial, List.forall_mem_cons.mpr ⟨trivial,
      fits_single (fits_launch (fun _ => nofun) (open_contendTasks _))⟩⟩
  | syncDemo =>
    exact List.forall_mem_cons.mpr ⟨trivial, List.forall_mem_cons.mpr
      ⟨fits_launch (fun _ => nofun) open_syncDemoTasks,
        fits_single (fits_launch (fun _ => nofun) open_syncDemoTasks)⟩⟩

/-- The slots of a command that is under way stay clear. -/
theorem Clears.exec (hclear : Clears sh.trace cmd) (hsec : sec ∈ cmd.sections)
    (hexec : sh.exec cmd sec = some sh') : Clears sh'.trace cmd := by
  cases cmd with
  | ipcStress tok2 =>
    intro n hn i hi
    have hassigns : Assigns sec := by
      simp only [Command.sections, hn] at hsec
      rcases List.mem_cons.mp hsec with rfl | hsec
      · trivial
      · obtain rfl := List.mem_singleton.mp hsec
        trivial
    exact (exec_tidy (sections_fit hclear sec hsec) hexec hassigns).vacant i (hclear n hn i hi)
  | _ => trivial

/-- The state between two actions: sound, and what is left of the command at work are
sections of it, with their slots clear. -/
structure Orderly (sh : Shell) : Prop where
  sound : sh.Sound
  running : ∀ cmd secs, sh.running = some (cmd, secs) →
    (∀ sec ∈ secs, sec ∈ cmd.sections) ∧ Clears sh.trace cmd

def Careful (sh : Shell) : ShellAction → Prop
  | .enter cmd => Clears sh.trace cmd
  | _ => True

theorem Orderly.step {a : ShellAction} (h : sh.Orderly) (hcareful : sh.Careful a)
    (hstep : sh.step a = some sh') : sh'.Orderly := by
  cases a with
  | enter cmd =>
    simp only [Shell.step] at hstep
    split at hstep
    · cases hstep
      refine ⟨⟨h.sound.agrees, h.sound.undisturbed⟩, fun cmd' secs hrun => ?_⟩
      cases hrun
      exact ⟨fun _ => id, hcareful⟩
    · cases hstep
  | advance =>
    simp only [Shell.step] at hstep
    split at hstep
    · cases hstep
    · cases hstep
      exact ⟨⟨h.sound.agrees, h.sound.undisturbed⟩, fun _ _ hrun => by cases hrun⟩
    · rename_i cmd sec rest hrun
      obtain ⟨hsecs, hclear⟩ := h.running cmd _ hrun
      obtain ⟨mid, hexec, hmid⟩ := Option.map_eq_some_iff.mp hstep
      subst hmid
      have hsec := hsecs sec List.mem_cons_self
      have hsound := h.sound.exec (sections_fit hclear sec hsec) hexec
      have hstill : Clears mid.trace cmd := hclear.exec hsec hexec
      refine ⟨⟨hsound.agrees, hsound.undisturbed⟩, fun cmd' secs hrun' => ?_⟩
      cases hrun'
      exact ⟨fun s hs => hsecs s (List.mem_cons_of_mem sec hs), hstill⟩
  | elsewhere kernel =>
    simp only [Shell.step] at hstep
    split at hstep
    · rename_i hkeep
      cases hstep
      refine ⟨h.sound.keep rfl (fun i hi => ?_), h.running⟩
      have hsome := hkeep i (Option.isSome_iff_ne_none.mpr hi)
      exact Option.isSome_iff_ne_none.mp hsome
    · cases hstep

/-- Assignments that leave a service alone are made elsewhere. -/
theorem Undisturbed.spares {writes trace : List SlotWrite} {svc : Standing}
    (h : Undisturbed (writes ++ trace)) (hcmd : ∀ w ∈ writes, w.command ≠ Command.restartEcho)
    (hst : Stands trace svc) :
    (∀ w ∈ writes, w.slot ≠ svc.slot) ∧ Stands (writes ++ trace) svc := by
  induction writes with
  | nil => exact ⟨fun _ hw => absurd hw List.not_mem_nil, hst⟩
  | cons w writes ih =>
    obtain ⟨hothers, hstill⟩ := ih h.2 (fun v hv => hcmd v (List.mem_cons_of_mem w hv))
    have hslot : w.slot ≠ svc.slot := fun he => hcmd w List.mem_cons_self (h.1 svc he hstill)
    refine ⟨List.forall_mem_cons.mpr ⟨hslot, hothers⟩, ?_⟩
    rw [Stands, List.cons_append, holder_cons, if_neg hslot]
    exact hstill

theorem launch_trace (sh : Shell) (cmd : Command) (l : Launch) :
    (sh.launch cmd l).trace =
      (l.slots.map (fun i => ⟨cmd, i, some l.entry⟩)).reverse ++ sh.trace := by
  have hputs : ∀ (slots : List (Fin maxTasks)) (table : CapTable) (sh : Shell),
      (slots.foldl (fun sh i => sh.put cmd i (some l.entry) (sh.system.spawn i table)) sh).trace =
        (slots.map (fun i => ⟨cmd, i, some l.entry⟩)).reverse ++ sh.trace := by
    intro slots table
    induction slots with
    | nil => exact fun _ => rfl
    | cons i slots ih =>
      intro sh
      rw [List.foldl_cons, ih, List.map_cons, List.reverse_cons, List.append_assoc]
      rfl
  exact hputs l.slots _ _

/-- What a batch of launches assigns. -/
theorem launches_trace (cmd : Command) (batch : List Launch) (sh : Shell) : ∃ writes,
    (batch.foldl (fun sh l => sh.launch cmd l) sh).trace = writes ++ sh.trace ∧
      (∀ w ∈ writes, w.command = cmd) ∧
      ∀ l ∈ batch, ∀ i ∈ l.slots, ∃ w ∈ writes, w.slot = i := by
  induction batch generalizing sh with
  | nil => exact ⟨[], rfl, by simp, by simp⟩
  | cons l batch ih =>
    obtain ⟨writes, htrace, hcmd, hslots⟩ := ih (sh.launch cmd l)
    refine ⟨writes ++ (l.slots.map (fun i => ⟨cmd, i, some l.entry⟩)).reverse, ?_, ?_, ?_⟩
    · rw [List.foldl_cons, htrace, launch_trace, List.append_assoc]
    · intro w hw
      rcases List.mem_append.mp hw with hw | hw
      · exact hcmd w hw
      · obtain ⟨i, _, rfl⟩ := List.mem_map.mp (List.mem_reverse.mp hw)
        rfl
    · intro l' hl' i hi
      rcases List.mem_cons.mp hl' with rfl | hl'
      · exact ⟨_, List.mem_append_right _ (List.mem_reverse.mpr (List.mem_map_of_mem hi)), rfl⟩
      · obtain ⟨w, hw, hslot⟩ := hslots l' hl' i hi
        exact ⟨w, List.mem_append_left _ hw, hslot⟩

/-- The workers of `ipc stress` fill its slots. -/
theorem stressBatch_covers {n : Nat} {i : Fin maxTasks} (h : i ∈ slotsFrom 73 (2 * n)) :
    ∃ l ∈ Command.stressBatch n, i ∈ l.slots := by
  obtain ⟨hle, hlt⟩ := mem_slotsFrom.mp h
  have hpair : (i.val - 73) / 2 ∈ List.range n := List.mem_range.mpr (by omega)
  rcases Nat.mod_two_eq_zero_or_one (i.val - 73) with heven | hodd
  · exact ⟨_, List.mem_flatMap.mpr ⟨_, hpair, List.mem_cons_self⟩, mem_slotsFrom.mpr (by omega)⟩
  · exact ⟨_, List.mem_flatMap.mpr ⟨_, hpair, List.mem_cons_of_mem _ List.mem_cons_self⟩,
      mem_slotsFrom.mpr (by omega)⟩

/-- An `ipc stress` whose slots are not clear replaces a service with its first section. -/
theorem stress_disturbs {tok2 : List UInt8} {mid : Shell}
    (hclear : ¬ Clears sh.trace (.ipcStress tok2))
    (henter : sh.step (.enter (.ipcStress tok2)) = some mid) (hadvance : mid.step .advance = some sh') :
    ¬ Undisturbed sh'.trace := by
  simp only [Clears, Vacant, not_forall, not_not] at hclear
  obtain ⟨n, hn, i, hi, svc, rfl, hst⟩ := hclear
  simp only [Shell.step] at henter
  split at henter
  · cases henter
    simp only [Shell.step, Command.sections, hn, Shell.exec, Option.map_some, Option.some.injEq]
      at hadvance
    subst hadvance
    obtain ⟨writes, htrace, hcmd, hslots⟩ := launches_trace (.ipcStress tok2) (Command.stressBatch n)
      { sh with running := some (.ipcStress tok2, (Command.ipcStress tok2).sections) }
    intro h
    simp only [Command.sections, hn] at htrace
    have hall : Undisturbed (writes ++ sh.trace) := htrace ▸ h
    have hspares := hall.spares (fun w hw => by rw [hcmd w hw]; exact nofun) hst
    obtain ⟨l, hl, hin⟩ := stressBatch_covers hi
    obtain ⟨w, hw, hslot⟩ := hslots l hl svc.slot hin
    exact hspares.1 w hw hslot
  · cases henter

/-- However the console's commands are run, if `ipc stress` is only entered when its
slots are clear: a service that has been started keeps its slot, and no command but
`service restart echo` assigns it. Entered when they are not, it takes a service's slot. -/
theorem services_undisturbed {system : System}
    (hr : Lib.Run (Lib.Guarded Careful (Lib.Steps step)) (boot system) as sh) :
    Undisturbed sh.trace ∧ (∀ svc, Stands sh.trace svc → sh.tasks svc.slot ≠ none) ∧
      ∀ tok2 mid sh', ¬ Clears sh.trace (.ipcStress tok2) →
        sh.step (.enter (.ipcStress tok2)) = some mid → mid.step .advance = some sh' →
        ¬ Undisturbed sh'.trace := by
  have hboot : (boot system).Orderly :=
    ⟨⟨fun _ hi => absurd rfl hi, trivial⟩, fun _ _ hrun => by cases hrun⟩
  have hsh : sh.Orderly := hr.invariant hboot (fun _ _ _ h hstep => h.step hstep.1 hstep.2)
  refine ⟨hsh.sound.undisturbed, fun svc hst => hsh.sound.agrees svc.slot ?_,
    fun _ _ _ => stress_disturbs⟩
  rw [hst]
  exact Option.some_ne_none _

def console : Shell := boot (System.ofTasks [Task.new 0 0 64 CapTable.new])

/-- `kv get 0` starts the KV service; `ipc stress 4` stays below its slot. -/
theorem services_undisturbed_four : ∃ sh,
    Lib.Run (Lib.Guarded Careful (Lib.Steps step)) console
      [.enter (.client (.kvGet [48])), .advance, .advance, .enter (.ipcStress [52]), .advance,
        .advance, .advance] sh ∧
    Stands sh.trace (.store .kv) ∧ Undisturbed sh.trace := by
  have hclear : ∀ trace, Clears trace (.ipcStress [52]) := by
    intro trace n hn i hi
    cases hn
    exact vacant_of_slotsFrom (by decide) (.inl (by decide)) hi
  obtain ⟨sh, hr, hstands⟩ : ∃ sh,
      Lib.Run (Lib.Guarded Careful (Lib.Steps step)) console
        [.enter (.client (.kvGet [48])), .advance, .advance, .enter (.ipcStress [52]), .advance,
          .advance, .advance] sh ∧ Stands sh.trace (.store .kv) :=
    ⟨_, .cons ⟨trivial, rfl⟩ (.cons ⟨trivial, rfl⟩ (.cons ⟨trivial, rfl⟩
      (.cons ⟨hclear _, rfl⟩ (.cons ⟨trivial, rfl⟩ (.cons ⟨trivial, rfl⟩
        (.cons ⟨trivial, rfl⟩ (.nil _))))))), rfl⟩
  exact ⟨sh, hr, hstands, (services_undisturbed hr).1⟩

/-- `ipc stress 5` puts a worker where the KV service stands, and removes it. -/
theorem stress_removes_service : ∃ mid sh,
    Lib.Run (Lib.Steps step) console [.enter (.client (.kvGet [48])), .advance, .advance] mid ∧
    Stands mid.trace (.store .kv) ∧
    Lib.Run (Lib.Steps step) mid [.enter (.ipcStress [53]), .advance, .advance, .advance] sh ∧
    sh.tasks (Standing.store .kv).slot = none ∧ ¬ Undisturbed sh.trace := by
  refine ⟨_, _, Lib.run_of_execute rfl, rfl, Lib.run_of_execute rfl, rfl, fun h => ?_⟩
  have hworker := h.2.2.2.2.2.2.2.2.2.2.1 (.store .kv) rfl rfl
  cases hworker

end Shell

end Runix
