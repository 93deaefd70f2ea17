import Runix.Console
import Runix.Proofs.Revocation

namespace Runix

def Resource.object : Resource → Resource
  | .memoryMapping startVaddr size _ => .memoryMapping startVaddr size false
  | .kvEntry slot _ _ => .kvEntry slot false false
  | .logChannel kind _ _ => .logChannel kind false false
  | .fsNode mount _ _ => .fsNode mount false false
  | .device id _ _ => .device id false false
  | r => r

def Resource.readable : Resource → Bool
  | .kvEntry _ readable _ => readable
  | .logChannel _ readable _ => readable
  | .fsNode _ readable _ => readable
  | .device _ readable _ => readable
  | _ => true

def Resource.writable : Resource → Bool
  | .memoryMapping _ _ writeable => writeable
  | .kvEntry _ _ writable => writable
  | .logChannel _ _ writable => writable
  | .fsNode _ _ writable => writable
  | .device _ _ writable => writable
  | _ => true

def Capability.canRead (c : Capability) : Bool := c.read && c.resource.readable

def Capability.canWrite (c : Capability) : Bool := c.write && c.resource.writable

structure Delegation.Attenuates (d : Delegation) : Prop where
  grant : d.donor.grant = true
  object : d.derived.resource.object = d.donor.resource.object
  read : d.derived.canRead = true → d.donor.canRead = true
  write : d.derived.canWrite = true → d.donor.canWrite = true

theorem Resource.object_isKv {r : Resource} {slot : Nat} (h : r.isKv slot = true) :
    r.object = .kvEntry slot false false := by
  cases r with
  | kvEntry s _ _ =>
    simp only [isKv, decide_eq_true_eq] at h
    rw [h]
    rfl
  | _ => cases h

theorem Resource.object_isLog {r : Resource} {kind : UInt8} (h : r.isLog kind = true) :
    r.object = .logChannel kind false false := by
  cases r with
  | logChannel c _ _ =>
    simp only [isLog, decide_eq_true_eq] at h
    rw [h]
    rfl
  | _ => cases h

section
variable {donor : Capability} {target : Nat} {report : Nat → String}

/-- The capability that `kv grant` writes is readable, whatever the donor is. -/
theorem attenuates_kv {slot : Nat} (h : donor.resource.isKv slot = true) :
    (⟨donor, target, ⟨.kvEntry slot true false, true, false, false, false, 0, some donor.id⟩, report⟩ :
      Delegation).Attenuates ↔
    donor.grant = true ∧ donor.read = true ∧ donor.resource.readable = true := by
  constructor
  · intro hd
    have hread : donor.canRead = true := hd.read rfl
    rw [Capability.canRead, Bool.and_eq_true] at hread
    exact ⟨hd.grant, hread⟩
  · rintro ⟨hgrant, hread⟩
    refine ⟨hgrant, (Resource.object_isKv h).symm, fun _ => ?_, fun hwrite => ?_⟩
    · rw [Capability.canRead, Bool.and_eq_true]
      exact hread
    · cases hwrite

/-- The capability that `log grant` writes has the donor's rights, as far as they
are asked for, also as its flags. -/
theorem attenuates_log {kind : UInt8} {wantsRead wantsWrite : Bool}
    (h : donor.resource.isLog kind = true) :
    (⟨donor, target, ⟨.logChannel kind (donor.read && wantsRead) (donor.write && wantsWrite),
      donor.read && wantsRead, donor.write && wantsWrite, false, false, 0, some donor.id⟩, report⟩ :
      Delegation).Attenuates ↔
    donor.grant = true ∧
      (wantsRead = true → donor.read = true → donor.resource.readable = true) ∧
      (wantsWrite = true → donor.write = true → donor.resource.writable = true) := by
  constructor
  · intro hd
    refine ⟨hd.grant, fun hreq hread => ?_, fun hreq hwrite => ?_⟩
    · have hcan : donor.canRead = true :=
        hd.read (by simp only [Capability.canRead, Resource.readable, hreq, hread, Bool.and_self])
      rw [Capability.canRead, Bool.and_eq_true] at hcan
      exact hcan.2
    · have hcan : donor.canWrite = true :=
        hd.write (by simp only [Capability.canWrite, Resource.writable, hreq, hwrite, Bool.and_self])
      rw [Capability.canWrite, Bool.and_eq_true] at hcan
      exact hcan.2
  · rintro ⟨hgrant, hread, hwrite⟩
    refine ⟨hgrant, (Resource.object_isLog h).symm, fun hcan => ?_, fun hcan => ?_⟩
    · simp only [Capability.canRead, Resource.readable, Bool.and_self, Bool.and_eq_true] at hcan ⊢
      exact ⟨hcan.1, hread hcan.2 hcan.1⟩
    · simp only [Capability.canWrite, Resource.writable, Bool.and_self, Bool.and_eq_true] at hcan ⊢
      exact ⟨hcan.1, hwrite hcan.2 hcan.1⟩

end

namespace CapTable
variable {t t' : CapTable} {wanted : Resource → Bool} {i : Fin maxCaps} {c : Capability}

theorem firstSlot_some (h : t.firstSlot wanted = some i) :
    ∃ c, t.slots i = some c ∧ wanted c.resource = true := by
  have hi := List.find?_some h
  simpa [Option.any_eq_true] using hi

theorem firstCap_some (h : t.firstCap wanted = some c) :
    (∃ i, t.slots i = some c) ∧ wanted c.resource = true := by
  obtain ⟨i, hi, hc⟩ := Option.bind_eq_some_iff.mp h
  obtain ⟨c', hc', hw⟩ := firstSlot_some hi
  cases hc.symm.trans hc'
  exact ⟨⟨i, hc⟩, hw⟩

/-- The derived capability lands in a free slot with a new identity. -/
theorem insertDerived_some {counter counter' donor : Nat}
    (h : t.insertDerived counter c donor = (some t', counter')) : ∃ i, t.slots i = none ∧
      t'.slots = Function.update t.slots i (some { c with id := counter, origin := some donor }) := by
  unfold insertDerived at h
  rcases t.insert_cases counter c with ⟨i, hi, hins⟩ | ⟨_, hins⟩
  · rw [hins] at h
    cases h
    refine ⟨i, hi, ?_⟩
    simp
  · rw [hins] at h
    cases h

theorem insertDerived_iff (c : Capability) (counter donor : Nat) :
    (∃ t' counter', t.insertDerived counter c donor = (some t', counter')) ↔
      ∃ i, t.slots i = none := by
  unfold insertDerived
  rcases t.insert_cases counter c with ⟨i, hi, hins⟩ | ⟨hfull, hins⟩
  · rw [hins]
    exact iff_of_true ⟨_, _, rfl⟩ ⟨i, hi⟩
  · rw [hins]
    refine iff_of_false ?_ (fun ⟨i, hi⟩ => hfull i hi)
    rintro ⟨t', counter', h⟩
    cases h

end CapTable

/-- The slot exists, and a task in it has a free slot for a capability. -/
def Kernel.HasRoom (k : Kernel) (target : Nat) : Prop :=
  ∃ h : target < maxTasks, ∀ t, k.sched.tasks ⟨target, h⟩ = some t → ∃ i, t.capTable.slots i = none

namespace GrantCommand

def Fits (k : Kernel) (d : Delegation) : GrantCommand → Prop
  | .cap _ => True
  | _ => k.HasRoom d.target

def Permits (donor : Capability) : GrantCommand → Prop
  | .cap _ => True
  | .kv _ _ => donor.grant = true ∧ donor.read = true ∧ donor.resource.readable = true
  | .log _ tok3 => donor.grant = true ∧
      (reqRead (logRights tok3) = true → donor.read = true → donor.resource.readable = true) ∧
      (reqWrite (logRights tok3) = true → donor.write = true → donor.resource.writable = true)

end GrantCommand

namespace Kernel
variable {k k' : Kernel} {shell : Task} {d : Delegation} {cmd : GrantCommand}

theorem getShellCaps_eq (h : k.sched.getTask 64 = some shell) :
    k.getShellCaps = some shell.capTable := by
  rw [getShellCaps, h]
  rfl

/-- `cap grant` refuses, or attenuates a capability of the shell. -/
theorem capDelegation_cases (h : k.sched.getTask 64 = some shell) (tok2 : List UInt8) :
    (∃ reply, k.capDelegation tok2 = some (.error reply)) ∨
    ∃ d i, k.capDelegation tok2 = some (.ok d) ∧ shell.capTable.slots i = some d.donor ∧
      d.target = 66 ∧ d.Attenuates := by
  unfold capDelegation
  cases parseUsize tok2 with
  | none => exact .inl ⟨_, rfl⟩
  | some id =>
    simp only [getShellCaps_eq h]
    by_cases hid : maxCaps ≤ id
    · simp only [hid, if_true]
      exact .inl ⟨_, rfl⟩
    · simp only [hid, if_false]
      cases hget : shell.capTable.get id with
      | none => exact .inl ⟨_, rfl⟩
      | some donor =>
        cases hatt : donor.attenuate ⟨true, true, false⟩ with
        | error u =>
          simp only [hatt]
          exact .inl ⟨_, rfl⟩
        | ok derived =>
          obtain ⟨hlt, hslot⟩ := CapTable.get_eq_some.mp hget
          simp only [hatt]
          refine .inr ⟨_, ⟨id, hlt⟩, rfl, hslot, rfl, ?_⟩
          obtain ⟨hgrant, rfl⟩ := attenuate_ok hatt
          refine ⟨hgrant, rfl, ?_, ?_⟩
          · simp [Capability.canRead]
          · simp [Capability.canWrite]

/-- `kv grant` refuses, or passes on read access whatever the donor has. -/
theorem kvDelegation_cases (h : k.sched.getTask 64 = some shell) (tok2 tok3 : List UInt8) :
    (∃ reply, k.kvDelegation tok2 tok3 = some (.error reply)) ∨
    ∃ d i, k.kvDelegation tok2 tok3 = some (.ok d) ∧ shell.capTable.slots i = some d.donor ∧
      (d.Attenuates ↔ (GrantCommand.kv tok2 tok3).Permits d.donor) := by
  unfold kvDelegation
  cases parseUsize tok2 with
  | none => exact .inl ⟨_, rfl⟩
  | some slot =>
    cases parseUsize tok3 with
    | none => exact .inl ⟨_, rfl⟩
    | some target =>
      simp only [getShellCaps_eq h]
      cases hcap : shell.capTable.firstCap (Resource.isKv slot) with
      | none => exact .inl ⟨_, rfl⟩
      | some donor =>
        obtain ⟨⟨i, hi⟩, hkv⟩ := CapTable.firstCap_some hcap
        exact .inr ⟨_, i, rfl, hi, attenuates_kv hkv⟩

/-- `log grant` refuses, or passes on the donor's rights, not its flags. -/
theorem logDelegation_cases (h : k.sched.getTask 64 = some shell) (tok2 tok3 : List UInt8) :
    (∃ reply, k.logDelegation tok2 tok3 = some (.error reply)) ∨
    ∃ d i, k.logDelegation tok2 tok3 = some (.ok d) ∧ shell.capTable.slots i = some d.donor ∧
      (d.Attenuates ↔ (GrantCommand.log tok2 tok3).Permits d.donor) := by
  unfold logDelegation
  cases parseUsize tok2 with
  | none => exact .inl ⟨_, rfl⟩
  | some kindVal =>
    simp only [getShellCaps_eq h]
    split
    · exact .inl ⟨_, rfl⟩
    · split
      · exact .inl ⟨_, rfl⟩
      · split
        · exact .inl ⟨_, rfl⟩
        · cases parseUsize (logTarget tok3) with
          | none => exact .inl ⟨_, rfl⟩
          | some target =>
            cases hcap : shell.capTable.firstCap (Resource.isLog (UInt8.ofNat kindVal)) with
            | none => exact .inl ⟨_, rfl⟩
            | some donor =>
              obtain ⟨⟨i, hi⟩, hlog⟩ := CapTable.firstCap_some hcap
              exact .inr ⟨_, i, rfl, hi, attenuates_log hlog⟩

/-- The target holds the derived capability under a new identity, and names the
donor as its origin. -/
def Granted (k k' : Kernel) (d : Delegation) : Prop :=
  ∃ i t j, i.val = d.target ∧ k'.sched.tasks i = some t ∧
    t.capTable.slots j = some { d.derived with id := k.nextCapId, origin := some d.donor.id }

/-- A table built by `insertDerived`, installed in a task, makes the grant. -/
theorem granted_of_insert {t table : CapTable} {counter : Nat} (task : Task)
    (h : d.target < maxTasks) (hins : t.insertDerived k.nextCapId d.derived d.donor.id =
      (some table, counter)) :
    k.Granted { k with
      sched := k.sched.set ⟨d.target, h⟩ (some { task with capTable := table })
      nextCapId := counter } d := by
  obtain ⟨j, _, hslots⟩ := CapTable.insertDerived_some hins
  refine ⟨⟨d.target, h⟩, _, j, rfl, Scheduler.set_tasks_self .., ?_⟩
  rw [hslots, Function.update_self]

theorem grantToNewTask_granted (h : d.target < maxTasks) :
    ∃ k', k.grantToNewTask d = some k' ∧ k.Granted k' d := by
  have hempty : ∃ i, CapTable.new.slots i = none := ⟨⟨0, by decide⟩, rfl⟩
  obtain ⟨table, counter, hins⟩ :=
    (CapTable.insertDerived_iff d.derived k.nextCapId d.donor.id).mpr hempty
  refine ⟨_, ?_, granted_of_insert (Task.new k.stackBase k.memory.activePml4 d.target table) h hins⟩
  simp only [grantToNewTask, hins, h, dif_pos]
  rfl

def recipient (k : Kernel) (i : Fin maxTasks) : Task :=
  (k.sched.tasks i).getD (Task.new k.stackBase k.memory.activePml4 i CapTable.new)

theorem recipient_room {i : Fin maxTasks} : (∃ j, (k.recipient i).capTable.slots j = none) ↔
    ∀ t, k.sched.tasks i = some t → ∃ j, t.capTable.slots j = none := by
  unfold recipient
  cases k.sched.tasks i with
  | none => exact iff_of_true ⟨⟨0, by decide⟩, rfl⟩ (fun t ht => (by cases ht))
  | some task =>
    constructor
    · intro hroom t ht
      cases ht
      exact hroom
    · intro hroom
      exact hroom task rfl

theorem grantToTask_room (h : k.grantToTask d = some k') : k.HasRoom d.target := by
  unfold grantToTask at h
  split at h
  · rename_i hlt
    refine ⟨hlt, recipient_room.mp ?_⟩
    dsimp only at h
    split at h
    · cases h
    · rename_i table counter hins
      exact (CapTable.insertDerived_iff d.derived k.nextCapId d.donor.id).mp ⟨table, counter, hins⟩
  · cases h

/-- The insertion into the target's table succeeds exactly if it fits. -/
theorem grantToTask_iff :
    (∃ k', k.grantToTask d = some k' ∧ k.Granted k' d) ↔ k.HasRoom d.target := by
  constructor
  · rintro ⟨k', hk, _⟩
    exact grantToTask_room hk
  · rintro ⟨h, hroom⟩
    obtain ⟨table, counter, hins⟩ :=
      (CapTable.insertDerived_iff d.derived k.nextCapId d.donor.id).mpr (recipient_room.mpr hroom)
    refine ⟨_, ?_, granted_of_insert (k.recipient ⟨d.target, h⟩) h hins⟩
    simp only [recipient] at hins
    simp only [grantToTask, dif_pos h, hins]
    rfl

/-- What a grant command that found a donor does. -/
theorem consoleGrant_iff (hd : k.delegation cmd = some (.ok d)) :
    (∃ k' reply, k.consoleGrant cmd = some (k', reply) ∧ k.Granted k' d) ↔
      ∃ k', k.deliver d cmd = some k' ∧ k.Granted k' d := by
  unfold consoleGrant
  rw [hd]
  constructor
  · rintro ⟨k', reply, hk, hgranted⟩
    obtain ⟨k'', hdeliver, heq⟩ := Option.map_eq_some_iff.mp hk
    obtain ⟨rfl, _⟩ := Prod.mk.inj heq
    exact ⟨k'', hdeliver, hgranted⟩
  · rintro ⟨k', hdeliver, hgranted⟩
    exact ⟨k', .ok (d.report k.nextCapId), by simp only [hdeliver, Option.map_some], hgranted⟩

/-- Every grant command refuses, or has found a donor in the shell's table. What
it then does depends on the target, and whether it attenuates on the donor. -/
theorem delegation_cases (h : k.sched.getTask 64 = some shell) (cmd : GrantCommand) :
    (∃ reply, k.delegation cmd = some (.error reply)) ∨
    ∃ d i, k.delegation cmd = some (.ok d) ∧ shell.capTable.slots i = some d.donor ∧
      ((∃ k', k.deliver d cmd = some k' ∧ k.Granted k' d) ↔ cmd.Fits k d) ∧
      (d.Attenuates ↔ cmd.Permits d.donor) := by
  cases cmd with
  | cap tok2 =>
    rcases capDelegation_cases h tok2 with hreply | ⟨d, i, hd, hi, htarget, hatt⟩
    · exact .inl hreply
    · have hlt : d.target < maxTasks := by
        rw [htarget]
        decide
      exact .inr ⟨d, i, hd, hi, iff_of_true (grantToNewTask_granted hlt) trivial,
        iff_of_true hatt trivial⟩
  | kv tok2 tok3 =>
    rcases kvDelegation_cases h tok2 tok3 with hreply | ⟨d, i, hd, hi, hatt⟩
    · exact .inl hreply
    · exact .inr ⟨d, i, hd, hi, grantToTask_iff, hatt⟩
  | log tok2 tok3 =>
    rcases logDelegation_cases h tok2 tok3 with hreply | ⟨d, i, hd, hi, hatt⟩
    · exact .inl hreply
    · exact .inr ⟨d, i, hd, hi, grantToTask_iff, hatt⟩

/-- Console delegation. -/
theorem console_delegation (h : k.sched.getTask 64 = some shell) (cmd : GrantCommand) :
    (∃ reply, k.delegation cmd = some (.error reply) ∧ k.consoleGrant cmd = some (k, reply)) ∨
    ∃ d i, k.delegation cmd = some (.ok d) ∧ shell.capTable.slots i = some d.donor ∧
      ((∃ k' reply, k.consoleGrant cmd = some (k', reply) ∧ k.Granted k' d ∧ d.Attenuates) ↔
        cmd.Fits k d ∧ cmd.Permits d.donor) := by
  rcases delegation_cases h cmd with ⟨reply, hreply⟩ | ⟨d, i, hd, hi, hfits, hatt⟩
  · refine .inl ⟨reply, hreply, ?_⟩
    rw [consoleGrant, hreply]
  · refine .inr ⟨d, i, hd, hi, ?_⟩
    rw [← hfits, ← hatt, ← consoleGrant_iff hd]
    constructor
    · rintro ⟨k', reply, hk, hgranted, hattenuates⟩
      exact ⟨⟨k', reply, hk, hgranted⟩, hattenuates⟩
    · rintro ⟨⟨k', reply, hk, hgranted⟩, hattenuates⟩
      exact ⟨k', reply, hk, hgranted, hattenuates⟩

def shellWith (c : Capability) : Kernel :=
  .ofTasks [Task.new 0 0 64 (CapTable.ofList [c])] 2 none

def lendable : Capability := ⟨.kvEntry 3 true true, true, true, true, false, 1, none⟩

def writeOnly : Capability := ⟨.kvEntry 3 false true, false, true, false, false, 1, none⟩

/-- `kv grant 3 70` with a lendable entry. -/
theorem console_delegation_lendable : ∃ k' reply d,
    (shellWith lendable).consoleGrant (.kv [51] [55, 48]) = some (k', reply) ∧
    (shellWith lendable).Granted k' d ∧ d.target = 70 ∧ d.Attenuates := by
  have hshell : (shellWith lendable).sched.getTask 64 = some _ := rfl
  rcases console_delegation hshell (.kv [51] [55, 48]) with ⟨reply, hreply, _⟩ | ⟨d, i, hd, _, hiff⟩
  · cases hreply
  · cases hd
    obtain ⟨k', reply, hk, hgranted, hatt⟩ :=
      hiff.mpr ⟨⟨by decide, fun t ht => (by cases ht)⟩, rfl, rfl, rfl⟩
    exact ⟨k', reply, _, hk, hgranted, rfl, hatt⟩

/-- `kv grant 3 70` with a write-only entry. Task 70 can read it afterwards. -/
theorem write_only_entry_read : ∃ k' reply t c,
    (shellWith writeOnly).consoleGrant (.kv [51] [55, 48]) = some (k', reply) ∧
    k'.sched.tasks ⟨70, by decide⟩ = some t ∧ t.capTable.slots ⟨0, by decide⟩ = some c ∧
    c.resource.object = writeOnly.resource.object ∧ c.origin = some writeOnly.id ∧
    c.canRead = true ∧ writeOnly.grant = false ∧ writeOnly.canRead = false :=
  ⟨_, _, _, _, rfl, rfl, rfl, rfl, rfl, rfl, rfl, rfl⟩

/-- Revocation by the kernel of one slot, which `dispatch_cap_revoke` does for a
caller that may. -/
def revokeSlot (k : Kernel) (actor target : TaskId) (capIdx : Nat) : Kernel :=
  match k.sched.getTask target with
  | none => k
  | some task =>
    match task.capTable.kernelRevoke capIdx with
    | (some cap, table) =>
      (({ k with sched := k.sched.modify target (fun t => { t with capTable := table }) }
          : Kernel).record .revoke actor target cap.resource capIdx).propagateRevocation cap.id
    | (none, _) => k

theorem dispatchCapRevoke_eq {caller target : TaskId} (capIdx : Nat)
    (h : k.currentHasGrantCapTo target = true) :
    (k.dispatchCapRevoke caller target capIdx).1 = k.revokeSlot caller target capIdx := by
  rw [dispatchCapRevoke, revokeSlot, h]
  cases k.sched.getTask target with
  | none => rfl
  | some task =>
    cases hcap : task.capTable.get capIdx <;> simp [CapTable.kernelRevoke, hcap]

def shellSlot (s : Fin maxCaps) : Slot := (⟨64, by decide⟩, s)

def cleared (k : Kernel) (shell : Task) (s : Fin maxCaps) : Kernel :=
  { k with sched := k.sched.modify 64 (fun t => { t with capTable := shell.capTable.clear s }) }

theorem cleared_store (h : k.sched.getTask 64 = some shell) (s : Fin maxCaps) :
    (k.cleared shell s).sched.store = Function.update k.sched.store (shellSlot s) none := by
  obtain ⟨_, hlt, htask⟩ := Scheduler.getTask_some h
  change (k.sched.modify 64 _).store = _
  rw [Scheduler.modify_some h hlt]
  exact Scheduler.store_set_slot htask (CapTable.clear_eq ..)

theorem store_shellSlot (h : k.sched.getTask 64 = some shell) (s : Fin maxCaps) :
    k.sched.store (shellSlot s) = shell.capTable.slots s := by
  obtain ⟨_, _, htask⟩ := Scheduler.getTask_some h
  simp only [Scheduler.store, shellSlot, htask, Option.bind_some]

theorem shellRevoke_eq (h : k.sched.getTask 64 = some shell) (s : Fin maxCaps) :
    k.shellRevoke s = some (shell.capTable.slots s, k.cleared shell s) := by
  rw [shellRevoke, h]
  simp only [CapTable.kernelRevoke, CapTable.get_val]
  rfl

theorem getShellCaps_cleared (h : k.sched.getTask 64 = some shell) (s : Fin maxCaps) :
    ∃ t, (k.cleared shell s).getShellCaps = some t := by
  refine ⟨shell.capTable.clear s, ?_⟩
  have hself := Scheduler.getTask_modify_self k.sched 64
    (f := fun t => { t with capTable := shell.capTable.clear s }) (fun _ => rfl)
  rw [h] at hself
  rw [getShellCaps]
  change ((k.sched.modify 64 _).getTask 64).map _ = _
  rw [hself]
  rfl

theorem writeDenied_same (slotIdx : Nat) :
    (k.writeDenied slotIdx).1.sched = k.sched ∧ (k.writeDenied slotIdx).1.audit = k.audit := by
  unfold writeDenied sysSerialWrite
  by_cases hidx : slotIdx = 0
  · simp only [hidx, if_true]
    cases k.sched.currentTaskId with
    | none => exact ⟨rfl, rfl⟩
    | some id =>
      by_cases hcap : k.hasSerialCap id 0 = true
      · simp only [hcap, if_true]
        exact ⟨rfl, rfl⟩
      · simp only [hcap]
        exact ⟨rfl, rfl⟩
  · simp only [hidx, if_false, and_self]

end Kernel

def RevokeCommand.selects (t : CapTable) : RevokeCommand → Option (Fin maxCaps)
  | .cap tok2 => (parseUsize tok2).bind (fun idx => if h : idx < maxCaps then some ⟨idx, h⟩ else none)
  | .kv tok2 => (parseUsize tok2).bind (fun slot => t.firstSlot (Resource.isKv slot))
  | .log tok2 => (parseUsize tok2).bind (fun kind => t.firstSlot (Resource.isLog (UInt8.ofNat kind)))

namespace Kernel
variable {k k' : Kernel} {shell : Task}

/-- A revoke command empties the slot it names, and does nothing else to the
tasks and to the audit log. -/
def Empties (k k' : Kernel) (shell : Task) : Option (Fin maxCaps) → Prop
  | some s => k'.sched = (k.cleared shell s).sched ∧ k'.audit = k.audit
  | none => k'.sched = k.sched ∧ k'.audit = k.audit

theorem revokeFirst_empties (h : k.sched.getTask 64 = some shell) (wanted : Resource → Bool)
    (missing : String) (done : Nat → String) : ∃ k' reply,
      k.revokeFirst wanted missing done = some (k', reply) ∧
      k.Empties k' shell (shell.capTable.firstSlot wanted) := by
  unfold revokeFirst
  rw [getShellCaps_eq h]
  cases hslot : shell.capTable.firstSlot wanted with
  | none =>
    simp only [hslot]
    exact ⟨_, _, rfl, rfl, rfl⟩
  | some s =>
    simp only [hslot, shellRevoke_eq h]
    cases shell.capTable.slots s with
    | none => exact ⟨_, _, rfl, rfl, rfl⟩
    | some c => exact ⟨_, _, rfl, rfl, rfl⟩

theorem capRevoke_empties (h : k.sched.getTask 64 = some shell) (tok2 : List UInt8) : ∃ k' reply,
    k.capRevoke tok2 = some (k', reply) ∧
      k.Empties k' shell ((RevokeCommand.cap tok2).selects shell.capTable) := by
  unfold capRevoke
  cases hparse : parseUsize tok2 with
  | none =>
    simp only [RevokeCommand.selects, hparse, Option.bind_none]
    exact ⟨_, _, rfl, rfl, rfl⟩
  | some idx =>
    simp only [RevokeCommand.selects, hparse, Option.bind_some]
    by_cases hidx : idx < maxCaps
    · have hrev := shellRevoke_eq h ⟨idx, hidx⟩
      obtain ⟨t, ht⟩ := getShellCaps_cleared h ⟨idx, hidx⟩
      simp only [Nat.not_le.mpr hidx, if_false, dif_pos hidx, hrev]
      cases shell.capTable.slots ⟨idx, hidx⟩ with
      | none => exact ⟨_, _, rfl, rfl, rfl⟩
      | some c =>
        simp only [ht]
        obtain ⟨hsched, haudit⟩ := writeDenied_same (k := k.cleared shell ⟨idx, hidx⟩) idx
        exact ⟨_, _, rfl, hsched, haudit⟩
    · simp only [Nat.not_lt.mp hidx, if_true, dif_neg hidx]
      exact ⟨_, _, rfl, rfl, rfl⟩

theorem consoleRevoke_empties (h : k.sched.getTask 64 = some shell) (cmd : RevokeCommand) :
    ∃ k' reply, k.consoleRevoke cmd = some (k', reply) ∧
      k.Empties k' shell (cmd.selects shell.capTable) := by
  cases cmd with
  | cap tok2 => exact capRevoke_empties h tok2
  | kv tok2 =>
    simp only [consoleRevoke, kvRevoke, RevokeCommand.selects]
    cases parseUsize tok2 with
    | none => exact ⟨_, _, rfl, rfl, rfl⟩
    | some slot => exact revokeFirst_empties h ..
  | log tok2 =>
    simp only [consoleRevoke, logRevoke, RevokeCommand.selects]
    cases parseUsize tok2 with
    | none => exact ⟨_, _, rfl, rfl, rfl⟩
    | some kind => exact revokeFirst_empties h ..

def Extends (log log' : AuditLog) : Prop := ∃ evs : List AuditEvent, log' = evs.foldl AuditLog.push log

theorem Extends.trans {log log' log'' : AuditLog} (h : Extends log log') (h' : Extends log' log'') :
    Extends log log'' := by
  obtain ⟨evs, rfl⟩ := h
  obtain ⟨evs', rfl⟩ := h'
  exact ⟨evs ++ evs', (List.foldl_append ..).symm⟩

theorem foldl_push_total (evs : List AuditEvent) (log : AuditLog) :
    log.total ≤ (evs.foldl AuditLog.push log).total := by
  induction evs generalizing log with
  | nil => exact Nat.le_refl _
  | cons ev evs ih => exact Nat.le_of_succ_le (ih (log.push ev))

theorem Extends.total {log log' : AuditLog} (h : Extends log log') : log.total ≤ log'.total := by
  obtain ⟨evs, rfl⟩ := h
  exact foldl_push_total evs log

theorem visit_extends (w : Propagation) (p : Slot) : Extends w.audit (w.visit p.1 p.2).audit := by
  unfold Propagation.visit
  repeat' split
  all_goals first | exact ⟨[], rfl⟩ | exact ⟨[_], rfl⟩

theorem foldl_visit_extends (ps : List Slot) (w : Propagation) :
    Extends w.audit (ps.foldl (fun w p => w.visit p.1 p.2) w).audit := by
  induction ps generalizing w with
  | nil => exact ⟨[], rfl⟩
  | cons p ps ih => exact (visit_extends w p).trans (ih _)

theorem loop_extends (fuel : Nat) (w : Propagation) : Extends w.audit (w.loop fuel).audit := by
  induction fuel generalizing w with
  | zero => exact ⟨[], rfl⟩
  | succ fuel ih =>
    have hpass : Extends w.audit w.pass.audit :=
      foldl_visit_extends slotOrder { w with changed := false }
    rw [Propagation.loop]
    split
    · exact hpass.trans (ih _)
    · exact hpass

theorem install_audit (w : Propagation) (k : Kernel) : (w.install k).audit = w.audit := rfl

theorem propagateRevocation_extends (k : Kernel) (rootId : Nat) :
    Extends k.audit (k.propagateRevocation rootId).audit := by
  rw [propagateRevocation, install_audit]
  exact loop_extends revokedIdsCap ⟨k.sched, k.audit, [rootId], false⟩

/-- A propagation leaves the tables alone exactly if no capability was derived
directly. -/
theorem propagateRevocation_store_iff (k : Kernel) (r : Nat) :
    (k.propagateRevocation r).sched.store = k.sched.store ↔
      ∀ p d, k.sched.store p = some d → d.origin ≠ some r := by
  obtain ⟨rs, hpruned, hclosed⟩ := propagateRevocation_pruned k r
  generalize (k.propagateRevocation r).sched.store = store at hpruned hclosed ⊢
  constructor
  · intro heq p d hd ho
    exact hclosed p d r (by simp only [heq, hd]) ho hpruned.root
  · intro hnone
    have hdesc : ∀ d, capLineage.Descends k.sched.store r d → ∀ p, k.sched.store p ≠ some d := by
      intro d hd
      induction hd with
      | child hp =>
        intro p hc
        exact hnone p _ hc hp
      | step _ hq _ ih => exact absurd hq (ih _)
    funext p
    rcases hpruned.only p with heq | hgone
    · exact heq
    · cases hd : k.sched.store p with
      | none => exact hgone
      | some d => exact absurd hd (hdesc d (hpruned.sound p d hd hgone) p)

/-- What revocation by the kernel does to the shell's slot. -/
theorem revokeSlot_shell (h : k.sched.getTask 64 = some shell) (actor : TaskId) {s : Fin maxCaps}
    {c : Capability} (hc : shell.capTable.slots s = some c) :
    k.revokeSlot actor 64 s =
      ((k.cleared shell s).record .revoke actor 64 c.resource s).propagateRevocation c.id := by
  rw [revokeSlot, h]
  simp only [CapTable.kernelRevoke, CapTable.get_val, hc, cleared]

/-- Emptying the slot is all that revocation by the kernel does to the tables
exactly if nothing else was derived from the capability. -/
theorem cleared_store_iff (h : k.sched.getTask 64 = some shell) (actor : TaskId) {s : Fin maxCaps}
    {c : Capability} (hc : shell.capTable.slots s = some c) :
    (k.cleared shell s).sched.store = (k.revokeSlot actor 64 s).sched.store ↔
      ∀ p d, p ≠ shellSlot s → k.sched.store p = some d → d.origin ≠ some c.id := by
  rw [revokeSlot_shell h actor hc, eq_comm]
  refine (propagateRevocation_store_iff _ c.id).trans ?_
  change (∀ p d, (k.cleared shell s).sched.store p = some d → _) ↔ _
  rw [cleared_store h]
  constructor
  · intro hall p d hp hd
    exact hall p d (by rw [Function.update_of_ne hp, hd])
  · intro hall p d hd
    by_cases hp : p = shellSlot s
    · rw [hp, Function.update_self] at hd
      cases hd
    · rw [Function.update_of_ne hp] at hd
      exact hall p d hp hd

/-- The kernel records the revocation of an occupied slot. -/
theorem revokeSlot_audit_ne (h : k.sched.getTask 64 = some shell) (actor : TaskId) {s : Fin maxCaps}
    {c : Capability} (hc : shell.capTable.slots s = some c) :
    k.audit ≠ (k.revokeSlot actor 64 s).audit := by
  rw [revokeSlot_shell h actor hc]
  intro hlog
  have hmore := propagateRevocation_extends
    ((k.cleared shell s).record .revoke actor 64 c.resource s) c.id
  rw [← hlog] at hmore
  exact absurd hmore.total (Nat.not_succ_le_self _)

theorem revokeSlot_empty (h : k.sched.getTask 64 = some shell) (actor : TaskId) {s : Fin maxCaps}
    (hs : shell.capTable.slots s = none) : k.revokeSlot actor 64 s = k := by
  rw [revokeSlot, h]
  simp only [CapTable.kernelRevoke, CapTable.get_val, hs]

/-- Console revocation. -/
theorem console_revocation (h : k.sched.getTask 64 = some shell) (cmd : RevokeCommand)
    (actor : TaskId) : ∃ k' reply, k.consoleRevoke cmd = some (k', reply) ∧
      (cmd.selects shell.capTable = none → k'.sched = k.sched ∧ k'.audit = k.audit) ∧
      ∀ s, cmd.selects shell.capTable = some s →
        ((k'.sched.store = (k.revokeSlot actor 64 s).sched.store ∧
          k'.audit = (k.revokeSlot actor 64 s).audit) ↔ shell.capTable.slots s = none) ∧
        ∀ c, shell.capTable.slots s = some c →
          (k'.sched.store = (k.revokeSlot actor 64 s).sched.store ↔
            ∀ p d, p ≠ shellSlot s → k.sched.store p = some d → d.origin ≠ some c.id) := by
  obtain ⟨k', reply, hk, hempties⟩ := consoleRevoke_empties h cmd
  refine ⟨k', reply, hk, fun hnone => ?_, fun s hs => ?_⟩
  · rw [hnone] at hempties
    exact hempties
  · rw [hs] at hempties
    obtain ⟨hsched, haudit⟩ := hempties
    rw [hsched, haudit]
    refine ⟨⟨fun ⟨_, hlog⟩ => ?_, fun hnone => ?_⟩, fun c hc => cleared_store_iff h actor hc⟩
    · cases hc : shell.capTable.slots s with
      | none => rfl
      | some c => exact absurd hlog (revokeSlot_audit_ne h actor hc)
    · have hslot : k.sched.store (shellSlot s) = none := (store_shellSlot h s).trans hnone
      rw [revokeSlot_empty h actor hnone, cleared_store h, ← hslot, Function.update_eq_self]
      exact ⟨rfl, rfl⟩

/-- `kv revoke 3`, when nothing was derived from the entry. -/
theorem console_revocation_underived : ∃ k' reply,
    (shellWith lendable).consoleRevoke (.kv [51]) = some (k', reply) ∧
    k'.sched.store = ((shellWith lendable).revokeSlot 64 64 0).sched.store := by
  have hshell : (shellWith lendable).sched.getTask 64 = some _ := rfl
  obtain ⟨k', reply, hk, _, hslot⟩ := console_revocation hshell (.kv [51]) 64
  refine ⟨k', reply, hk, ((hslot ⟨0, by decide⟩ (by decide)).2 lendable rfl).mpr ?_⟩
  intro p d _ hd
  obtain ⟨t, ht, hc⟩ := Scheduler.store_eq_some.mp hd
  have hmem := List.mem_of_find?_eq_some ht
  simp only [List.mem_cons, List.not_mem_nil, or_false] at hmem
  subst hmem
  have hcap := List.mem_of_getElem? hc
  simp only [List.mem_cons, List.not_mem_nil, or_false] at hcap
  subst hcap
  intro ho
  cases ho

def borrowed : Kernel :=
  { shellWith lendable with
    sched := Scheduler.ofList [Task.new 0 0 64 (CapTable.ofList [lendable]),
      Task.new 0 0 66 (CapTable.ofList [{ lendable with id := 2, origin := some 1 }])] }

/-- `cap revoke 0` leaves the derived capability alive and records nothing. -/
theorem derived_survives_console : ∃ k' reply,
    borrowed.consoleRevoke (.cap [48]) = some (k', reply) ∧
    k'.sched.store (⟨66, by decide⟩, ⟨0, by decide⟩) =
      some { lendable with id := 2, origin := some lendable.id } ∧
    k'.sched.store ≠ (borrowed.revokeSlot 64 64 0).sched.store ∧
    k'.audit = borrowed.audit ∧ k'.audit ≠ (borrowed.revokeSlot 64 64 0).audit := by
  have hshell : borrowed.sched.getTask 64 = some _ := rfl
  obtain ⟨k', reply, hk, hsched, haudit⟩ := consoleRevoke_empties hshell (.cap [48])
  have hderived : borrowed.sched.store (⟨66, by decide⟩, ⟨0, by decide⟩) =
      some { lendable with id := 2, origin := some lendable.id } := rfl
  refine ⟨k', reply, hk, ?_, ?_, haudit, ?_⟩
  · rw [hsched, cleared_store hshell]
    exact hderived
  · rw [hsched]
    intro heq
    exact (cleared_store_iff hshell 64 (s := ⟨0, by decide⟩) rfl).mp heq _ _ (by decide) hderived rfl
  · rw [haudit]
    exact revokeSlot_audit_ne hshell 64 (s := ⟨0, by decide⟩) rfl

end Kernel

end Runix
