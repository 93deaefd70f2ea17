import Runix.Dispatch

namespace Runix

/-- What a console command prints. After `badNumber`, the message of
`parse_usize`, the dispatcher returns an error. -/
inductive Reply where
  | ok (text : String)
  | fail (text : String)
  | info (text : String)
  | badNumber (tok : List UInt8)

def Reply.isFailure : Reply → Bool
  | .fail _ | .badNumber _ => true
  | .ok _ | .info _ => false

/-- One round of the loop of `parse_usize`. -/
def parseDigit (val : Nat) (b : UInt8) : Option Nat :=
  if 48 ≤ b.toNat ∧ b.toNat ≤ 57 then
    let newVal := val * 10 + (b.toNat - 48)
    if newVal < 2 ^ 64 then some newVal else none
  else none

def parseUsize (tok : List UInt8) : Option Nat :=
  if tok.isEmpty then none else tok.foldlM parseDigit 0

def Resource.isKv (slot : Nat) : Resource → Bool
  | .kvEntry s _ _ => s = slot
  | _ => false

def Resource.isLog (kind : UInt8) : Resource → Bool
  | .logChannel c _ _ => c = kind
  | _ => false

namespace CapTable

def firstSlot (t : CapTable) (wanted : Resource → Bool) : Option (Fin maxCaps) :=
  (List.finRange maxCaps).find? (fun i => (t.slots i).any (fun cap => wanted cap.resource))

def firstCap (t : CapTable) (wanted : Resource → Bool) : Option Capability :=
  (t.firstSlot wanted).bind t.slots

/-- `insert`, and then `slots[new_slot].origin = Some(donor)`. -/
def insertDerived (t : CapTable) (counter : Nat) (derived : Capability) (donor : Nat) :
    Option CapTable × Nat :=
  match t.insert counter derived with
  | (some (slot, t), counter) =>
    (some ⟨Function.update t.slots slot
      ((t.slots slot).map (fun cap => { cap with origin := some donor }))⟩, counter)
  | (none, counter) => (none, counter)

end CapTable

/-- A capability that a console command is about to install. `report` is the line
it prints, given the new identity. -/
structure Delegation where
  donor : Capability
  target : Nat
  derived : Capability
  report : Nat → String

inductive GrantCommand where
  | cap (tok2 : List UInt8)
  | kv (tok2 tok3 : List UInt8)
  | log (tok2 tok3 : List UInt8)

inductive RevokeCommand where
  | cap (tok2 : List UInt8)
  | kv (tok2 : List UInt8)
  | log (tok2 : List UInt8)

/-- The target and the rights in the last token of `log grant`. -/
def logTarget (tok3 : List UInt8) : List UInt8 := tok3.takeWhile (fun b => b ≠ 32)

def logRights (tok3 : List UInt8) : List UInt8 :=
  (tok3.dropWhile (fun b => b ≠ 32)).dropWhile (fun b => b = 32)

def reqRead (rights : List UInt8) : Bool := rights = [114] || rights = [114, 119]

def reqWrite (rights : List UInt8) : Bool := rights = [119] || rights = [114, 119]

namespace Kernel

/-- The table of the shell, which is task 64. `none` is a failed `unwrap`. -/
def getShellCaps (k : Kernel) : Option CapTable := (k.sched.getTask 64).map Task.capTable

/-- What `cap grant` decides before it takes the scheduler lock; `none` is a
panic. -/
def capDelegation (k : Kernel) (tok2 : List UInt8) : Option (Except Reply Delegation) :=
  match parseUsize tok2 with
  | none => some (.error (.badNumber tok2))
  | some id =>
    if maxCaps ≤ id then some (.error (.fail "no capability"))
    else
      match k.getShellCaps with
      | none => none
      | some slots =>
        match slots.get id with
        | none => some (.error (.fail "no capability"))
        | some donor =>
          match donor.attenuate ⟨true, true, false⟩ with
          | .error () => some (.error (.fail s!"slot {id} lacks grant right"))
          | .ok derived =>
            let donorId := donor.id
            some (.ok ⟨donor, 66, derived, fun newId =>
              s!"granted: new token id={newId} origin={donorId} -> task 66"⟩)

/-- What `kv grant` decides. The derived capability is written by hand. -/
def kvDelegation (k : Kernel) (tok2 tok3 : List UInt8) : Option (Except Reply Delegation) :=
  match parseUsize tok2 with
  | none => some (.error (.badNumber tok2))
  | some slot =>
    match parseUsize tok3 with
    | none => some (.error (.badNumber tok3))
    | some target =>
      match k.getShellCaps with
      | none => none
      | some slots =>
        match slots.firstCap (Resource.isKv slot) with
        | none => some (.error (.fail "no capability"))
        | some donor =>
          some (.ok ⟨donor, target,
            ⟨.kvEntry slot true false, true, false, false, false, 0, some donor.id⟩,
            fun _ => s!"granted read-only KV slot {slot} to task {target}"⟩)

def logUsage : Reply := .fail "Usage: log grant <kind> <task> <r|w|rw>"

def logDelegation (k : Kernel) (tok2 tok3 : List UInt8) : Option (Except Reply Delegation) :=
  match parseUsize tok2 with
  | none => some (.error (.badNumber tok2))
  | some kindVal =>
    if 16 ≤ kindVal then some (.error (.fail s!"kind {kindVal} out of range (0-15)"))
    else if (logTarget tok3).length = tok3.length then some (.error logUsage)
    else if (logRights tok3).isEmpty then some (.error logUsage)
    else
      match parseUsize (logTarget tok3) with
      | none => some (.error (.badNumber (logTarget tok3)))
      | some target =>
        match k.getShellCaps with
        | none => none
        | some slots =>
          let kind := UInt8.ofNat kindVal
          match slots.firstCap (Resource.isLog kind) with
          | none => some (.error (.fail "no capability"))
          | some donor =>
            let wantsRead := reqRead (logRights tok3)
            let wantsWrite := reqWrite (logRights tok3)
            let read := donor.read && wantsRead
            let write := donor.write && wantsWrite
            let rights :=
              if wantsRead && wantsWrite then "read-write"
              else if wantsRead then "read-only" else "write-only"
            some (.ok ⟨donor, target,
              ⟨.logChannel kind read write, read, write, false, false, 0, some donor.id⟩,
              fun _ => s!"granted {rights} LogChannel kind {kindVal} to task {target}"⟩)

/-- `cap grant` puts a new task with the derived capability in slot 66. -/
def grantToNewTask (k : Kernel) (d : Delegation) : Option Kernel :=
  match CapTable.new.insertDerived k.nextCapId d.derived d.donor.id with
  | (none, _) => none
  | (some table, counter) =>
    if h : d.target < maxTasks then
      some { k with
        sched := k.sched.set ⟨d.target, h⟩
          (some (Task.new k.stackBase k.memory.activePml4 d.target table))
        nextCapId := counter }
    else none

/-- `kv grant` and `log grant` insert into the target's table, after creating the
task if there is none. A target out of range and a full table are panics. -/
def grantToTask (k : Kernel) (d : Delegation) : Option Kernel :=
  if h : d.target < maxTasks then
    let task := (k.sched.tasks ⟨d.target, h⟩).getD
      (Task.new k.stackBase k.memory.activePml4 d.target CapTable.new)
    match task.capTable.insertDerived k.nextCapId d.derived d.donor.id with
    | (none, _) => none
    | (some table, counter) =>
      some { k with
        sched := k.sched.set ⟨d.target, h⟩ (some { task with capTable := table })
        nextCapId := counter }
  else none

def delegation (k : Kernel) : GrantCommand → Option (Except Reply Delegation)
  | .cap tok2 => k.capDelegation tok2
  | .kv tok2 tok3 => k.kvDelegation tok2 tok3
  | .log tok2 tok3 => k.logDelegation tok2 tok3

def deliver (k : Kernel) (d : Delegation) : GrantCommand → Option Kernel
  | .cap _ => k.grantToNewTask d
  | .kv _ _ => k.grantToTask d
  | .log _ _ => k.grantToTask d

/-- The console's grant commands; `none` is a panic. -/
def consoleGrant (k : Kernel) (cmd : GrantCommand) : Option (Kernel × Reply) :=
  match k.delegation cmd with
  | none => none
  | some (.error reply) => some (k, reply)
  | some (.ok d) => (k.deliver d cmd).map (fun k' => (k', .ok (d.report k.nextCapId)))

/-- `get_task_mut(TaskId(64)).unwrap().cap_table.kernel_revoke(idx)` -/
def shellRevoke (k : Kernel) (idx : Nat) : Option (Option Capability × Kernel) :=
  match k.sched.getTask 64 with
  | none => none
  | some shell =>
    let (revoked, table) := shell.capTable.kernelRevoke idx
    some (revoked, { k with sched := k.sched.modify 64 (fun t => { t with capTable := table }) })

/-- For slot 0, `cap revoke` tries to write to the console through the slot. -/
def writeDenied (k : Kernel) (slotIdx : Nat) : Kernel × Bool :=
  if slotIdx = 0 then
    match k.sysSerialWrite 0 [116, 101, 115, 116] with
    | (k, .ok ()) => (k, false)
    | (k, .error ()) => (k, true)
  else (k, true)

def capRevoke (k : Kernel) (tok2 : List UInt8) : Option (Kernel × Reply) :=
  match parseUsize tok2 with
  | none => some (k, .badNumber tok2)
  | some slotIdx =>
    if maxCaps ≤ slotIdx then some (k, .fail s!"slot {slotIdx} empty")
    else
      match k.shellRevoke slotIdx with
      | none => none
      | some (none, k) => some (k, .fail s!"slot {slotIdx} empty")
      | some (some cap, k) =>
        match k.getShellCaps with
        | none => none
        | some slots =>
          let capId := cap.id
          let (k, denied) := k.writeDenied slotIdx
          some (k,
            if (slots.get slotIdx).isNone && denied then
              .ok s!"revoked id={capId}; re-use denied (slot now empty)"
            else .fail "revocation check failed")

/-- The common part of `kv revoke` and `log revoke`. -/
def revokeFirst (k : Kernel) (wanted : Resource → Bool) (missing : String) (done : Nat → String) :
    Option (Kernel × Reply) :=
  match k.getShellCaps with
  | none => none
  | some slots =>
    match slots.firstSlot wanted with
    | none => some (k, .fail missing)
    | some idx =>
      match k.shellRevoke idx with
      | none => none
      | some (none, k) => some (k, .fail "revocation check failed")
      | some (some cap, k) => some (k, .ok (done cap.id))

def kvRevoke (k : Kernel) (tok2 : List UInt8) : Option (Kernel × Reply) :=
  match parseUsize tok2 with
  | none => some (k, .badNumber tok2)
  | some slot =>
    k.revokeFirst (Resource.isKv slot) s!"slot {slot} empty"
      (fun id => s!"revoked KV slot {slot} id={id}; access denied")

def logRevoke (k : Kernel) (tok2 : List UInt8) : Option (Kernel × Reply) :=
  match parseUsize tok2 with
  | none => some (k, .badNumber tok2)
  | some kindVal =>
    let kind := UInt8.ofNat kindVal
    k.revokeFirst (Resource.isLog kind) s!"kind {kind} empty"
      (fun id => s!"revoked LogChannel kind {kind} id={id}; access denied")

/-- The console's revoke commands; `none` is a panic. -/
def consoleRevoke (k : Kernel) : RevokeCommand → Option (Kernel × Reply)
  | .cap tok2 => k.capRevoke tok2
  | .kv tok2 => k.kvRevoke tok2
  | .log tok2 => k.logRevoke tok2

end Kernel

end Runix
