import Runix.Scheduler

namespace Runix

structure TaskCheckpoint where
  id : TaskId
  state : TaskState
  capTable : CapTable
  ipcBuffer : Option Message
  msgQueue : MessageQueue

def Task.checkpoint (t : Task) : TaskCheckpoint :=
  ⟨t.id, t.state, t.capTable, t.ipcBuffer, t.msgQueue⟩

/-- What `restore` writes into a live task. Its stack, address space and fault
registers stay. -/
def TaskCheckpoint.install (cp : TaskCheckpoint) (t : Task) : Task :=
  { t with
    state := cp.state, capTable := cp.capTable, ipcBuffer := cp.ipcBuffer, msgQueue := cp.msgQueue }

structure SystemSnapshot where
  tasks : Fin maxTasks → Option TaskCheckpoint
  current : Option TaskId
  checksum : Nat
  valid : Bool

def SystemSnapshot.new : SystemSnapshot := ⟨fun _ => none, none, 0, false⟩

def resourceCode : Resource → Nat
  | .serial => 1
  | .ipcChannel targetTask => 0x1000 ^^^ targetTask
  | .memoryMapping startVaddr size writeable =>
    0x2000 ^^^ startVaddr ^^^ ((size <<< 1) % 2 ^ 64) ^^^ writeable.toNat
  | .service id => 0x3000 ^^^ id
  | .kvEntry slot readable writable =>
    0x4000 ^^^ slot ^^^ (readable.toNat <<< 8) ^^^ (writable.toNat <<< 9)
  | .logChannel kind readable writable =>
    0x5000 ^^^ kind.toNat ^^^ (readable.toNat <<< 8) ^^^ (writable.toNat <<< 9)
  | .fsNode mount readable writable =>
    0x6000 ^^^ mount.toNat ^^^ (readable.toNat <<< 8) ^^^ (writable.toNat <<< 9)
  | .device id readable writable =>
    0x7000 ^^^ id.toNat ^^^ (readable.toNat <<< 8) ^^^ (writable.toNat <<< 9)
  | .syncObj id => 0x8000 ^^^ id.toNat

def stateCode : TaskState → Nat
  | .ready => 1
  | .running => 2
  | .blockedOnReceive => 3
  | .blockedOnSend t => 0x100 ^^^ t
  | .terminated => 5

def Capability.rightsCode (c : Capability) : Nat :=
  c.read.toNat ||| (c.write.toNat <<< 1) ||| (c.grant.toNat <<< 2) ||| (c.isSealed.toNat <<< 3)

/-- `map(|v| v + 1).unwrap_or(0)` -/
def optionCode : Option Nat → Nat
  | some v => v + 1
  | none => 0

def capWords : Option Capability → List Nat
  | none => [0]
  | some cap => [resourceCode cap.resource, cap.rightsCode, cap.id, optionCode cap.origin]

def taskWords : Option TaskCheckpoint → List Nat
  | none => [0]
  | some cp =>
    [0xF00D, cp.id, stateCode cp.state] ++
      ((List.finRange maxCaps).map (fun i => capWords (cp.capTable.slots i))).flatten ++
      [optionCode (cp.ipcBuffer.map Message.len), cp.msgQueue.count]

def mix (h v : Nat) : Nat := ((h ^^^ v) * 0x100000001b3) % 2 ^ 64

namespace SystemSnapshot

/-- The sequence of words that `checksum` mixes. -/
def words (snap : SystemSnapshot) : List Nat :=
  optionCode snap.current ::
    ((List.finRange maxTasks).map (fun i => taskWords (snap.tasks i))).flatten

/-- Some `origin + 1` does not fit a word, which is a panic. A task number plus one
and a message length plus one always fit. -/
def overflows (snap : SystemSnapshot) : Bool :=
  (List.finRange maxTasks).any (fun i =>
    (snap.tasks i).any (fun cp =>
      (List.finRange maxCaps).any (fun k =>
        (cp.capTable.slots k).any (fun cap => cap.origin.any (fun o => decide (2 ^ 64 ≤ o + 1))))))

/-- The integrity tag; `none` is a panic. -/
def checksumOf (snap : SystemSnapshot) : Option Nat :=
  if snap.overflows then none else some (snap.words.foldl mix 0xcbf29ce484222325)

end SystemSnapshot

/-- What `capture` leaves in the snapshot slot; `none` is a panic. -/
def capture (s : Scheduler) : Option SystemSnapshot :=
  let snap : SystemSnapshot := ⟨fun i => (s.tasks i).map Task.checkpoint, s.currentTaskId, 0, false⟩
  snap.checksumOf.map (fun checksum => { snap with checksum := checksum, valid := true })

/-- The loop of `restore`: the checkpoint of each slot goes to the live task with
its number, if there is one. -/
def SystemSnapshot.restoreLoop (snap : SystemSnapshot) :
    List (Fin maxTasks) → Scheduler → Nat → Scheduler × Nat
  | [], s, restored => (s, restored)
  | i :: is, s, restored =>
    match snap.tasks i with
    | none => snap.restoreLoop is s restored
    | some cp =>
      match s.getTask cp.id with
      | none => snap.restoreLoop is s restored
      | some _ => snap.restoreLoop is (s.modify cp.id cp.install) (restored + 1)

/-- `restore`; `none` is a panic. -/
def restore (snap : SystemSnapshot) (s : Scheduler) : Option (Scheduler × Except Unit Nat) :=
  if !snap.valid then some (s, .error ())
  else
    snap.checksumOf.map (fun checksum =>
      if checksum ≠ snap.checksum then (s, .error ())
      else
        let (s, restored) := snap.restoreLoop (List.finRange maxTasks) s 0
        (s, .ok restored))

def SystemSnapshot.info (snap : SystemSnapshot) : Option Nat :=
  if snap.valid then some snap.checksum else none

end Runix
