import Runix.Operand
import Runix.Proofs.Commands
import Runix.Proofs.Console
import Runix.Proofs.Device
import Runix.Proofs.Routing
import Runix.Proofs.Sync

namespace Runix

inductive ObjectName where
  | sync (n : Nat)
  | device (n : Nat)
  | logKind (n : Nat)
  deriving DecidableEq

def ObjectName.Exists : ObjectName → Prop
  | .sync n => n < syncMaxObj
  | .device n => n < 2
  | .logKind n => n < 256

def Capability.names (cap : Capability) : Option ObjectName :=
  match cap.resource with
  | .syncObj id => some (.sync id.toNat)
  | .device id _ _ => some (.device id.toNat)
  | .logChannel kind _ _ => some (.logKind kind.toNat)
  | _ => none

def Stores.Differ (st st' : Stores) : ObjectName → Prop
  | .sync n => ∃ i : Fin syncMaxObj, i.val = n ∧ st'.sync.objects i ≠ st.sync.objects i
  | .device n =>
    (n = 0 ∧ (st'.dev.serialIn ≠ st.dev.serialIn ∨ st'.dev.serialOut ≠ st.dev.serialOut)) ∨
      (n = 1 ∧ st'.dev.keyboard ≠ st.dev.keyboard)
  | .logKind _ => False

theorem Stores.not_differ (st : Stores) (o : ObjectName) : ¬ st.Differ st o := by
  intro h
  cases o with
  | sync n =>
    obtain ⟨_, _, hne⟩ := h
    exact hne rfl
  | device n =>
    rcases h with ⟨_, hin | hout⟩ | ⟨_, hkeyboard⟩
    · exact hin rfl
    · exact hout rfl
    · exact hkeyboard rfl
  | logKind n => cases h

def NumberCommand.object : NumberCommand → Nat → ObjectName
  | .syncCreate | .syncAcquire | .syncRelease => .sync
  | .devRead | .devWrite => .device
  | .logRevoke => .logKind

def NumberCommand.limit : NumberCommand → Nat
  | .syncCreate | .syncAcquire | .syncRelease => 8
  | .devRead => 2
  | .devWrite => 1
  | .logRevoke => 256

def Outcome.Failed : Outcome → Prop
  | .printed (.fail _) | .printed (.badNumber _) => True
  | _ => False

namespace Console

variable {c c' : Console} {ticks : UInt64} {call : Nat} {out : Outcome}

def slot (c : Console) (j : Fin maxCaps) : Option Capability :=
  (c.sched.tableOf 64).bind (fun t => t.slots j)

def Touches (c c' : Console) (o : ObjectName) : Prop :=
  c.stores.Differ c'.stores o ∨
    ∃ j cap, c'.slot j ≠ c.slot j ∧ (c.slot j = some cap ∨ c'.slot j = some cap) ∧
      cap.names = some o

structure Untouched (c c' : Console) : Prop where
  stores : c'.stores = c.stores
  table : c'.sched.tableOf 64 = c.sched.tableOf 64

def Exact (cmd : NumberCommand) (v : Nat) (c c' : Console) (out : Outcome) : Prop :=
  (out.Failed ∧ c.Untouched c') ∨
    ((cmd.object v).Exists ∧ ∀ o, c.Touches c' o → o = cmd.object v)

theorem slot_congr (h : c'.sched.tableOf 64 = c.sched.tableOf 64) (j : Fin maxCaps) :
    c'.slot j = c.slot j := by
  rw [slot, slot, h]

/-- With the same capabilities only the state of an object can be touched. -/
theorem Touches.differ {o : ObjectName} (h : c.Touches c' o)
    (htable : c'.sched.tableOf 64 = c.sched.tableOf 64) : c.stores.Differ c'.stores o := by
  rcases h with hdiffer | ⟨j, cap, hne, _⟩
  · exact hdiffer
  · exact absurd (slot_congr htable j) hne

end Console

/-- The start of a service leaves the shell alone. -/
theorem System.ensureService_shell (s : System) (svc : Service) :
    (s.ensureService svc).kernel.sched.tableOf 64 = s.kernel.sched.tableOf 64 := by
  unfold System.ensureService
  split
  · have hne : (⟨64, shell_lt⟩ : Fin maxTasks) ≠ svc.task := by cases svc <;> decide
    change ((s.kernel.sched.set svc.task _).getTask 64).map Task.capTable = _
    rw [Scheduler.tableOf, Scheduler.getTask, Scheduler.getTask, dif_pos shell_lt, dif_pos shell_lt,
      Scheduler.set_tasks, if_neg hne]
  · rfl

/-- An insertion fills a free slot of the table, or the table was full. -/
theorem System.insertCap_table {s s' : System} {cap : Capability}
    (h : s.insertCap 64 cap = some s') :
    ∃ t, s.kernel.sched.tableOf 64 = some t ∧ (s'.kernel.sched.tableOf 64 = some t ∨
      ∃ i, t.slots i = none ∧
        s'.kernel.sched.tableOf 64 = some (t.put i { cap with id := s.kernel.nextCapId })) := by
  unfold System.insertCap at h
  split at h
  · cases h
  · rename_i t hget
    have htable : s.kernel.sched.tableOf 64 = some t.capTable := by
      rw [Scheduler.tableOf, hget]
      rfl
    refine ⟨t.capTable, htable, ?_⟩
    rcases t.capTable.insert_cases s.kernel.nextCapId cap with ⟨i, hfree, hinsert⟩ | ⟨_, hinsert⟩
    · rw [hinsert] at h
      cases h
      refine .inr ⟨i, hfree, ?_⟩
      change ((s.kernel.sched.modify 64 _).getTask 64).map Task.capTable = _
      rw [Scheduler.getTask_modify_self, hget]
      · rfl
      · intro _
        rfl
    · rw [hinsert] at h
      cases h
      exact .inl htable

namespace Console

variable {c c' : Console} {ticks : UInt64} {call : Nat} {out : Outcome} {req : Request}
  {answered : Answered}

/-- The two ways an exchange ends. -/
theorem ask_some (h : c.ask ticks call req = some (c', answered)) :
    c'.sched.tableOf 64 = c.sched.tableOf 64 ∧
    ((c'.stores = c.stores ∧ answered = .noChannel) ∨
      ∃ s slot replies, c.stores.round req.svc s ticks (call + 1) (req.message call slot) =
        some (c'.stores, replies) ∧ answered = .last replies) := by
  unfold ask at h
  obtain ⟨channel, _, h⟩ := Option.bind_eq_some_iff.mp h
  have hshell := c.system.ensureService_shell req.svc
  cases channel with
  | none =>
    cases h
    exact ⟨hshell, .inl ⟨rfl, rfl⟩⟩
  | some slot =>
    obtain ⟨⟨st, replies⟩, hround, h⟩ := Option.map_eq_some_iff.mp h
    cases h
    exact ⟨hshell, .inr ⟨_, slot, replies, hround, rfl⟩⟩

end Console

section Rounds
variable {st st' : Stores} {s : Scheduler} {ticks : UInt64} {call : Nat} {msg : Message}
  {replies : List (List UInt8)}

/-- A round of the synchronisation service refuses, or changes only the object that the
message names. -/
theorem Stores.sync_round (h : st.round .sync s ticks call msg = some (st', replies)) :
    (st' = st ∧ ∃ code, code ≠ 0 ∧ replies = [[code]]) ∨
    ∃ i : Fin syncMaxObj, i.val = (msg.byte 1).toNat ∧ st'.dev = st.dev ∧
      ∀ j ≠ i, st'.sync.objects j = st.sync.objects j := by
  obtain ⟨out, hmain, hout⟩ := Option.map_eq_some_iff.mp h
  cases hout
  obtain ⟨a, s₁, ha, hgrant, hstore, hstatus, _⟩ := syncServiceMain_some hmain
  have hchanged : ∀ {op : Nat} {i : Fin syncMaxObj} {obj : SyncObject}, msg.Asks op i →
      a.store = st.sync.set i obj → ∃ i : Fin syncMaxObj, i.val = (msg.byte 1).toNat ∧
        st.dev = st.dev ∧ ∀ j ≠ i, out.store.objects j = st.sync.objects j := by
    intro op i obj hasks hset
    refine ⟨i, hasks.2.2.2.symm, rfl, fun j hj => ?_⟩
    rw [← hstore, hset, SyncStore.set_objects, if_neg hj]
  have hrefused : ∀ {code : UInt8}, code ≠ 0 → a = .refuse st.sync code →
      ({ st with sync := out.store } : Stores) = st ∧ ∃ code, code ≠ 0 ∧ out.replies = [[code]] := by
    intro code hcode hrefuse
    subst hrefuse
    have hreply : out.reply.map Prod.fst = some code := hstatus.symm
    have hgranted := Scheduler.syncGrant_granted hgrant
    refine ⟨by rw [← hstore]; rfl, code, hcode, ?_⟩
    cases hr : out.reply with
    | none =>
      rw [hr] at hreply
      cases hreply
    | some reply =>
      rw [hr] at hreply
      cases hg : out.grant with
      | none =>
        cases hreply
        simp [SyncServed.replies, hr, hg]
      | some grant =>
        rw [hg] at hgranted
        cases hgranted
  cases syncService_effect ha with
  | refused hcode =>
    refine .inl (hrefused ?_ rfl)
    rcases hcode with rfl | rfl <;> decide
  | full => exact .inl (hrefused (by decide) rfl)
  | created asks => exact .inr (hchanged asks rfl)
  | admitted asks => exact .inr (hchanged asks rfl)
  | queued asks => exact .inr (hchanged asks rfl)
  | handed asks => exact .inr (hchanged asks rfl)
  | returned asks => exact .inr (hchanged asks rfl)

theorem DeviceId.fromU8_some {id : UInt8} {dev : DeviceId} (h : fromU8 id = some dev) :
    (id.toNat = 0 ∧ dev = .serial) ∨ (id.toNat = 1 ∧ dev = .keyboard) := by
  unfold fromU8 at h
  split at h
  · rename_i hzero
    cases h
    exact .inl ⟨hzero, rfl⟩
  · rename_i hone
    cases h
    exact .inr ⟨hone, rfl⟩
  · cases h

def Devices.SameBut (d d' : Devices) : DeviceId → Prop
  | .serial => d'.keyboard = d.keyboard
  | .keyboard => d'.serialIn = d.serialIn ∧ d'.serialOut = d.serialOut

theorem Devices.SameBut.refl (d : Devices) (dev : DeviceId) : d.SameBut d dev := by
  cases dev with
  | serial => rfl
  | keyboard => exact ⟨rfl, rfl⟩

theorem Devices.SameBut.trans {d d₁ d₂ : Devices} {dev : DeviceId} (h : d.SameBut d₁ dev)
    (h' : d₁.SameBut d₂ dev) : d.SameBut d₂ dev := by
  cases dev with
  | serial => exact Eq.trans h' h
  | keyboard => exact ⟨h'.1.trans h.1, h'.2.trans h.2⟩

theorem Devices.tryRead_sameBut {d d' : Devices} {dev : DeviceId} {byte : Option UInt8}
    (h : d.tryRead dev = some (byte, d')) : d.SameBut d' dev := by
  cases dev with
  | serial =>
    rw [tryRead] at h
    split at h
    · cases h
      rfl
    · cases h
      rfl
  | keyboard =>
    obtain ⟨popped, _, h⟩ := Option.map_eq_some_iff.mp h
    cases h
    exact ⟨rfl, rfl⟩

theorem Devices.readLoop_sameBut {dev : DeviceId} (k : Nat) : ∀ {d d' : Devices}
    {reply reply' : Vector UInt8 128} {readLen readLen' : Nat},
    readLoop dev k d reply readLen = some (d', reply', readLen') → d.SameBut d' dev := by
  induction k with
  | zero =>
    intro d d' reply reply' readLen readLen' h
    cases h
    exact .refl d dev
  | succ k ih =>
    intro d d' reply reply' readLen readLen' h
    obtain ⟨⟨byte, d₁⟩, hread, h⟩ := Option.bind_eq_some_iff.mp h
    have hfirst := tryRead_sameBut hread
    cases byte with
    | none =>
      cases h
      exact hfirst
    | some byte =>
      obtain ⟨stored, _, h⟩ := Option.bind_eq_some_iff.mp h
      exact hfirst.trans (ih h)

theorem Devices.read_sameBut {d : Devices} {dev : DeviceId} {a : Answer Devices}
    (h : d.read dev = some a) : d.SameBut a.store dev := by
  obtain ⟨⟨d', reply, readLen⟩, hloop, h⟩ := Option.bind_eq_some_iff.mp h
  have hsame := readLoop_sameBut 120 hloop
  simp only at h
  split at h
  · obtain ⟨_, _, h⟩ := Option.bind_eq_some_iff.mp h
    obtain ⟨_, _, h⟩ := Option.bind_eq_some_iff.mp h
    cases h
    exact hsame
  · obtain ⟨_, _, h⟩ := Option.bind_eq_some_iff.mp h
    cases h
    exact hsame

/-- A write refuses, or goes to the serial port. -/
theorem Devices.write_cases {d : Devices} {dev : DeviceId} {a : Answer Devices}
    (h : d.write dev msg = some a) :
    a = .status d 3 ∨ (dev = .serial ∧ d.SameBut a.store .serial) := by
  unfold write at h
  simp only at h
  split at h
  · cases h
    exact .inl rfl
  · obtain ⟨bytes, _, h⟩ := Option.bind_eq_some_iff.mp h
    cases dev with
    | serial =>
      cases h
      exact .inr ⟨rfl, rfl⟩
    | keyboard =>
      cases h
      exact .inl rfl

/-- A request to the device service is refused, or concerns the device it names, which
is the serial port if it is a write. -/
theorem devService_cases {d : Devices} {a : Answer Devices} (h : devService s d msg = some a) :
    (∃ code, code ≠ 0 ∧ a = .status d code) ∨
    ∃ dev, DeviceId.fromU8 (msg.byte 1) = some dev ∧ d.SameBut a.store dev ∧
      ((msg.byte 0).toNat = 1 → dev = .serial) := by
  unfold devService at h
  split at h
  · cases h
    exact .inl ⟨3, by decide, rfl⟩
  · split at h
    · cases h
      exact .inl ⟨3, by decide, rfl⟩
    · simp only at h
      split at h
      · cases h
        exact .inl ⟨3, by decide, rfl⟩
      · rename_i dev hdev
        split at h
        · rename_i hop
          split at h
          · cases h
            exact .inl ⟨1, by decide, rfl⟩
          · refine .inr ⟨dev, hdev, Devices.read_sameBut h, fun hone => ?_⟩
            rw [hop] at hone
            cases hone
        · split at h
          · cases h
            exact .inl ⟨1, by decide, rfl⟩
          · rcases Devices.write_cases h with rfl | ⟨rfl, hsame⟩
            · exact .inl ⟨3, by decide, rfl⟩
            · exact .inr ⟨.serial, hdev, hsame, fun _ => rfl⟩
        · cases h
          exact .inl ⟨3, by decide, rfl⟩

theorem Stores.dev_round (h : st.round .device s ticks call msg = some (st', replies)) :
    (st' = st ∧ ∃ code, code ≠ 0 ∧ replies = [[code]]) ∨
    ∃ dev, DeviceId.fromU8 (msg.byte 1) = some dev ∧ st'.sync = st.sync ∧
      st.dev.SameBut st'.dev dev ∧ ((msg.byte 0).toNat = 1 → dev = .serial) := by
  obtain ⟨out, hmain, hout⟩ := Option.map_eq_some_iff.mp h
  cases hout
  obtain ⟨a, ha, hserved⟩ := Option.bind_eq_some_iff.mp hmain
  obtain ⟨_, _, hserved⟩ := Option.bind_eq_some_iff.mp hserved
  obtain ⟨bytes, hbytes, hserved⟩ := Option.bind_eq_some_iff.mp hserved
  cases hserved
  rcases devService_cases ha with ⟨code, hcode, rfl⟩ | ⟨dev, hdev, hsame, hwrite⟩
  · refine .inl ⟨rfl, code, hcode, ?_⟩
    rw [Answer.bytes_status] at hbytes
    cases hbytes
    rfl
  · exact .inr ⟨dev, hdev, rfl, hsame, hwrite⟩

end Rounds

section Requests
variable (call : Nat) (slot : Fin maxCaps) (op id : UInt8)

/-- A service reads the operation and the number back. -/
theorem asked_fields {req : Request} {rest : List UInt8} (hpayload : req.payload = op :: id :: rest)
    (hlen : req.payload.length ≤ 128) :
    (req.message call slot).byte 0 = op ∧ (req.message call slot).byte 1 = id := by
  have hbegins := Request.message_begins call slot hlen
  rw [hpayload] at hbegins
  have hop : Lib.Begins (req.message call slot).payload ([] ++ op :: id :: rest) := hbegins
  have hid : Lib.Begins (req.message call slot).payload ([op] ++ id :: rest) := hbegins
  exact ⟨Message.byte_of_begins hop 0 rfl (by decide), Message.byte_of_begins hid 1 rfl (by decide)⟩

theorem syncAsked_fields (isMutex count : UInt8) :
    (Request.message ⟨.sync, .syncOp, syncPayload op id isMutex count⟩ call slot).byte 0 = op ∧
    (Request.message ⟨.sync, .syncOp, syncPayload op id isMutex count⟩ call slot).byte 1 = id :=
  asked_fields call slot op id rfl (by simp [syncPayload])

theorem devAsked_fields (data : List UInt8) :
    (Request.message ⟨.device, .devOp, devPayload op id data⟩ call slot).byte 0 = op ∧
    (Request.message ⟨.device, .devOp, devPayload op id data⟩ call slot).byte 1 = id :=
  asked_fields call slot op id rfl (by simp [devPayload])

end Requests

namespace Console

variable {c c' : Console} {ticks : UInt64} {call : Nat} {out : Outcome} {id : UInt8}

def Confined (cmd : NumberCommand) (id : UInt8) (c c' : Console) (out : Outcome) : Prop :=
  (out.Failed ∧ c.Untouched c') ∨
    (id.toNat < cmd.limit ∧ ∀ o, c.Touches c' o → o = cmd.object id.toNat)

theorem Untouched.refl (c : Console) : c.Untouched c := ⟨rfl, rfl⟩

/-- A refusal before anything happened. -/
theorem confined_refused {cmd : NumberCommand} {reply : Reply}
    (h : c.printed reply = some (c', out)) (hfail : (Outcome.printed reply).Failed) :
    Confined cmd id c c' out := by
  cases h
  exact .inl ⟨hfail, .refl c⟩

/-- The exchange with the synchronisation service, as far as the object is concerned. -/
theorem ask_sync {op isMutex count : UInt8} {answered : Answered}
    (h : c.ask ticks call ⟨.sync, .syncOp, syncPayload op id isMutex count⟩ = some (c', answered)) :
    c'.sched.tableOf 64 = c.sched.tableOf 64 ∧
    ((c'.stores = c.stores ∧ (answered = .noChannel ∨
        ∃ code, code ≠ 0 ∧ answered = .reply (padPayload [code]))) ∨
      (id.toNat < 8 ∧ ∀ o, c.stores.Differ c'.stores o → o = .sync id.toNat)) := by
  obtain ⟨htable, ⟨hstores, hnone⟩ | ⟨s, slot, replies, hround, hlast⟩⟩ := ask_some h
  · exact ⟨htable, .inl ⟨hstores, .inl hnone⟩⟩
  · refine ⟨htable, ?_⟩
    have hbyte := (syncAsked_fields call slot op id isMutex count).2
    rcases Stores.sync_round hround with ⟨hsame, code, hcode, rfl⟩ | ⟨i, hi, hdev, hothers⟩
    · exact .inl ⟨hsame, .inr ⟨code, hcode, hlast⟩⟩
    · rw [hbyte] at hi
      refine .inr ⟨hi ▸ i.isLt, fun o hdiffer => ?_⟩
      cases o with
      | sync n =>
        obtain ⟨j, rfl, hne⟩ := hdiffer
        by_cases hj : j = i
        · rw [hj, hi]
        · exact absurd (hothers j hj) hne
      | device n =>
        rcases hdiffer with ⟨_, hin | hout⟩ | ⟨_, hkeyboard⟩
        · exact absurd (congrArg Devices.serialIn hdev) hin
        · exact absurd (congrArg Devices.serialOut hdev) hout
        · exact absurd (congrArg Devices.keyboard hdev) hkeyboard
      | logKind n => cases hdiffer

/-- The exchange with the device service. -/
theorem ask_dev {op : UInt8} {data : List UInt8} {answered : Answered}
    (h : c.ask ticks call ⟨.device, .devOp, devPayload op id data⟩ = some (c', answered)) :
    c'.sched.tableOf 64 = c.sched.tableOf 64 ∧
    ((c'.stores = c.stores ∧ (answered = .noChannel ∨
        ∃ code, code ≠ 0 ∧ answered = .reply (padPayload [code]))) ∨
      (id.toNat < 2 ∧ (op.toNat = 1 → id.toNat < 1) ∧
        ∀ o, c.stores.Differ c'.stores o → o = .device id.toNat)) := by
  obtain ⟨htable, ⟨hstores, hnone⟩ | ⟨s, slot, replies, hround, hlast⟩⟩ := ask_some h
  · exact ⟨htable, .inl ⟨hstores, .inl hnone⟩⟩
  · refine ⟨htable, ?_⟩
    obtain ⟨hop, hid⟩ := devAsked_fields call slot op id data
    rcases Stores.dev_round hround with ⟨hsame, code, hcode, rfl⟩ | ⟨dev, hdev, hsync, hsame, hwrite⟩
    · exact .inl ⟨hsame, .inr ⟨code, hcode, hlast⟩⟩
    · rw [hid] at hdev
      rw [hop] at hwrite
      have hnumber := DeviceId.fromU8_some hdev
      refine .inr ⟨by omega, fun hone => ?_, fun o hdiffer => ?_⟩
      · rcases hnumber with ⟨hzero, _⟩ | ⟨_, rfl⟩
        · omega
        · cases hwrite hone
      · cases o with
        | sync n =>
          obtain ⟨j, _, hne⟩ := hdiffer
          exact absurd (congrArg (fun store => store.objects j) hsync) hne
        | device n =>
          rcases hnumber with ⟨hzero, rfl⟩ | ⟨hone, rfl⟩
          · rcases hdiffer with ⟨rfl, _⟩ | ⟨_, hkeyboard⟩
            · rw [hzero]
            · exact absurd hsame hkeyboard
          · rcases hdiffer with ⟨_, hin | hout⟩ | ⟨rfl, _⟩
            · exact absurd hsame.1 hin
            · exact absurd hsame.2 hout
            · rw [hone]
        | logKind n => cases hdiffer

/-- Only the shell's new capability is touched besides the object itself. -/
theorem insertCap_touches {system : System} {o : ObjectName}
    (h : c'.system.insertCap 64 (syncCap id) = some system)
    (htable : c'.sched.tableOf 64 = c.sched.tableOf 64)
    (hdiffer : ∀ o, c.stores.Differ c'.stores o → o = .sync id.toNat)
    (ht : c.Touches { c' with system := system } o) : o = .sync id.toNat := by
  obtain ⟨table, hold, hsame | ⟨i, hfree, hput⟩⟩ := System.insertCap_table h
  · exact hdiffer o (ht.differ (hsame.trans (hold.symm.trans htable)))
  · rcases ht with hd | ⟨j, cap, hne, hcap, hnames⟩
    · exact hdiffer o hd
    · have hbefore : c.slot j = table.slots j := by
        rw [slot, ← htable]
        exact congrArg (fun t => t.bind (fun t => t.slots j)) hold
      have hafter : slot { c' with system := system } j =
          if j = i then some { syncCap id with id := c'.system.kernel.nextCapId } else table.slots j := by
        refine (congrArg (fun t => t.bind (fun t => t.slots j)) hput).trans ?_
        exact Function.update_apply ..
      by_cases hj : j = i
      · rw [hbefore, hafter, if_pos hj, hj, hfree] at hcap
        rcases hcap with hnone | hcap
        · cases hnone
        · cases hcap
          exact (Option.some.inj hnames).symm
      · rw [hbefore, hafter, if_neg hj] at hne
        exact absurd rfl hne

theorem syncCreate_confined {tok2 tok3 : List UInt8} {v : Nat} (hv : parseUsize tok2 = some v)
    (h : c.syncCreate ticks call tok2 tok3 = some (c', out)) :
    Confined .syncCreate (UInt8.ofNat v) c c' out := by
  unfold syncCreate at h
  rw [hv] at h
  simp only at h
  split at h
  · exact confined_refused h trivial
  · split at h
    · rename_i refusal hoperands
      refine confined_refused h ?_
      unfold createOperands at hoperands
      repeat' split at hoperands
      all_goals first | cases hoperands; trivial | cases hoperands
    · obtain ⟨⟨c₁, answered⟩, hask, h⟩ := Option.bind_eq_some_iff.mp h
      obtain ⟨htable, ⟨hstores, rfl | ⟨code, hcode, rfl⟩⟩ | ⟨hlt, hdiffer⟩⟩ := ask_sync hask
      · cases h
        exact .inl ⟨trivial, hstores, htable⟩
      · simp only [report, created, replyByte_pad, if_neg hcode] at h
        cases h
        exact .inl ⟨trivial, hstores, htable⟩
      · refine .inr ⟨hlt, fun o ht => ?_⟩
        unfold report at h
        split at h
        · cases h
          exact hdiffer o (ht.differ htable)
        · cases h
          exact hdiffer o (ht.differ htable)
        · unfold created at h
          split at h
          · obtain ⟨system, hinsert, h⟩ := Option.map_eq_some_iff.mp h
            cases h
            exact insertCap_touches hinsert htable hdiffer ht
          · cases h
            exact hdiffer o (ht.differ htable)

theorem syncUse_confined {cmd : NumberCommand} {tok2 : List UInt8} {v : Nat} {op : UInt8}
    {done failed : String} (hcmd : cmd.limit = 8 ∧ cmd.object = .sync)
    (hv : parseUsize tok2 = some v)
    (h : c.syncUse ticks call tok2 op done failed = some (c', out)) :
    Confined cmd (UInt8.ofNat v) c c' out := by
  unfold syncUse at h
  rw [hv] at h
  simp only at h
  obtain ⟨slots, _, h⟩ := Option.bind_eq_some_iff.mp h
  split at h
  · exact confined_refused h trivial
  · obtain ⟨⟨c₁, answered⟩, hask, h⟩ := Option.bind_eq_some_iff.mp h
    obtain ⟨htable, ⟨hstores, rfl | ⟨code, hcode, rfl⟩⟩ | ⟨hlt, hdiffer⟩⟩ := ask_sync hask
    · cases h
      exact .inl ⟨trivial, hstores, htable⟩
    · simp only [report, replyByte_pad, if_neg hcode] at h
      cases h
      exact .inl ⟨trivial, hstores, htable⟩
    · have hsame : c' = c₁ := by
        unfold report at h
        split at h <;> cases h <;> rfl
      subst hsame
      refine .inr ⟨hcmd.1 ▸ hlt, fun o ht => ?_⟩
      rw [hcmd.2]
      exact hdiffer o (ht.differ htable)

theorem devRead_confined {tok2 : List UInt8} {v : Nat} (hv : parseUsize tok2 = some v)
    (h : c.devRead ticks call tok2 = some (c', out)) :
    Confined .devRead (UInt8.ofNat v) c c' out := by
  unfold devRead at h
  rw [hv] at h
  simp only at h
  obtain ⟨⟨c₁, answered⟩, hask, h⟩ := Option.bind_eq_some_iff.mp h
  obtain ⟨htable, ⟨hstores, rfl | ⟨code, hcode, rfl⟩⟩ | ⟨hlt, _, hdiffer⟩⟩ := ask_dev hask
  · cases h
    exact .inl ⟨trivial, hstores, htable⟩
  · simp only [report] at h
    obtain ⟨reply, hreply, h⟩ := Option.bind_eq_some_iff.mp h
    cases h
    refine .inl ⟨?_, hstores, htable⟩
    unfold devReadReport at hreply
    rw [replyByte_pad] at hreply
    split at hreply
    · rename_i hzero
      exact absurd (UInt8.toNat.inj hzero) hcode
    all_goals cases hreply; trivial
  · have hsame : c' = c₁ := by
      unfold report at h
      split at h
      · cases h
        rfl
      · cases h
        rfl
      · obtain ⟨reply, _, h⟩ := Option.bind_eq_some_iff.mp h
        cases h
        rfl
    subst hsame
    exact .inr ⟨hlt, fun o ht => hdiffer o (ht.differ htable)⟩

theorem devWrite_confined {tok2 tok3 : List UInt8} {v : Nat} (hv : parseUsize tok2 = some v)
    (h : c.devWrite ticks call tok2 tok3 = some (c', out)) :
    Confined .devWrite (UInt8.ofNat v) c c' out := by
  unfold devWrite at h
  rw [hv] at h
  simp only at h
  split at h
  · exact confined_refused h trivial
  · obtain ⟨⟨c₁, answered⟩, hask, h⟩ := Option.bind_eq_some_iff.mp h
    obtain ⟨htable, ⟨hstores, rfl | ⟨code, hcode, rfl⟩⟩ | ⟨_, hlt, hdiffer⟩⟩ := ask_dev hask
    · cases h
      exact .inl ⟨trivial, hstores, htable⟩
    · cases h
      refine .inl ⟨?_, hstores, htable⟩
      unfold devWriteReport
      rw [replyByte_pad]
      split
      · rename_i hzero
        exact absurd (UInt8.toNat.inj hzero) hcode
      all_goals trivial
    · have hsame : c' = c₁ := by
        unfold report at h
        split at h <;> cases h <;> rfl
      subst hsame
      exact .inr ⟨hlt rfl, fun o ht => hdiffer o (ht.differ htable)⟩

/-- `log revoke` takes the first channel of the kind it was cut to. -/
theorem logRevoke_cases {tok2 : List UInt8} {v : Nat} (hv : parseUsize tok2 = some v)
    (h : c.logRevoke tok2 = some (c', out)) :
    c'.stores = c.stores ∧ ∃ t, c.sched.tableOf 64 = some t ∧
      ((c'.sched.tableOf 64 = some t ∧ out.Failed ∧ t.firstSlot (Resource.isLog (UInt8.ofNat v)) = none) ∨
        ∃ i, t.firstSlot (Resource.isLog (UInt8.ofNat v)) = some i ∧
          c'.sched.tableOf 64 = some (t.clear i)) := by
  obtain ⟨⟨k, reply⟩, hrevoke, h⟩ := Option.map_eq_some_iff.mp h
  cases h
  refine ⟨rfl, ?_⟩
  unfold Kernel.logRevoke at hrevoke
  rw [hv] at hrevoke
  simp only [Kernel.revokeFirst] at hrevoke
  split at hrevoke
  · cases hrevoke
  · rename_i t ht
    have htable : c.sched.tableOf 64 = some t := ht
    obtain ⟨shell, hshell, hcaps⟩ := Option.map_eq_some_iff.mp ht
    refine ⟨t, htable, ?_⟩
    split at hrevoke
    · rename_i hfirst
      cases hrevoke
      exact .inl ⟨htable, trivial, hfirst⟩
    · rename_i i hfirst
      refine .inr ⟨i, hfirst, ?_⟩
      have hcleared : (c.system.kernel.cleared shell i).sched.tableOf 64 = some (t.clear i) := by
        change ((c.system.kernel.sched.modify 64 _).getTask 64).map Task.capTable = _
        rw [Scheduler.getTask_modify_self, hshell, ← hcaps]
        · rfl
        · intro _
          rfl
      rw [Kernel.shellRevoke_eq hshell] at hrevoke
      split at hrevoke
      · rename_i hnone
        cases hnone
      · rename_i hrevoked
        obtain ⟨_, rfl⟩ := Prod.mk.inj (Option.some.inj hrevoked)
        cases hrevoke
        exact hcleared
      · rename_i hrevoked
        obtain ⟨_, rfl⟩ := Prod.mk.inj (Option.some.inj hrevoked)
        cases hrevoke
        exact hcleared

theorem logRevoke_confined {tok2 : List UInt8} {v : Nat} (hv : parseUsize tok2 = some v)
    (h : c.logRevoke tok2 = some (c', out)) : Confined .logRevoke (UInt8.ofNat v) c c' out := by
  obtain ⟨hstores, t, htable, ⟨hsame, hfailed, _⟩ | ⟨i, hfirst, hclear⟩⟩ := logRevoke_cases hv h
  · exact .inl ⟨hfailed, hstores, hsame.trans htable.symm⟩
  · refine .inr ⟨UInt8.toNat_lt _, fun o ht => ?_⟩
    obtain ⟨found, hfound, hlog⟩ := CapTable.firstSlot_some hfirst
    rcases ht with hdiffer | ⟨j, cap, hne, hcap, hnames⟩
    · rw [hstores] at hdiffer
      exact absurd hdiffer (c.stores.not_differ o)
    · have hbefore : c.slot j = t.slots j := by
        rw [slot, htable]
        rfl
      have hafter : c'.slot j = if j = i then none else t.slots j := by
        rw [slot, hclear]
        exact (congrFun (CapTable.clear_eq t i) j).trans (Function.update_apply ..)
      by_cases hj : j = i
      · rw [hbefore, hafter, if_pos hj, hj, hfound] at hcap
        rcases hcap with hcap | hcap
        · cases hcap
          cases hr : found.resource with
          | logChannel kind readable writable =>
            rw [hr] at hlog
            rw [Capability.names, hr] at hnames
            rw [← Option.some.inj hnames, of_decide_eq_true hlog]
            rfl
          | _ =>
            rw [hr] at hlog
            cases hlog
        · cases hcap
      · rw [hbefore, hafter, if_neg hj] at hne
        exact absurd rfl hne

/-- Every command is confined to the object of the byte. -/
theorem run_confined {cmd : NumberCommand} {tok2 tok3 : List UInt8} {v : Nat}
    (hv : parseUsize tok2 = some v) (h : c.run ticks call cmd tok2 tok3 = some (c', out)) :
    Confined cmd (UInt8.ofNat v) c c' out := by
  cases cmd with
  | syncCreate => exact syncCreate_confined hv h
  | syncAcquire => exact syncUse_confined ⟨rfl, rfl⟩ hv h
  | syncRelease => exact syncUse_confined ⟨rfl, rfl⟩ hv h
  | devRead => exact devRead_confined hv h
  | devWrite => exact devWrite_confined hv h
  | logRevoke => exact logRevoke_confined hv h

end Console

def benchTable (id : UInt8) : CapTable :=
  CapTable.ofList [System.rootCap (.logChannel id true true) true,
    System.rootCap (.ipcChannel 85) false, System.rootCap (.ipcChannel 86) false,
    System.rootCap (.syncObj id) true, System.rootCap (.device id true true) true]

def benchSystem (id : Nat) : System :=
  System.ofTasks [Task.new 0 0 64 (benchTable (UInt8.ofNat id)), Task.new 0 0 85 CapTable.new,
    Task.new 0 0 86 CapTable.new]

def benchStores : Stores :=
  { Stores.new with
    dev := ⟨[65], [], ⟨fun _ => 65, 0, 1, 1⟩⟩
    sync := ⟨fun _ => ⟨true, false, 1, Lib.Circular.new 0⟩⟩ }

def emptyBench (id : Nat) : Console := ⟨benchSystem id, Stores.new⟩

def bench (id : Nat) : Console := ⟨benchSystem id, benchStores⟩

def decimal (n : Nat) : List UInt8 :=
  [UInt8.ofNat (48 + n / 100), UInt8.ofNat (48 + n / 10 % 10), UInt8.ofNat (48 + n % 10)]

def mutexWord : List UInt8 := [109, 117, 116, 101, 120]

theorem parse_decimal : ∀ r : Fin 256, parseUsize (decimal r) = some r.val := by
  decide +kernel

namespace Console

variable {c c' : Console} {ticks : UInt64} {call : Nat} {out : Outcome} {cmd : NumberCommand}

/-- What the commands do on the bench, for every number below their limits. -/
theorem bench_runs :
    (∀ r : Fin 8, ((emptyBench r).run 0 0 .syncCreate (decimal r) mutexWord).any
      (fun out => (out.1.stores.sync.objects r).used) = true) ∧
    (∀ r : Fin 8, ((bench r).run 0 0 .syncAcquire (decimal r) []).any
      (fun out => decide ((out.1.stores.sync.objects r).count = 0)) = true) ∧
    (∀ r : Fin 8, ((bench r).run 0 0 .syncRelease (decimal r) []).any
      (fun out => decide ((out.1.stores.sync.objects r).count = 2)) = true) ∧
    (∀ r : Fin 2, ((bench r).run 0 0 .devRead (decimal r) []).any
      (fun out => if r.val = 0 then out.1.stores.dev.serialIn.isEmpty
        else decide (out.1.stores.dev.keyboard.count = 0)) = true) ∧
    ((bench 0).run 0 0 .devWrite (decimal 0) [66]).any
      (fun out => decide (out.1.stores.dev.serialOut = [66])) = true ∧
    ∀ r : Fin 256, ((bench r).run 0 0 .logRevoke (decimal r) []).any
      (fun out => (out.1.slot ⟨0, by decide⟩).isNone) = true := by
  refine ⟨?_, ?_, ?_, ?_, ?_, ?_⟩
  all_goals decide +kernel

/-- Every object below the limit can be touched. -/
theorem exists_touched (cmd : NumberCommand) {r : Nat} (hr : r < cmd.limit) :
    ∃ (c c' : Console) (out : Outcome) (tok3 : List UInt8), c.run 0 0 cmd (decimal r) tok3 = some (c', out) ∧
      c.Touches c' (cmd.object r) := by
  cases cmd with
  | syncCreate =>
    obtain ⟨⟨c', out⟩, hrun, hused⟩ := (Option.any_eq_true ..).mp (bench_runs.1 ⟨r, hr⟩)
    refine ⟨emptyBench r, c', out, _, hrun, .inl ⟨⟨r, hr⟩, rfl, fun heq => ?_⟩⟩
    have hunused : false = true := (congrArg SyncObject.used heq).symm.trans hused
    cases hunused
  | syncAcquire =>
    obtain ⟨⟨c', out⟩, hrun, hcount⟩ := (Option.any_eq_true ..).mp (bench_runs.2.1 ⟨r, hr⟩)
    refine ⟨bench r, c', out, _, hrun, .inl ⟨⟨r, hr⟩, rfl, fun heq => ?_⟩⟩
    have hone : (1 : Int) = 0 := (congrArg SyncObject.count heq).symm.trans (of_decide_eq_true hcount)
    cases hone
  | syncRelease =>
    obtain ⟨⟨c', out⟩, hrun, hcount⟩ := (Option.any_eq_true ..).mp (bench_runs.2.2.1 ⟨r, hr⟩)
    refine ⟨bench r, c', out, _, hrun, .inl ⟨⟨r, hr⟩, rfl, fun heq => ?_⟩⟩
    have hone : (1 : Int) = 2 := (congrArg SyncObject.count heq).symm.trans (of_decide_eq_true hcount)
    cases hone
  | devRead =>
    obtain ⟨⟨c', out⟩, hrun, hread⟩ := (Option.any_eq_true ..).mp (bench_runs.2.2.2.1 ⟨r, hr⟩)
    refine ⟨bench r, c', out, _, hrun, .inl ?_⟩
    by_cases hzero : r = 0
    · refine .inl ⟨hzero, .inl fun heq => ?_⟩
      rw [if_pos hzero, heq] at hread
      cases hread
    · have hlimit : r < 2 := hr
      refine .inr ⟨by omega, fun heq => ?_⟩
      rw [if_neg hzero, heq] at hread
      cases hread
  | devWrite =>
    obtain rfl : r = 0 := Nat.lt_one_iff.mp hr
    obtain ⟨⟨c', out⟩, hrun, hwritten⟩ := (Option.any_eq_true ..).mp bench_runs.2.2.2.2.1
    refine ⟨bench 0, c', out, _, hrun, .inl (.inl ⟨rfl, .inr fun heq => ?_⟩)⟩
    rw [heq] at hwritten
    cases hwritten
  | logRevoke =>
    obtain ⟨⟨c', out⟩, hrun, hnone⟩ := (Option.any_eq_true ..).mp (bench_runs.2.2.2.2.2 ⟨r, hr⟩)
    have hslot : (bench r).slot ⟨0, by decide⟩ =
        some (System.rootCap (.logChannel (UInt8.ofNat r) true true) true) := rfl
    refine ⟨bench r, c', out, _, hrun, .inr ⟨_, _, fun heq => ?_, .inl hslot, ?_⟩⟩
    · rw [heq, hslot] at hnone
      cases hnone
    · exact congrArg (fun n => some (ObjectName.logKind n)) (UInt8.toNat_ofNat_of_lt' hr)

/-- Only the low byte of the number matters. -/
theorem run_congr {tok2 tok2' : List UInt8} {v v' : Nat} (hv : parseUsize tok2 = some v)
    (hv' : parseUsize tok2' = some v') (hbyte : UInt8.ofNat v = UInt8.ofNat v') (tok3 : List UInt8) :
    c.run ticks call cmd tok2 tok3 = c.run ticks call cmd tok2' tok3 := by
  cases cmd with
  | syncCreate => simp only [run, syncCreate, hv, hv', hbyte]
  | syncAcquire => simp only [run, syncAcquire, syncUse, hv, hv', hbyte]
  | syncRelease => simp only [run, syncRelease, syncUse, hv, hv', hbyte]
  | devRead => simp only [run, devRead, hv, hv', hbyte]
  | devWrite => simp only [run, devWrite, hv, hv', hbyte]
  | logRevoke => simp only [run, logRevoke, Kernel.logRevoke, hv, hv', hbyte]

end Console

/-- A number cut to a byte. -/
theorem toNat_narrowed (v : Nat) : (UInt8.ofNat v).toNat = v % 256 := rfl

namespace NumberCommand

def Covers (cmd : NumberCommand) (v : Nat) : Prop := v < 256 ∨ cmd.limit ≤ v % 256

theorem object_injective (cmd : NumberCommand) {v v' : Nat} (h : cmd.object v = cmd.object v') :
    v = v' := by
  cases cmd <;> cases h <;> rfl

theorem exists_of_lt (cmd : NumberCommand) {v : Nat} (h : v < cmd.limit) : (cmd.object v).Exists := by
  cases cmd with
  | devWrite => exact Nat.lt_of_lt_of_le h (by decide)
  | _ => exact h

end NumberCommand

/-- What a covered number does. -/
theorem Console.exact_of_covers {c c' : Console} {ticks : UInt64} {call : Nat} {out : Outcome}
    {cmd : NumberCommand} {tok2 tok3 : List UInt8} {v : Nat} (hv : parseUsize tok2 = some v)
    (hcovers : cmd.Covers v) (h : c.run ticks call cmd tok2 tok3 = some (c', out)) :
    Console.Exact cmd v c c' out := by
  rcases Console.run_confined hv h with hfailed | ⟨hlt, hobject⟩
  · exact .inl hfailed
  · rw [toNat_narrowed] at hlt hobject
    have hsame : v % 256 = v := by
      rcases hcovers with hsmall | hlimit
      · exact Nat.mod_eq_of_lt hsmall
      · omega
    rw [hsame] at hlt hobject
    exact .inr ⟨cmd.exists_of_lt hlt, hobject⟩

theorem Console.Untouched.not_touches {c c' : Console} (h : c.Untouched c') (o : ObjectName) :
    ¬ c.Touches c' o := by
  intro ht
  have hdiffer := ht.differ h.table
  rw [h.stores] at hdiffer
  exact c.stores.not_differ o hdiffer

theorem Console.Exact.object_eq {c c' : Console} {out : Outcome} {cmd : NumberCommand} {v : Nat}
    (h : Console.Exact cmd v c c' out) {o : ObjectName} (ht : c.Touches c' o) : o = cmd.object v := by
  rcases h with ⟨_, hun⟩ | ⟨_, hobject⟩
  · exact absurd ht (hun.not_touches o)
  · exact hobject o ht

/-- A command means exactly the number it was given, in every state, if and only if the
number is covered; and covered numbers that differ touch different objects. -/
theorem operand_exact_iff (cmd : NumberCommand) (tok2 : List UInt8) (v : Nat)
    (hv : parseUsize tok2 = some v) :
    ((∀ c ticks call tok3 c' out, Console.run c ticks call cmd tok2 tok3 = some (c', out) →
      Console.Exact cmd v c c' out) ↔ cmd.Covers v) ∧
    ∀ tok2' v', parseUsize tok2' = some v' → cmd.Covers v → cmd.Covers v' →
      ∀ c ticks call tok3 tok3' c₁ out₁ c₂ out₂ o,
        Console.run c ticks call cmd tok2 tok3 = some (c₁, out₁) →
        Console.run c ticks call cmd tok2' tok3' = some (c₂, out₂) →
        c.Touches c₁ o → c.Touches c₂ o → v = v' := by
  refine ⟨⟨fun hexact => ?_, fun hcovers _ _ _ _ _ _ h => Console.exact_of_covers hv hcovers h⟩, ?_⟩
  · by_contra hno
    obtain ⟨hbig, hlimit⟩ := not_or.mp hno
    have hlt : v % 256 < cmd.limit := Nat.lt_of_not_le hlimit
    have hmod : v % 256 < 256 := Nat.mod_lt _ (by decide)
    obtain ⟨c, c', out, tok3, hrun, htouched⟩ := Console.exists_touched cmd hlt
    have hbyte : UInt8.ofNat v = UInt8.ofNat (v % 256) :=
      UInt8.toNat.inj (by rw [toNat_narrowed, toNat_narrowed, Nat.mod_mod])
    rw [← Console.run_congr hv (parse_decimal ⟨v % 256, hmod⟩) hbyte tok3] at hrun
    have heq := (hexact c 0 0 tok3 c' out hrun).object_eq htouched
    have hsame := cmd.object_injective heq
    omega
  · intro tok2' v' hv' hcovers hcovers' c ticks call tok3 tok3' c₁ out₁ c₂ out₂ o h₁ h₂ ht₁ ht₂
    have ho := (Console.exact_of_covers hv hcovers h₁).object_eq ht₁
    have ho' := (Console.exact_of_covers hv' hcovers' h₂).object_eq ht₂
    exact cmd.object_injective (ho.symm.trans ho')

/-- `sync create 7 mutex` -/
theorem operand_exact_seven : ∃ c' out,
    (emptyBench 7).run 0 0 .syncCreate [55] mutexWord = some (c', out) ∧
    (c'.stores.sync.objects ⟨7, by decide⟩).used = true ∧
    Console.Exact .syncCreate 7 (emptyBench 7) c' out := by
  have hcreated : ((emptyBench 7).run 0 0 .syncCreate [55] mutexWord).any
      (fun out => (out.1.stores.sync.objects ⟨7, by decide⟩).used) = true := by
    decide +kernel
  obtain ⟨⟨c', out⟩, hrun, hused⟩ := (Option.any_eq_true ..).mp hcreated
  have hexact := (operand_exact_iff .syncCreate [55] 7 rfl).1.mpr (.inl (by decide))
  exact ⟨c', out, hrun, hused, hexact _ _ _ _ _ _ hrun⟩

/-- `sync create 256 mutex` creates object 0. -/
theorem sync_create_wraps : ∃ c' out, parseUsize [50, 53, 54] = some 256 ∧
    (emptyBench 0).run 0 0 .syncCreate [50, 53, 54] mutexWord = some (c', out) ∧
    (emptyBench 0).Touches c' (.sync 0) ∧ ¬ Console.Exact .syncCreate 256 (emptyBench 0) c' out := by
  have hcreated : ((emptyBench 0).run 0 0 .syncCreate [50, 53, 54] mutexWord).any
      (fun out => (out.1.stores.sync.objects ⟨0, by decide⟩).used) = true := by
    decide +kernel
  obtain ⟨⟨c', out⟩, hrun, hused⟩ := (Option.any_eq_true ..).mp hcreated
  have htouched : (emptyBench 0).Touches c' (.sync 0) := by
    refine .inl ⟨⟨0, by decide⟩, rfl, fun heq => ?_⟩
    rw [heq] at hused
    cases hused
  refine ⟨c', out, rfl, hrun, htouched, fun hexact => ?_⟩
  cases hexact.object_eq htouched

end Runix
