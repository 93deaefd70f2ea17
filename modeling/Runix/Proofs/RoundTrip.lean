import Runix.Proofs.Commands

namespace Runix

namespace StoresEvent

def Writes (key : FsKey) : StoresEvent → Prop
  | .request .fs _ _ _ msg => ∃ c, msg.fsCall = some c ∧ c.key = key ∧ c.request.needsWrite = true
  | _ => False

def Sets (i : Fin kvSlots) : StoresEvent → Prop
  | .request .kv _ _ _ msg => msg.kvCall = some (i, true)
  | _ => False

def served : StoresEvent → Option Service
  | .request svc _ _ _ _ => some svc
  | _ => none

theorem served_some {e : StoresEvent} {svc : Service} (h : e.served = some svc) :
    ∃ s ticks call msg, e = .request svc s ticks call msg := by
  cases e with
  | request svc' s ticks call msg =>
    cases h
    exact ⟨s, ticks, call, msg, rfl⟩
  | press | arrive => cases h

end StoresEvent

section Frames
variable {st st' : Stores} {e : StoresEvent}

/-- A step changes only the store of the service that is asked. -/
theorem StoresStep.kept (hstep : StoresStep st e st') :
    (e.served ≠ some .fs → st'.fs = st.fs) ∧ (e.served ≠ some .kv → st'.kv = st.kv) ∧
      (e.served ≠ some .log → st'.log = st.log) := by
  cases e with
  | request svc s ticks call msg =>
    obtain ⟨_, _, replies, hround⟩ := hstep
    cases svc
    all_goals
      obtain ⟨out, _, heq⟩ := Option.map_eq_some_iff.mp hround
      cases heq
      refine ⟨fun hne => ?_, fun hne => ?_, fun hne => ?_⟩
      all_goals first | rfl | exact absurd rfl hne
  | press ascii =>
    obtain ⟨d, _, rfl⟩ := hstep
    exact ⟨fun _ => rfl, fun _ => rfl, fun _ => rfl⟩
  | arrive byte =>
    cases hstep
    exact ⟨fun _ => rfl, fun _ => rfl, fun _ => rfl⟩

theorem StoresStep.fs_map (h : st.Sound) {key : FsKey} (hstep : StoresStep st e st')
    (hno : ¬ e.Writes key) : st'.fs.map key = st.fs.map key := by
  by_cases hsvc : e.served = some .fs
  · obtain ⟨s, ticks, call, msg, rfl⟩ := StoresEvent.served_some hsvc
    obtain ⟨_, _, replies, hround⟩ := hstep
    obtain ⟨reply, hreply⟩ := Stores.round_replies (by decide) hround
    have htransition := (h.fs.step (Stores.round_fs hround hreply)).2
    by_contra hne
    obtain ⟨c, hcall, hkey, _, hlegal, _⟩ := htransition.changed hne
    refine hno ⟨c, hcall, hkey, ?_⟩
    obtain ⟨key', request⟩ := c
    cases request with
    | mkdir | write | delete => rfl
    | read | ls | stat => exact absurd hlegal id
  · rw [hstep.kept.1 hsvc]

theorem kvService_slot {s : Scheduler} {store : KvStore} {msg : Message} {a : Answer KvStore}
    (h : kvService s store msg = some a) {i : Fin kvSlots} (hno : msg.kvCall ≠ some (i, true)) :
    a.store.slots i = store.slots i := by
  rw [kvService_eq] at h
  cases hcall : msg.kvCall with
  | none =>
    rw [hcall] at h
    cases h
    rfl
  | some asked =>
    obtain ⟨j, write⟩ := asked
    rw [hcall] at h
    simp only at h
    split at h
    · cases write with
      | false =>
        obtain ⟨reply, hget, _⟩ := store.get_spec j
        cases hget.symm.trans h
        rfl
      | true =>
        obtain ⟨slot, hset, _⟩ := store.set_spec j msg
        cases hset.symm.trans h
        have hne : i ≠ j := fun heq => hno (heq ▸ hcall)
        exact Function.update_of_ne hne slot store.slots
    · cases h
      rfl

theorem StoresStep.kv_slot {i : Fin kvSlots} (hstep : StoresStep st e st') (hno : ¬ e.Sets i) :
    st'.kv.slots i = st.kv.slots i := by
  by_cases hsvc : e.served = some .kv
  · obtain ⟨s, ticks, call, msg, rfl⟩ := StoresEvent.served_some hsvc
    obtain ⟨_, _, replies, hround⟩ := hstep
    obtain ⟨reply, hreply⟩ := Stores.round_replies (by decide) hround
    obtain ⟨a, ha, hstore, _⟩ := Stores.round_kv hround hreply
    have hslot := kvService_slot ha hno
    rwa [hstore] at hslot
  · rw [hstep.kept.2.1 hsvc]

theorem LogEffect.keeps {s : Scheduler} {ticks : UInt64} {state state' : LogState} {msg : Message}
    {reply : List UInt8} (h : LogEffect s ticks state msg state' reply) {pos : Nat}
    {entry : LogEntry} (hk : state.Keeps pos entry) : state'.Keeps pos entry := by
  cases h with
  | refused | found | empty => exact hk
  | @published kind new asks may made room =>
    refine ⟨Nat.lt_succ_of_lt hk.1, fun hle => ?_⟩
    change state.log.writePos + 1 ≤ pos + logCapacity at hle
    have hne : Fin.ofNat logCapacity pos ≠ Fin.ofNat logCapacity state.log.writePos := by
      intro heq
      have hmod : pos % 128 = state.log.writePos % 128 := congrArg Fin.val heq
      have hlt := hk.1
      have hcap : logCapacity = 128 := rfl
      omega
    change Function.update state.log.buffer _ new _ = entry
    rw [Function.update_of_ne hne]
    exact hk.2 (by omega)

theorem StoresStep.log_keeps (hstep : StoresStep st e st') {pos : Nat} {entry : LogEntry}
    (hk : st.log.Keeps pos entry) : st'.log.Keeps pos entry := by
  by_cases hsvc : e.served = some .log
  · obtain ⟨s, ticks, call, msg, rfl⟩ := StoresEvent.served_some hsvc
    obtain ⟨_, _, replies, hround⟩ := hstep
    obtain ⟨reply, hreply⟩ := Stores.round_replies (by decide) hround
    exact (Stores.round_log hround hreply).effect.keeps hk
  · rw [hstep.kept.2.2 hsvc]
    exact hk

end Frames

theorem getLine_take {key value : List UInt8} (hk : Printable key) (hv : Printable value) (i m n : Nat) :
    ClientCommand.getLine i (key.take m) (value.take n) = ClientCommand.getLine i key value ↔
      key.length ≤ m ∧ value.length ≤ n := by
  constructor
  · intro heq
    have hlen := congrArg String.length heq
    simp only [ClientCommand.getLine, String.length_append, toString, (hk.take m).length, hk.length,
      (hv.take n).length, hv.length, List.length_take] at hlen
    omega
  · rintro ⟨hm, hn⟩
    rw [List.take_of_length_le hm, List.take_of_length_le hn]

theorem entryLine_take {message : List UInt8} (h : Printable message) (kind n tick producer : Nat)
    (k : UInt8) : ClientCommand.entryLine kind ⟨tick, producer, k, message.take n⟩ =
      ClientCommand.entryLine kind ⟨tick, producer, k, message⟩ ↔ message.length ≤ n := by
  constructor
  · intro heq
    have hlen := congrArg String.length heq
    simp only [ClientCommand.entryLine, String.length_append, toString, (h.take n).length, h.length,
      List.length_take] at hlen
    omega
  · intro hn
    rw [List.take_of_length_le hn]

theorem fromUtf8_take {data : List UInt8} (h : Printable data) (n : Nat) :
    fromUtf8 (data.take n) = fromUtf8 data ↔ data.length ≤ n := by
  constructor
  · intro heq
    have hlen := congrArg String.length heq
    rw [(h.take n).length, h.length, List.length_take] at hlen
    omega
  · intro hn
    rw [List.take_of_length_le hn]

def Stores.prints (st : Stores) (s : Scheduler) (ticks : UInt64) (call : Nat) (cmd : ClientCommand) :
    Option Reply :=
  (st.command s ticks call cmd).map Prod.snd

section Trips
variable {as bs : List StoresEvent} {st st₁ st₂ : Stores} {s s₂ : Scheduler} {ticks : UInt64}
  {call : Nat}

theorem file_read_back (h : st.Sound) {path data : List UInt8} (hdata : Printable data)
    (hcmd : st.command s ticks call (.fsWrite path data) = some (st₁, .ok "file written"))
    (hr : Lib.Run (Lib.Guarded (fun _ e => ¬ e.Writes (consoleKey path)) StoresStep) st₁ bs st₂)
    (hs : s₂.Reaches .fs) (hmay : s₂.FsMay false) (ticks₂ : UInt64) (call₂ : Nat) :
    ∃ out, st₂.prints s₂ ticks₂ call₂ (.fsRead path) = some out ∧
      (out = .ok (fromUtf8 data) ↔ data.length ≤ 94) := by
  have hmap := fsWrite_stored h hcmd
  obtain ⟨hsound, hkept⟩ := hr.invariant
    (P := fun st => st.Sound ∧ st.fs.map (consoleKey path) = some (.file (data.take 94)))
    ⟨h.command hcmd, by rw [hmap, Function.update_self]⟩
    (fun _ _ _ h hstep => ⟨h.1.step hstep.2, (StoresStep.fs_map h.1 hstep.2 hstep.1).trans h.2⟩)
  have hpath : path ≠ [] := by
    rintro rfl
    cases hcmd
  obtain ⟨st₃, hread⟩ := fsRead_shows hsound hs hmay hpath ticks₂ call₂
  refine ⟨_, by rw [Stores.prints, hread, Option.map_some], ?_⟩
  rw [hkept]
  change Reply.ok (fromUtf8 (data.take 94)) = .ok (fromUtf8 data) ↔ _
  rw [Reply.ok.injEq]
  exact fromUtf8_take hdata 94

theorem slot_read_back (h : st.Sound) {tok2 tok3 : List UInt8} {i : Fin kvSlots}
    (hprint : Printable tok3) (hi : ClientCommand.kvSlot tok2 = .ok i) {text : String}
    (hcmd : st.command s ticks call (.kvSet tok2 tok3) = some (st₁, .ok text))
    (hr : Lib.Run (Lib.Guarded (fun _ e => ¬ e.Sets i) StoresStep) st₁ bs st₂)
    (hs : s₂.Reaches .kv) (hmay : s₂.checkSenderCap 64 i false = true) (ticks₂ : UInt64) (call₂ : Nat) :
    ∃ out, st₂.prints s₂ ticks₂ call₂ (.kvGet tok2) = some out ∧
      (out = .ok (ClientCommand.getLine i (firstWord tok3) (afterWord tok3)) ↔
        (firstWord tok3).length ≤ 16 ∧ (afterWord tok3).length ≤ 64) := by
  obtain ⟨hkey, hvalue⟩ := kvSet_stored hi hcmd
  obtain ⟨hsound, hkept⟩ := hr.invariant
    (P := fun st => st.Sound ∧ st.kv.slots i = st₁.kv.slots i) ⟨h.command hcmd, rfl⟩
    (fun _ _ _ h hstep => ⟨h.1.step hstep.2, (StoresStep.kv_slot hstep.2 hstep.1).trans h.2⟩)
  obtain ⟨st₃, hread⟩ := kvGet_shows hi hsound hs hmay ticks₂ call₂
  refine ⟨_, by rw [Stores.prints, hread, Option.map_some], ?_⟩
  rw [hkept, hkey, hvalue, takeWhile_clip hprint.firstWord, takeWhile_clip hprint.afterWord,
    Reply.ok.injEq]
  exact getLine_take hprint.firstWord hprint.afterWord i 16 64

theorem entry_read_back (h : st.Sound) {tok2 tok3 : List UInt8} {kind : Nat} (hprint : Printable tok3)
    (hkind : ClientCommand.logKind tok2 = .ok kind) {text : String}
    (hcmd : st.command s ticks call (.logPublish tok2 tok3) = some (st₁, .ok text))
    (hr : Lib.Run StoresStep st₁ bs st₂) (hs : s₂.Reaches .log)
    (hmay : s₂.checkLogSenderCap 64 (UInt8.ofNat kind) false = true) {entry : LogEntry}
    (hnext : st₂.log.next shellTask (UInt8.ofNat kind) = some (st.log.log.writePos, entry))
    (ticks₂ : UInt64) (call₂ : Nat) :
    ∃ out, st₂.prints s₂ ticks₂ call₂ (.logRead tok2) = some out ∧
      (out = .ok (ClientCommand.entryLine kind ⟨ticks.toNat, 64, UInt8.ofNat kind, tok3⟩) ↔
        tok3.length ≤ 64) := by
  obtain ⟨entry₁, hkeeps, hlen, hrecord⟩ := logPublish_stored hkind hcmd
  obtain ⟨hsound, hkept⟩ := hr.invariant
    (P := fun st' => st'.Sound ∧ st'.log.Keeps st.log.log.writePos entry₁) ⟨h.command hcmd, hkeeps⟩
    (fun _ _ _ h hstep => ⟨h.1.step hstep, hstep.log_keeps h.2⟩)
  obtain ⟨hstart, _, hentry, _⟩ := LogState.next_some hnext
  have hwindow := st₂.log.start_window (st₂.log.cursors shellTask)
  rw [hkept.2 (by omega)] at hentry
  subst hentry
  have hproducer : entry.producer < 2 ^ 64 := by
    rw [show entry.producer = 64 from congrArg LogRecord.producer hrecord]
    decide
  obtain ⟨st₃, hread⟩ := logRead_shows hkind hsound hs hmay hnext hproducer hlen ticks₂ call₂
  refine ⟨_, by rw [Stores.prints, hread, Option.map_some], ?_⟩
  rw [hrecord, Reply.ok.injEq]
  exact entryLine_take hprint kind 64 _ _ _

end Trips

def ClientCommand.Spares (cmd : ClientCommand) (q : List UInt8) : Prop :=
  ∀ as st, Lib.Run StoresStep .new as st → ∀ s ticks call st₁ out,
    st.command s ticks call cmd = some (st₁, out) → ∀ s₂ ticks₂ call₂, s₂.Reaches .fs →
    s₂.FsMay false →
    st₁.prints s₂ ticks₂ call₂ (.fsRead q) = st.prints s₂ ticks₂ call₂ (.fsRead q) ∧
    st₁.prints s₂ ticks₂ call₂ (.fsStat q) = st.prints s₂ ticks₂ call₂ (.fsStat q)

/-- The console with a channel and all rights to slot 0, kind 0 and mount 0, and the
three services. -/
def consoleScheduler : Scheduler :=
  Scheduler.ofList [Task.new 0 0 64 (CapTable.ofList [
      ⟨.ipcChannel 82, true, true, false, false, 1, none⟩,
      ⟨.ipcChannel 83, true, true, false, false, 2, none⟩,
      ⟨.ipcChannel 84, true, true, false, false, 3, none⟩,
      ⟨.kvEntry 0 true true, true, true, false, false, 4, none⟩,
      ⟨.logChannel 0 true true, true, true, false, false, 5, none⟩,
      ⟨.fsNode 0 true true, true, true, false, false, 6, none⟩]),
    Task.new 0 0 82 CapTable.new, Task.new 0 0 83 CapTable.new, Task.new 0 0 84 CapTable.new]

theorem console_reaches_fs : consoleScheduler.Reaches .fs := ⟨by decide, _, rfl⟩

theorem console_may (write : Bool) : consoleScheduler.FsMay write :=
  Scheduler.checkCap_iff.mp (by cases write <;> decide)

section Sparing
variable {path q : List UInt8}

/-- What is printed depends only on what the path leads to. -/
theorem spares_of_frame {cmd : ClientCommand} (hq : q ≠ [])
    (hframe : ∀ {st : Stores} {s ticks call st₁ out}, st.Sound →
      st.command s ticks call cmd = some (st₁, out) →
      st₁.fs.map (consoleKey q) = st.fs.map (consoleKey q)) : cmd.Spares q := by
  intro as st hr s ticks call st₁ out hcmd s₂ ticks₂ call₂ hs hmay
  have hsound := stores_sound hr
  have hsound₁ := hsound.command hcmd
  have hmap := hframe hsound hcmd
  unfold Stores.prints
  obtain ⟨_, hread⟩ := fsRead_shows hsound hs hmay hq ticks₂ call₂
  obtain ⟨_, hread₁⟩ := fsRead_shows hsound₁ hs hmay hq ticks₂ call₂
  obtain ⟨_, hstat⟩ := fsStat_shows hsound hs hmay hq ticks₂ call₂
  obtain ⟨_, hstat₁⟩ := fsStat_shows hsound₁ hs hmay hq ticks₂ call₂
  rw [hread, hread₁, hstat, hstat₁, hmap]
  exact ⟨rfl, rfl⟩

/-- Under a key of its own nothing is there at first, and a write makes a file. -/
theorem new_write (path data : List UInt8) (hpath : path ≠ []) (hdata : data ≠ []) :
    ∃ st₁, Stores.new.command consoleScheduler 0 0 (.fsWrite path data) =
      some (st₁, .ok "file written") := by
  have hreq : (ClientCommand.fsWrite path data).request =
      .ok ⟨.fs, .fsOp, fsPayload 1 0 path data⟩ := if_neg (by simp [hpath, hdata])
  obtain ⟨st₁, reply, htransition, hcommand⟩ := fs_command_served Stores.new_sound
    console_reaches_fs (.write (some (data.take 94))) hreq (fun slot => fsAsked_write slot path data)
    nofun 0
  refine ⟨st₁, hcommand _ ?_⟩
  have hempty : Stores.new.fs.map = fun _ => none := FsStore.new_map
  generalize st₁.fs.map = m' at htransition
  rw [hempty] at htransition
  cases htransition with
  | written => rfl
  | denied hno => exact absurd (console_may true) hno
  | full _ _ _ hfull => simp [FsMap.keys] at hfull
  | toDir _ hdir => cases hdir
  | notThere _ hreq => rcases hreq with hreq | hreq <;> cases hreq

theorem new_mkdir (hpath : path ≠ []) : ∃ st₁ reply,
    Stores.new.command consoleScheduler 0 0 (.fsMkdir path) = some (st₁, reply) ∧
      st₁.fs.map (consoleKey path) = some .dir := by
  have hreq : (ClientCommand.fsMkdir path).request = .ok ⟨.fs, .fsOp, fsPayload 0 0 path []⟩ :=
    if_neg (by simp [hpath])
  obtain ⟨st₁, reply, htransition, hcommand⟩ := fs_command_served Stores.new_sound
    console_reaches_fs .mkdir hreq (fun slot => fsAsked_mkdir slot path) nofun 0
  refine ⟨st₁, _, hcommand _ rfl, ?_⟩
  have hempty : Stores.new.fs.map = fun _ => none := FsStore.new_map
  generalize st₁.fs.map = m' at htransition
  rw [hempty] at htransition
  cases htransition with
  | made => exact Function.update_self _ _ _
  | denied hno => exact absurd (console_may true) hno
  | present _ hkey => exact absurd rfl hkey
  | full _ _ _ hfull => simp [FsMap.keys] at hfull
  | notThere _ hreq => rcases hreq with hreq | hreq <;> cases hreq

theorem fsWrite_spares {data : List UInt8} (hpath : path ≠ []) (hdata : data ≠ []) (hq : q ≠ []) :
    (ClientCommand.fsWrite path data).Spares q ↔ path.take 30 ≠ q.take 30 := by
  constructor
  · intro hspares hsame
    have hkey : consoleKey path = consoleKey q := congrArg (Prod.mk 0) hsame
    obtain ⟨st₁, hcmd⟩ := new_write path data hpath hdata
    have hmap := fsWrite_stored Stores.new_sound hcmd
    have hread := (hspares [] _ (.nil _) _ _ _ _ _ hcmd _ 0 0 console_reaches_fs
      (console_may false)).1
    obtain ⟨_, hbefore⟩ := fsRead_shows Stores.new_sound console_reaches_fs (console_may false) hq 0 0
    obtain ⟨_, hafter⟩ := fsRead_shows (Stores.new_sound.command hcmd) console_reaches_fs
      (console_may false) hq 0 0
    have hempty : Stores.new.fs.map = fun _ => none := FsStore.new_map
    rw [Stores.prints, Stores.prints, hbefore, hafter, hmap, hkey, Function.update_self, hempty] at hread
    cases hread
  · intro hne
    refine spares_of_frame hq (fun hsound hcmd => fsWrite_frame hsound hcmd ?_)
    exact fun heq => hne (congrArg Prod.snd heq)

theorem fsMkdir_spares (hpath : path ≠ []) (hq : q ≠ []) :
    (ClientCommand.fsMkdir path).Spares q ↔ path.take 30 ≠ q.take 30 := by
  constructor
  · intro hspares hsame
    have hkey : consoleKey path = consoleKey q := congrArg (Prod.mk 0) hsame
    obtain ⟨st₁, reply, hcmd, hmap⟩ := new_mkdir hpath
    have hstat := (hspares [] _ (.nil _) _ _ _ _ _ hcmd _ 0 0 console_reaches_fs
      (console_may false)).2
    obtain ⟨_, hbefore⟩ := fsStat_shows Stores.new_sound console_reaches_fs (console_may false) hq 0 0
    obtain ⟨_, hafter⟩ := fsStat_shows (Stores.new_sound.command hcmd) console_reaches_fs
      (console_may false) hq 0 0
    have hempty : Stores.new.fs.map = fun _ => none := FsStore.new_map
    rw [Stores.prints, Stores.prints, hbefore, hafter, ← hkey, hmap, hempty] at hstat
    cases hstat
  · intro hne
    refine spares_of_frame hq (fun hsound hcmd => fsMkdir_frame hsound hcmd ?_)
    exact fun heq => hne (congrArg Prod.snd heq)

end Sparing

/-- What the console reports as stored is read back exactly as it was given if and
only if it fits the fields of the messages: 94 bytes of data, 16 of a key, 64 of a
value or a log message. A write or a new directory leaves another path alone if and
only if the two differ in their first 30 bytes. Between the commands everybody may do
anything except writing to the same place. -/
theorem console_round_trip_iff {as : List StoresEvent} {st : Stores}
    (hr : Lib.Run StoresStep .new as st) (s : Scheduler) (ticks : UInt64) (call : Nat) (st₁ : Stores) :
    (∀ path data, (ClientCommand.fsWrite path data).Typed →
      st.command s ticks call (.fsWrite path data) = some (st₁, .ok "file written") →
      ∀ bs st₂, Lib.Run (Lib.Guarded (fun _ e => ¬ e.Writes (consoleKey path)) StoresStep) st₁ bs st₂ →
      ∀ s₂ ticks₂ call₂, s₂.Reaches .fs → s₂.FsMay false →
      ∃ out, st₂.prints s₂ ticks₂ call₂ (.fsRead path) = some out ∧
        (out = .ok (fromUtf8 data) ↔ data.length ≤ 94)) ∧
    (∀ tok2 tok3 (i : Fin kvSlots) text, (ClientCommand.kvSet tok2 tok3).Typed →
      ClientCommand.kvSlot tok2 = .ok i →
      st.command s ticks call (.kvSet tok2 tok3) = some (st₁, .ok text) →
      ∀ bs st₂, Lib.Run (Lib.Guarded (fun _ e => ¬ e.Sets i) StoresStep) st₁ bs st₂ →
      ∀ s₂ ticks₂ call₂, s₂.Reaches .kv → s₂.checkSenderCap 64 i false = true →
      ∃ out, st₂.prints s₂ ticks₂ call₂ (.kvGet tok2) = some out ∧
        (out = .ok (ClientCommand.getLine i (firstWord tok3) (afterWord tok3)) ↔
          (firstWord tok3).length ≤ 16 ∧ (afterWord tok3).length ≤ 64)) ∧
    (∀ tok2 tok3 kind text, (ClientCommand.logPublish tok2 tok3).Typed →
      ClientCommand.logKind tok2 = .ok kind →
      st.command s ticks call (.logPublish tok2 tok3) = some (st₁, .ok text) →
      ∀ bs st₂, Lib.Run StoresStep st₁ bs st₂ →
      ∀ s₂ ticks₂ call₂ entry, s₂.Reaches .log →
      s₂.checkLogSenderCap 64 (UInt8.ofNat kind) false = true →
      st₂.log.next shellTask (UInt8.ofNat kind) = some (st.log.log.writePos, entry) →
      ∃ out, st₂.prints s₂ ticks₂ call₂ (.logRead tok2) = some out ∧
        (out = .ok (ClientCommand.entryLine kind ⟨ticks.toNat, 64, UInt8.ofNat kind, tok3⟩) ↔
          tok3.length ≤ 64)) ∧
    (∀ path q, path ≠ q → path ≠ [] → q ≠ [] →
      (∀ data, data ≠ [] →
        ((ClientCommand.fsWrite path data).Spares q ↔ path.take 30 ≠ q.take 30)) ∧
      ((ClientCommand.fsMkdir path).Spares q ↔ path.take 30 ≠ q.take 30)) := by
  have h := stores_sound hr
  refine ⟨?_, ?_, ?_, ?_⟩
  · intro path data htyped hcmd bs st₂ hbetween s₂ ticks₂ call₂ hs hmay
    have hdata : Printable data := htyped.printable data (by simp [ClientCommand.operands])
    exact file_read_back h hdata hcmd hbetween hs hmay ticks₂ call₂
  · intro tok2 tok3 i text htyped hi hcmd bs st₂ hbetween s₂ ticks₂ call₂ hs hmay
    have hprint : Printable tok3 := htyped.printable tok3 (by simp [ClientCommand.operands])
    exact slot_read_back h hprint hi hcmd hbetween hs hmay ticks₂ call₂
  · intro tok2 tok3 kind text htyped hkind hcmd bs st₂ hbetween s₂ ticks₂ call₂ entry hs hmay hnext
    have hprint : Printable tok3 := htyped.printable tok3 (by simp [ClientCommand.operands])
    exact entry_read_back h hprint hkind hcmd hbetween hs hmay hnext ticks₂ call₂
  · intro path q _ hpath hq
    exact ⟨fun data hdata => fsWrite_spares hpath hdata hq, fsMkdir_spares hpath hq⟩

def writeLine (text : List UInt8) : List UInt8 :=
  [102, 115, 32, 119, 114, 105, 116, 101, 32, 47, 97, 32] ++ text

theorem printable_of_all {line : List UInt8}
    (h : line.all (fun b => 32 ≤ b.toNat && b.toNat ≤ 126) = true) : Printable line := by
  intro b hb
  simpa using List.all_eq_true.mp h b hb

/-- `hi` is written to `/a` and read back. -/
theorem console_round_trip_iff_greeting : ∃ st₁,
    Stores.new.command consoleScheduler 0 0 (.fsWrite [47, 97] [104, 105]) =
      some (st₁, .ok "file written") ∧
    st₁.prints consoleScheduler 0 0 (.fsRead [47, 97]) = some (.ok (fromUtf8 [104, 105])) := by
  obtain ⟨st₁, hcmd⟩ := new_write [47, 97] [104, 105] (by decide) (by decide)
  have htyped : (ClientCommand.fsWrite [47, 97] [104, 105]).Typed :=
    ⟨writeLine [104, 105], by decide, printable_of_all rfl, rfl⟩
  obtain ⟨out, hprints, hexact⟩ := (console_round_trip_iff (.nil _) consoleScheduler 0 0 st₁).1
    [47, 97] [104, 105] htyped hcmd [] st₁ (.nil _) consoleScheduler 0 0 console_reaches_fs
    (console_may false)
  exact ⟨st₁, hcmd, by rw [hprints, hexact.mpr (by decide)]⟩

def longText : List UInt8 := List.replicate 95 120

/-- The console reports that it has written 95 letters and then reads back others. -/
theorem long_text_clipped : ∃ st₁ out, (ClientCommand.fsWrite [47, 97] longText).Typed ∧
    Stores.new.command consoleScheduler 0 0 (.fsWrite [47, 97] longText) =
      some (st₁, .ok "file written") ∧
    st₁.prints consoleScheduler 0 0 (.fsRead [47, 97]) = some out ∧
    out ≠ .ok (fromUtf8 longText) := by
  obtain ⟨st₁, hcmd⟩ := new_write [47, 97] longText (by decide) (by decide)
  have htyped : (ClientCommand.fsWrite [47, 97] longText).Typed :=
    ⟨writeLine longText, by decide, printable_of_all rfl, rfl⟩
  have hprint : Printable longText := htyped.printable longText (by simp [ClientCommand.operands])
  obtain ⟨out, hprints, hexact⟩ := file_read_back Stores.new_sound hprint hcmd (.nil _)
    console_reaches_fs (console_may false) 0 0
  exact ⟨st₁, out, htyped, hcmd, hprints, fun heq => absurd (hexact.mp heq) (by decide)⟩

end Runix
