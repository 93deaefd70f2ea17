import Runix.Proofs.Client

namespace Runix

namespace Stores
variable {st st' : Stores} {s : Scheduler} {ticks : UInt64} {call : Nat} {msg : Message}
  {replies : List (List UInt8)} {reply : List UInt8}

/-- A round of a service is a step of its own store. -/
theorem round_fs (h : st.round .fs s ticks call msg = some (st', replies))
    (hreply : replies.head? = some reply) : FsStep st.fs ⟨s, call, msg, reply⟩ st'.fs := by
  obtain ⟨out, hout, heq⟩ := Option.map_eq_some_iff.mp h
  cases heq
  cases hreply
  exact ⟨_, _, hout⟩

theorem round_log (h : st.round .log s ticks call msg = some (st', replies))
    (hreply : replies.head? = some reply) : LogStep st.log ⟨s, ticks, call, msg, reply⟩ st'.log := by
  obtain ⟨out, hout, heq⟩ := Option.map_eq_some_iff.mp h
  cases heq
  cases hreply
  exact ⟨_, _, hout⟩

theorem round_kv (h : st.round .kv s ticks call msg = some (st', replies))
    (hreply : replies.head? = some reply) : ∃ a, kvService s st.kv msg = some a ∧
      a.store = st'.kv ∧ a.bytes = some reply := by
  obtain ⟨out, hout, heq⟩ := Option.map_eq_some_iff.mp h
  cases heq
  cases hreply
  obtain ⟨a, ha, hanswer⟩ := Option.bind_eq_some_iff.mp hout
  exact ⟨a, ha, Scheduler.answer_some hanswer⟩

/-- The replies of a service other than the synchronisation service are one. -/
theorem round_replies {svc : Service} (hsvc : svc ≠ .sync)
    (h : st.round svc s ticks call msg = some (st', replies)) : ∃ reply, replies.head? = some reply := by
  cases svc with
  | sync => exact absurd rfl hsvc
  | kv | log | fs | device =>
    obtain ⟨out, _, heq⟩ := Option.map_eq_some_iff.mp h
    cases heq
    exact ⟨_, rfl⟩

end Stores

theorem Scheduler.answer_serving {σ : Type} {s : Scheduler} {svc : Service} {call : Nat}
    {client : TaskId} {a : Answer σ} {out : Served σ} (h : s.answer svc call client a = some out) :
    s.Serving svc := by
  obtain ⟨s₁, hopen, _⟩ := Option.bind_eq_some_iff.mp h
  intro hnone
  rw [Scheduler.openReply, hnone] at hopen
  cases hopen

namespace Stores
variable {st st' : Stores} {s : Scheduler} {ticks : UInt64} {call : Nat} {cmd : ClientCommand}
  {req : Request} {out : Reply}

/-- A command that returns was stopped for want of a channel or has been served. -/
theorem command_some (hreq : cmd.request = .ok req)
    (h : st.command s ticks call cmd = some (st', out)) :
    (st' = st ∧ out = .fail req.svc.noChannel) ∨
      ∃ slot replies reply, s.shellChannel req.svc = some (some slot) ∧
        st.round req.svc s ticks (call + 1) (req.message call slot) = some (st', replies) ∧
        replies.head? = some reply ∧ cmd.report (padPayload reply) = some out := by
  unfold command at h
  rw [hreq] at h
  simp only at h
  obtain ⟨channel, hchannel, h⟩ := Option.bind_eq_some_iff.mp h
  cases channel with
  | none =>
    cases h
    exact .inl ⟨rfl, rfl⟩
  | some slot =>
    obtain ⟨⟨st₁, replies⟩, hround, h⟩ := Option.bind_eq_some_iff.mp h
    obtain ⟨reply, hreply, h⟩ := Option.bind_eq_some_iff.mp h
    obtain ⟨out', hout, h⟩ := Option.bind_eq_some_iff.mp h
    cases h
    exact .inr ⟨slot, replies, reply, hchannel, hround, hreply, hout⟩

/-- A command that reports success has been served. -/
theorem command_ok {text : String} (h : st.command s ticks call cmd = some (st', .ok text)) :
    ∃ req slot replies reply, cmd.request = .ok req ∧
      st.round req.svc s ticks (call + 1) (req.message call slot) = some (st', replies) ∧
      replies.head? = some reply ∧ cmd.report (padPayload reply) = some (.ok text) := by
  cases hreq : cmd.request with
  | error refusal =>
    rw [command, hreq] at h
    cases h
    cases ClientCommand.request_error hreq
  | ok req =>
    rcases command_some hreq h with ⟨_, hout⟩ | ⟨slot, replies, reply, _, hserved⟩
    · cases hout
    · exact ⟨req, slot, replies, reply, rfl, hserved⟩

theorem command_of_round {slot : Fin maxCaps} {replies : List (List UInt8)} {reply : List UInt8}
    (hreq : cmd.request = .ok req) (hchannel : s.shellChannel req.svc = some (some slot))
    (hround : st.round req.svc s ticks (call + 1) (req.message call slot) = some (st', replies))
    (hreply : replies.head? = some reply) (hout : cmd.report (padPayload reply) = some out) :
    st.command s ticks call cmd = some (st', out) := by
  rw [command, hreq]
  simp only
  rw [hchannel, Option.bind_eq_bind, Option.bind_some]
  simp only
  rw [hround, Option.bind_eq_bind, Option.bind_some, hreply, Option.bind_eq_bind,
    Option.bind_some, hout]
  rfl

/-- Only a service that is there answers. -/
theorem round_serving {svc : Service} {msg : Message} {replies : List (List UInt8)} (hsvc : svc ≠ .sync)
    (h : st.round svc s ticks call msg = some (st', replies)) : s.Serving svc := by
  cases svc with
  | sync => exact absurd rfl hsvc
  | kv | log | fs | device =>
    obtain ⟨out, hout, _⟩ := Option.map_eq_some_iff.mp h
    obtain ⟨a, _, hanswer⟩ := Option.bind_eq_some_iff.mp hout
    exact Scheduler.answer_serving hanswer

theorem Sound.command (h : st.Sound) (hcmd : st.command s ticks call cmd = some (st', out)) :
    st'.Sound := by
  cases hreq : cmd.request with
  | error refusal =>
    rw [Stores.command, hreq] at hcmd
    cases hcmd
    exact h
  | ok req =>
    obtain ⟨hfits, hsvc⟩ := ClientCommand.request_fits hreq
    rcases command_some hreq hcmd with ⟨rfl, _⟩ | ⟨slot, replies, reply, _, hround, _⟩
    · exact h
    · have hmsg : (req.message call slot).Deliverable := ⟨shell_lt, hfits⟩
      have hstep : StoresStep st (.request req.svc s ticks (call + 1) (req.message call slot)) st' :=
        ⟨round_serving hsvc hround, hmsg, replies, hround⟩
      exact h.step hstep

end Stores

/-- The console can reach a service: the service's slot is occupied and the shell
has a channel to it. -/
def Scheduler.Reaches (s : Scheduler) (svc : Service) : Prop :=
  s.Serving svc ∧ ∃ slot, s.shellChannel svc = some (some slot)

theorem replyByte_pad (x : UInt8) (l : List UInt8) : replyByte (padPayload (x :: l)) 0 = x := by
  simp [replyByte, padPayload]

def Scheduler.FsMay (s : Scheduler) (write : Bool) : Prop :=
  s.Holds 64 (Capability.permits (Resource.fsFlags 0) write)

section Files
variable {st st' : Stores} {s : Scheduler} {ticks : UInt64} {call : Nat} {cmd : ClientCommand}
  {op : UInt8} {path data : List UInt8} {request : FsRequest} {out : Reply}

theorem fsAsked_step (h : st.Sound) {slot : Fin maxCaps} {replies : List (List UInt8)}
    {reply : List UInt8}
    (hrequest : (fsAsked op path data call slot).fsRequest = some request)
    (hround : st.round .fs s ticks (call + 1) (fsAsked op path data call slot) = some (st', replies))
    (hreply : replies.head? = some reply) :
    st'.fs.Sound ∧ FsTransition s.FsMay st.fs.map (some ⟨consoleKey path, request⟩) st'.fs.map reply := by
  obtain ⟨hsound, htransition⟩ := h.fs.step (Stores.round_fs hround hreply)
  refine ⟨hsound, ?_⟩
  have hmay : FsExchange.May ⟨s, call + 1, fsAsked op path data call slot, reply⟩ = s.FsMay := by
    funext write
    unfold FsExchange.May Scheduler.FsMay
    rw [(fsAsked_fields call slot op path data).2.1]
    rfl
  rw [hmay, fsAsked_call call slot hrequest] at htransition
  exact htransition

/-- A served `fs` command is a transition of the map. -/
theorem fs_command_some (h : st.Sound) (request : FsRequest)
    (hreq : cmd.request = .ok ⟨.fs, .fsOp, fsPayload op 0 path data⟩)
    (hrequest : ∀ slot, (fsAsked op path data call slot).fsRequest = some request)
    (hcmd : st.command s ticks call cmd = some (st', out)) :
    (st' = st ∧ out = .fail "IPC error: NoCapability") ∨
      ∃ reply, st'.fs.Sound ∧
        FsTransition s.FsMay st.fs.map (some ⟨consoleKey path, request⟩) st'.fs.map reply ∧
        cmd.report (padPayload reply) = some out := by
  rcases Stores.command_some hreq hcmd with hno | ⟨slot, replies, reply, _, hround, hreply, hout⟩
  · exact .inl hno
  · obtain ⟨hsound, htransition⟩ := fsAsked_step h (hrequest slot) hround hreply
    exact .inr ⟨reply, hsound, htransition, hout⟩

/-- A console that can reach the service is served. -/
theorem fs_command_served (h : st.Sound) (hs : s.Reaches .fs) (request : FsRequest)
    (hreq : cmd.request = .ok ⟨.fs, .fsOp, fsPayload op 0 path data⟩)
    (hrequest : ∀ slot, (fsAsked op path data call slot).fsRequest = some request)
    (hls : request ≠ .ls) (ticks : UInt64) :
    ∃ st' reply, FsTransition s.FsMay st.fs.map (some ⟨consoleKey path, request⟩) st'.fs.map reply ∧
      ∀ out, cmd.report (padPayload reply) = some out →
        st.command s ticks call cmd = some (st', out) := by
  obtain ⟨hserving, slot, hslot⟩ := hs
  have hcall := fsAsked_call call slot (hrequest slot)
  have hmsg : (fsAsked op path data call slot).Deliverable :=
    ⟨Nat.le_of_ble_eq_true rfl, Nat.le_of_eq (fsAsked_len call slot op path data)⟩
  obtain ⟨st', replies, hround, _⟩ := (h.round hserving hmsg ticks (call + 1)).2
    (fun ⟨c, hc, _, hnameless⟩ => by
      cases hcall.symm.trans hc
      exact hls hnameless.1)
  obtain ⟨reply, hreply⟩ := Stores.round_replies (by decide) hround
  obtain ⟨_, htransition⟩ := fsAsked_step h (hrequest slot) hround hreply
  exact ⟨_, _, htransition, fun out hout => Stores.command_of_round hreq hslot hround hreply hout⟩

theorem fsAsked_mkdir (slot : Fin maxCaps) (path : List UInt8) :
    (fsAsked 0 path [] call slot).fsRequest = some .mkdir := by
  simp [Message.fsRequest, fsAsked_fields call slot 0 path []]

theorem fsAsked_write (slot : Fin maxCaps) (path data : List UInt8) :
    (fsAsked 1 path data call slot).fsRequest = some (.write (some (data.take 94))) := by
  simp [Message.fsRequest, fsAsked_fields call slot 1 path data]

theorem fsAsked_read (slot : Fin maxCaps) (path : List UInt8) :
    (fsAsked 2 path [] call slot).fsRequest = some .read := by
  simp [Message.fsRequest, fsAsked_fields call slot 2 path []]

theorem fsAsked_stat (slot : Fin maxCaps) (path : List UInt8) :
    (fsAsked 5 path [] call slot).fsRequest = some .stat := by
  simp [Message.fsRequest, fsAsked_fields call slot 5 path []]

/-- No file is longer than its buffer. -/
theorem FsStore.Sound.file_length {store : FsStore} (h : store.Sound) {key : FsKey}
    {bytes : List UInt8} (hkey : store.map key = some (.file bytes)) : bytes.length ≤ 94 := by
  obtain ⟨i, _, _, hitem⟩ := (h.map_iff key _).mp hkey
  have hsize := (h.sized i).size
  rw [hitem] at hsize
  change bytes.length = _ at hsize
  rw [hsize]
  exact (h.sized i).data

def fileLine : Option FsItem → Reply
  | some (.file bytes) => .ok (fromUtf8 bytes)
  | _ => .fail "not found"

theorem readReport_file {bytes : List UInt8} (hlen : bytes.length ≤ 94) :
    ClientCommand.readReport (padPayload (0 :: UInt8.ofNat bytes.length :: bytes)) =
      some (.ok (fromUtf8 bytes)) := by
  have hb : Lib.Begins (padPayload (0 :: UInt8.ofNat bytes.length :: bytes))
      (0 :: UInt8.ofNat bytes.length :: bytes) := padPayload_begins (by simp; omega)
  have hcount : Lib.Begins (padPayload (0 :: UInt8.ofNat bytes.length :: bytes))
      ([0] ++ UInt8.ofNat bytes.length :: bytes) := hb
  have hfield : Lib.Begins (padPayload (0 :: UInt8.ofNat bytes.length :: bytes))
      ([0, UInt8.ofNat bytes.length] ++ bytes ++ []) := by
    rw [List.append_nil]
    exact hb
  have hone : (replyByte (padPayload (0 :: UInt8.ofNat bytes.length :: bytes)) 1).toNat = bytes.length := by
    have hget := hcount.getElem? (i := 1) rfl (by decide)
    rw [replyByte, hget, Option.getD_some, UInt8.toNat_ofNat']
    omega
  have hslice : Lib.slice (padPayload (0 :: UInt8.ofNat bytes.length :: bytes)) 2
      (2 + bytes.length) = some bytes := hfield.slice rfl rfl (by omega)
  rw [ClientCommand.readReport, if_pos (replyByte_pad 0 _), hone, hslice]
  rfl

theorem fsRead_shows (h : st.Sound) (hs : s.Reaches .fs) (hmay : s.FsMay false) (hpath : path ≠ [])
    (ticks : UInt64) (call : Nat) : ∃ st', st.command s ticks call (.fsRead path) =
      some (st', fileLine (st.fs.map (consoleKey path))) := by
  have hreq : (ClientCommand.fsRead path).request = .ok ⟨.fs, .fsOp, fsPayload 2 0 path []⟩ :=
    if_neg (by simpa using hpath)
  obtain ⟨st', reply, htransition, hcommand⟩ := fs_command_served h hs .read hreq
    (fun slot => fsAsked_read slot path) (by decide) ticks
  refine ⟨st', hcommand _ ?_⟩
  generalize st'.fs.map = m' at htransition
  cases htransition with
  | denied hno => exact absurd hmay hno
  | found _ hkey =>
    rw [hkey]
    exact readReport_file (h.fs.file_length hkey)
  | noFile _ hkey =>
    have hline : fileLine (st.fs.map (consoleKey path)) = .fail "not found" := by
      unfold fileLine
      split
      · rename_i bytes hfile
        exact absurd hfile (hkey bytes)
      · rfl
    rw [hline]
    rfl
  | full _ hnew => rcases hnew with hnew | ⟨_, hnew⟩ <;> cases hnew
  | notThere _ hreq => rcases hreq with hreq | hreq <;> cases hreq

def itemLine : Option FsItem → Reply
  | some item =>
    let kind := if item.isDir then "Directory" else "File"
    let size := item.size
    .ok s!"Type: {kind}, Size: {size} bytes, Mount: {0}"
  | none => .fail "not found"

theorem FsStore.Sound.item_size {store : FsStore} (h : store.Sound) {key : FsKey} {item : FsItem}
    (hkey : store.map key = some item) : item.size ≤ 94 := by
  cases item with
  | dir => exact Nat.zero_le _
  | file bytes => exact h.file_length hkey

theorem statReport_item (item : FsItem) (hsize : item.size ≤ 94) :
    ClientCommand.statReport (padPayload
      ([0, if item.isDir then 1 else 0] ++ Lib.leBytes 8 item.size ++ [0])) =
      some (itemLine (some item)) := by
  generalize hreply : [0, if item.isDir then 1 else 0] ++ Lib.leBytes 8 item.size ++ [0] = reply
  have hlen : reply.length ≤ 128 := by
    rw [← hreply]
    simp
  have hb := padPayload_begins hlen
  have hzero : replyByte (padPayload reply) 0 = 0 := by
    have hcut : Lib.Begins (padPayload reply) ([] ++ 0 :: ((if item.isDir then 1 else 0) ::
        Lib.leBytes 8 item.size ++ [0])) := by
      rw [← hreply] at hb ⊢
      exact hb
    rw [replyByte, hcut.getElem? (i := 0) rfl (by decide), Option.getD_some]
  have hone : replyByte (padPayload reply) 1 = if item.isDir then 1 else 0 := by
    have hcut : Lib.Begins (padPayload reply) ([0] ++ (if item.isDir then 1 else 0) ::
        (Lib.leBytes 8 item.size ++ [0])) := by
      rw [← hreply] at hb ⊢
      exact hb
    rw [replyByte, hcut.getElem? (i := 1) rfl (by decide), Option.getD_some]
  have hten : replyByte (padPayload reply) 10 = 0 := by
    have hcut : Lib.Begins (padPayload reply) (([0, if item.isDir then 1 else 0] ++
        Lib.leBytes 8 item.size) ++ 0 :: []) := by
      rw [← hreply] at hb ⊢
      exact hb
    rw [replyByte, hcut.getElem? (i := 10) (by simp) (by decide), Option.getD_some]
  have hfield : Lib.slice (padPayload reply) 2 10 = some (Lib.leBytes 8 item.size) := by
    rw [← hreply] at hb ⊢
    exact hb.slice rfl (by simp) (by decide)
  have hround := Lib.ofLeBytes_leBytes (k := 8) (x := item.size) (by omega)
  rw [ClientCommand.statReport, if_pos hzero, hfield, Option.bind_eq_bind, Option.bind_some, hround,
    hone, hten]
  cases item with
  | dir => rfl
  | file bytes => rfl

theorem fsStat_shows (h : st.Sound) (hs : s.Reaches .fs) (hmay : s.FsMay false) (hpath : path ≠ [])
    (ticks : UInt64) (call : Nat) : ∃ st', st.command s ticks call (.fsStat path) =
      some (st', itemLine (st.fs.map (consoleKey path))) := by
  have hreq : (ClientCommand.fsStat path).request = .ok ⟨.fs, .fsOp, fsPayload 5 0 path []⟩ :=
    if_neg (by simpa using hpath)
  obtain ⟨st', reply, htransition, hcommand⟩ := fs_command_served h hs .stat hreq
    (fun slot => fsAsked_stat slot path) (by decide) ticks
  refine ⟨st', hcommand _ ?_⟩
  generalize st'.fs.map = m' at htransition
  cases htransition with
  | denied hno => exact absurd hmay hno
  | described _ hkey =>
    rw [hkey]
    exact statReport_item _ (h.fs.item_size hkey)
  | notThere _ _ hkey =>
    rw [hkey]
    rfl
  | full _ hnew => rcases hnew with hnew | ⟨_, hnew⟩ <;> cases hnew

/-- A write that is reported as done has put the first 94 bytes of its data there. -/
theorem fsWrite_stored (h : st.Sound)
    (hcmd : st.command s ticks call (.fsWrite path data) = some (st', .ok "file written")) :
    st'.fs.map = Function.update st.fs.map (consoleKey path) (some (.file (data.take 94))) := by
  obtain ⟨req, slot, replies, reply, hreq, hround, hreply, hout⟩ := Stores.command_ok hcmd
  have hasked : req = ⟨.fs, .fsOp, fsPayload 1 0 path data⟩ := by
    simp only [ClientCommand.request] at hreq
    split at hreq
    · cases hreq
    · exact (Except.ok.inj hreq).symm
  subst hasked
  have htransition := (fsAsked_step h (fsAsked_write slot path data) hround hreply).2
  generalize st'.fs.map = m' at htransition
  cases htransition with
  | written => rfl
  | denied | full | toDir => cases hout
  | notThere _ hreq => rcases hreq with hreq | hreq <;> cases hreq

/-- An `fs` command touches no other key. -/
theorem fs_command_frame (h : st.Sound) (request : FsRequest)
    (hreq : cmd.request = .ok ⟨.fs, .fsOp, fsPayload op 0 path data⟩)
    (hrequest : ∀ slot, (fsAsked op path data call slot).fsRequest = some request)
    (hcmd : st.command s ticks call cmd = some (st', out)) {key : FsKey} (hne : consoleKey path ≠ key) :
    st'.fs.map key = st.fs.map key := by
  rcases fs_command_some h request hreq hrequest hcmd with ⟨rfl, _⟩ | ⟨reply, _, htransition, _⟩
  · rfl
  · by_contra hchanged
    obtain ⟨c, hc, hkey, _⟩ := htransition.changed hchanged
    cases hc
    exact hne hkey

theorem fsWrite_frame (h : st.Sound)
    (hcmd : st.command s ticks call (.fsWrite path data) = some (st', out)) {key : FsKey}
    (hne : consoleKey path ≠ key) : st'.fs.map key = st.fs.map key := by
  by_cases hempty : path.isEmpty || data.isEmpty
  · have hreq : (ClientCommand.fsWrite path data).request =
        .error (.fail "Usage: fs write <path> <text>") := if_pos hempty
    rw [Stores.command, hreq] at hcmd
    cases hcmd
    rfl
  · have hreq : (ClientCommand.fsWrite path data).request =
        .ok ⟨.fs, .fsOp, fsPayload 1 0 path data⟩ := if_neg hempty
    exact fs_command_frame h (.write (some (data.take 94))) hreq
      (fun slot => fsAsked_write slot path data) hcmd hne

theorem fsMkdir_frame (h : st.Sound)
    (hcmd : st.command s ticks call (.fsMkdir path) = some (st', out)) {key : FsKey}
    (hne : consoleKey path ≠ key) : st'.fs.map key = st.fs.map key := by
  by_cases hempty : path.isEmpty
  · have hreq : (ClientCommand.fsMkdir path).request = .error (.fail "Usage: fs mkdir <path>") :=
      if_pos hempty
    rw [Stores.command, hreq] at hcmd
    cases hcmd
    rfl
  · have hreq : (ClientCommand.fsMkdir path).request = .ok ⟨.fs, .fsOp, fsPayload 0 0 path []⟩ :=
      if_neg hempty
    exact fs_command_frame h .mkdir hreq (fun slot => fsAsked_mkdir slot path) hcmd hne

end Files

section Slots
variable {st st' : Stores} {s : Scheduler} {ticks : UInt64} {call : Nat} {tok2 tok3 : List UInt8}
  {out : Reply} {i : Fin kvSlots}

/-- A set that is reported as done has put both operands into the slot, as far as
they fit. -/
theorem kvSet_stored (hi : ClientCommand.kvSlot tok2 = .ok i) {text : String}
    (hcmd : st.command s ticks call (.kvSet tok2 tok3) = some (st', .ok text)) :
    (st'.kv.slots i).key.toList = clip 16 (firstWord tok3) ∧
      (st'.kv.slots i).value.toList = clip 64 (afterWord tok3) := by
  obtain ⟨req, slot, replies, reply, hreq, hround, hreply, hout⟩ := Stores.command_ok hcmd
  obtain ⟨n, hn, rfl⟩ := ClientCommand.kvSet_request hreq
  cases hi.symm.trans hn
  obtain ⟨hcall, hkey, hvalue⟩ :=
    kvSetAsked_fields call slot i (firstWord tok3) (afterWord tok3)
  obtain ⟨a, ha, hstore, hbytes⟩ := Stores.round_kv hround hreply
  have hmain : kvService s st.kv (kvSetAsked i (firstWord tok3) (afterWord tok3) call slot) = some a :=
    ha
  rw [kvService_eq, hcall] at hmain
  simp only at hmain
  split at hmain
  · obtain ⟨entry, hset, hk, hv⟩ := st.kv.set_spec i
      (kvSetAsked i (firstWord tok3) (afterWord tok3) call slot)
    cases hset.symm.trans hmain
    have hentry : (Answer.status (st.kv.put i entry) 0).store.slots i = entry := by
      simp [Answer.status, KvStore.put]
    rw [← hstore, hentry]
    exact ⟨Option.some.inj (hk.symm.trans hkey), Option.some.inj (hv.symm.trans hvalue)⟩
  · cases hmain
    cases hbytes.symm.trans (Answer.bytes_status st.kv 1)
    simp only [ClientCommand.report, hi] at hout
    cases hout

theorem kvGet_report (hi : ClientCommand.kvSlot tok2 = .ok i) {key value : List UInt8}
    (hk : key.length = 16) (hv : value.length = 64) :
    (ClientCommand.kvGet tok2).report (padPayload ([0] ++ key ++ value)) =
      some (.ok (ClientCommand.getLine i (key.takeWhile (fun b => b ≠ 0))
        (value.takeWhile (fun b => b ≠ 0)))) := by
  have hb : Lib.Begins (padPayload ([0] ++ key ++ value)) ([0] ++ key ++ value) :=
    padPayload_begins (by simp [hk, hv])
  have hb' : Lib.Begins (padPayload ([0] ++ key ++ value)) (([0] ++ key) ++ value ++ []) := by
    rwa [List.append_nil]
  have hkey : Lib.slice (padPayload ([0] ++ key ++ value)) 1 17 = some key :=
    hb.slice rfl (by simp [hk]) (by decide)
  have hvalue : Lib.slice (padPayload ([0] ++ key ++ value)) 17 81 = some value :=
    hb'.slice (by simp [hk]) (by simp [hk, hv]) (by decide)
  have hzero : replyByte (padPayload ([0] ++ key ++ value)) 0 = 0 := replyByte_pad 0 _
  simp only [ClientCommand.report, hi, ClientCommand.kvReport, hzero, ClientCommand.gotLine, hkey,
    hvalue]
  rfl

/-- What `kv get` prints for a slot. -/
theorem kvGet_shows (hi : ClientCommand.kvSlot tok2 = .ok i) (h : st.Sound) (hs : s.Reaches .kv)
    (hmay : s.checkSenderCap 64 i false = true) (ticks : UInt64) (call : Nat) :
    ∃ st', st.command s ticks call (.kvGet tok2) = some (st', .ok (ClientCommand.getLine i
      ((st.kv.slots i).key.toList.takeWhile (fun b => b ≠ 0))
      ((st.kv.slots i).value.toList.takeWhile (fun b => b ≠ 0)))) := by
  obtain ⟨hserving, slot, hslot⟩ := hs
  have hreq : (ClientCommand.kvGet tok2).request = .ok ⟨.kv, .kvGet, [UInt8.ofNat i]⟩ := by
    simp only [ClientCommand.request, hi]
    rfl
  have hmsg : (kvGetAsked i call slot).Deliverable := ⟨shell_lt, Nat.le_of_ble_eq_true rfl⟩
  obtain ⟨st', replies, hround, _⟩ := (h.round hserving hmsg ticks (call + 1)).2 id
  obtain ⟨reply, hreply⟩ := Stores.round_replies (show Service.kv ≠ .sync by decide) hround
  obtain ⟨a, ha, _, hbytes⟩ := Stores.round_kv hround hreply
  refine ⟨st', Stores.command_of_round hreq hslot hround hreply ?_⟩
  have hread : st.kv.get i = some a := by
    have hyes : s.checkSenderCap (kvGetAsked i call slot).sender i false = true := hmay
    rw [kvService_eq, kvGetAsked_call call slot] at ha
    simp only at ha
    rwa [if_pos hyes, if_neg Bool.false_ne_true] at ha
  obtain ⟨buffer, hget, hbegins⟩ := st.kv.get_spec i
  cases hget.symm.trans hread
  cases hbytes.symm.trans (Answer.bytes_of_begins hbegins (by simp) (by decide))
  exact kvGet_report hi (by simp) (by simp)

end Slots

section Entries
variable {st st' : Stores} {s : Scheduler} {ticks : UInt64} {call : Nat} {tok2 tok3 : List UInt8}
  {kind : Nat}

def LogState.Keeps (pos : Nat) (entry : LogEntry) (state : LogState) : Prop :=
  pos < state.log.writePos ∧ (state.log.writePos ≤ pos + logCapacity →
    state.log.buffer (Fin.ofNat logCapacity pos) = entry)

theorem LogState.keeps_append (state : LogState) (entry : LogEntry) :
    (state.append entry).Keeps state.log.writePos entry :=
  ⟨Nat.lt_succ_self _, fun _ => Function.update_self _ _ _⟩

/-- A publication that is reported as done is in the ring, as far as the message
fits. -/
theorem logPublish_stored (hkind : ClientCommand.logKind tok2 = .ok kind) {text : String}
    (hcmd : st.command s ticks call (.logPublish tok2 tok3) = some (st', .ok text)) :
    ∃ entry, st'.log.Keeps st.log.log.writePos entry ∧ entry.len ≤ 64 ∧
      entry.record = ⟨ticks.toNat, 64, UInt8.ofNat kind, tok3.take 64⟩ := by
  obtain ⟨req, slot, replies, reply, hreq, hround, hreply, hout⟩ := Stores.command_ok hcmd
  obtain ⟨n, hn, rfl⟩ := ClientCommand.logPublish_request hreq
  cases hkind.symm.trans hn
  obtain ⟨hasks, hrecord⟩ := logPublishAsked_fields call slot
    (ClientCommand.logKind_lt hkind) tok3 ticks
  have heffect := (Stores.round_log hround hreply).effect
  change LogEffect s ticks st.log (logPublishAsked kind tok3 call slot) st'.log reply at heffect
  generalize hnew : st'.log = log' at heffect
  cases heffect with
  | refused hcode =>
    simp only [ClientCommand.report, hkind, ClientCommand.publishReport, replyByte_pad] at hout
    split at hout
    · rename_i hzero
      exact absurd (UInt8.toNat_inj.mp hzero) hcode
    · cases hout
    · cases hout
  | published _ _ made =>
    obtain ⟨entry', hmade, hsays, hlen⟩ :=
      publishedEntry_spec ticks (logPublishAsked kind tok3 call slot)
    cases hmade.symm.trans made
    exact ⟨_, LogState.keeps_append _ _, hlen, hsays.trans hrecord⟩
  | found asks => cases hasks.1.symm.trans asks.1
  | empty asks => cases hasks.1.symm.trans asks.1

theorem Message.LogAsks.not_publish {msg : Message} {kind : UInt8} (h : msg.LogAsks .logRead kind)
    (kind' : UInt8) : msg.logCall ≠ .ok (kind', true) := by
  unfold Message.logCall
  rw [h.1]
  dsimp only
  split
  · nofun
  · split
    · nofun
    · nofun

/-- What `log read` prints for the entry it finds. -/
theorem logRead_shows (hkind : ClientCommand.logKind tok2 = .ok kind) (h : st.Sound)
    (hs : s.Reaches .log) (hmay : s.checkLogSenderCap 64 (UInt8.ofNat kind) false = true)
    {pos : Nat} {entry : LogEntry} (hnext : st.log.next shellTask (UInt8.ofNat kind) = some (pos, entry))
    (hproducer : entry.producer < 2 ^ 64) (hlen : entry.len ≤ 64) (ticks : UInt64) (call : Nat) :
    ∃ st', st.command s ticks call (.logRead tok2) =
      some (st', .ok (ClientCommand.entryLine kind entry.record)) := by
  obtain ⟨hserving, slot, hslot⟩ := hs
  have hreq : (ClientCommand.logRead tok2).request = .ok ⟨.log, .logRead, [UInt8.ofNat kind]⟩ := by
    simp only [ClientCommand.request, hkind]
    rfl
  have hasks := logReadAsked_asks call slot (ClientCommand.logKind_lt hkind)
  have hmsg : (logReadAsked kind call slot).Deliverable := ⟨shell_lt, Nat.le_of_ble_eq_true rfl⟩
  have hnot : ¬ st.Fatal .log s (logReadAsked kind call slot) := by
    rintro ⟨kind', hcall, _⟩
    exact hasks.not_publish kind' hcall
  obtain ⟨st', replies, hround, _⟩ := (h.round hserving hmsg ticks (call + 1)).2 hnot
  obtain ⟨reply, hreply⟩ := Stores.round_replies (show Service.log ≠ .sync by decide) hround
  refine ⟨st', Stores.command_of_round hreq hslot hround hreply ?_⟩
  have heffect := (Stores.round_log hround hreply).effect
  change LogEffect s ticks st.log (logReadAsked kind call slot) st'.log reply at heffect
  generalize st'.log = log' at heffect
  cases heffect with
  | refused _ hno => exact absurd ⟨_, .inr ⟨hasks, hmay⟩⟩ hno
  | published asks => cases hasks.1.symm.trans asks.1
  | @found kind' idx entry' r asks _ reader next =>
    obtain rfl : r = shellTask := Fin.ext reader.symm
    cases hasks.2.2.1.symm.trans asks.2.2.1
    cases hnext.symm.trans next
    have hdecode := decode_encoding
      (padPayload_begins (l := entry.encoding) (by rw [entry.length_encoding]; decide)) hproducer hlen
    have hzero : replyByte (padPayload entry.encoding) 0 = 0 := replyByte_pad 0 _
    simp only [ClientCommand.report, hkind, ClientCommand.logReadReport, hzero, hdecode]
    rfl
  | @empty kind' r asks _ reader next =>
    obtain rfl : r = shellTask := Fin.ext reader.symm
    cases hasks.2.2.1.symm.trans asks.2.2.1
    cases hnext.symm.trans next

end Entries

end Runix
