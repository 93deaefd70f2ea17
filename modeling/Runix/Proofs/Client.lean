import Runix.Client
import Runix.Proofs.ServiceSafety

namespace Runix

theorem utf8EncodeChar_ascii {b : UInt8} (h : b.toNat < 128) :
    String.utf8EncodeChar (Char.ofNat b.toNat) = [b] := by
  have hvalid : b.toNat.isValidChar := .inl (by omega)
  have hval : (Char.ofNat b.toNat).val.toNat = b.toNat := by
    rw [Char.ofNat, dif_pos hvalid]
    rfl
  unfold String.utf8EncodeChar
  simp only [hval]
  rw [if_pos (by omega), UInt8.ofNat_toNat]

theorem utf8Encode_ascii {bytes : List UInt8} (h : ∀ b ∈ bytes, b.toNat < 128) :
    (bytes.map (fun b => Char.ofNat b.toNat)).utf8Encode = ⟨bytes.toArray⟩ := by
  have hflat : (bytes.map (fun b => Char.ofNat b.toNat)).flatMap String.utf8EncodeChar = bytes := by
    induction bytes with
    | nil => rfl
    | cons b bytes ih =>
      rw [List.map_cons, List.flatMap_cons, utf8EncodeChar_ascii (h b List.mem_cons_self),
        ih (fun x hx => h x (List.mem_cons_of_mem _ hx))]
      rfl
  apply ByteArray.ext
  rw [List.utf8Encode, hflat, List.data_toByteArray]

def Printable (line : List UInt8) : Prop := ∀ b ∈ line, 32 ≤ b.toNat ∧ b.toNat ≤ 126

namespace Printable
variable {line : List UInt8}

theorem sublist (h : Printable line) {part : List UInt8} (hpart : part.Sublist line) :
    Printable part := fun b hb => h b (hpart.subset hb)

theorem take (h : Printable line) (n : Nat) : Printable (line.take n) :=
  h.sublist (List.take_sublist n line)

/-- A printable text has as many characters as bytes. -/
theorem length (h : Printable line) : (fromUtf8 line).length = line.length := by
  have hchars := utf8Encode_ascii (fun b hb => Nat.lt_of_le_of_lt (h b hb).2 (by decide))
  have hsome : fromUtf8 line = String.ofList (line.map (fun b => Char.ofNat b.toNat)) := by
    unfold fromUtf8 String.fromUTF8?
    rw [dif_pos (by rw [← hchars]; exact ByteArray.isValidUTF8_utf8Encode), Option.getD_some]
    exact String.toByteArray_inj.mp hchars.symm
  rw [hsome, String.length_ofList, List.length_map]

theorem firstWord (h : Printable line) : Printable (firstWord line) :=
  h.sublist (List.takeWhile_sublist _)

theorem afterWord (h : Printable line) : Printable (afterWord line) :=
  h.sublist ((List.dropWhile_sublist _).trans (List.dropWhile_sublist _))

theorem tokens (h : Printable line) :
    Printable (tokenize line).tok2 ∧ Printable (tokenize line).tok3 := by
  have hrest : Printable (line.dropWhile (fun b => b = 32)) := h.sublist (List.dropWhile_sublist _)
  exact ⟨hrest.afterWord.afterWord.firstWord,
    hrest.afterWord.afterWord.afterWord.sublist (List.rdropWhile_prefix _ _).sublist⟩

end Printable

namespace ClientCommand

def operands : ClientCommand → List (List UInt8)
  | .fsMkdir tok2 | .fsRead tok2 | .fsDelete tok2 | .fsStat tok2 | .kvGet tok2 | .logRead tok2 => [tok2]
  | .fsWrite tok2 tok3 | .kvSet tok2 tok3 | .logPublish tok2 tok3 => [tok2, tok3]

def Typed (cmd : ClientCommand) : Prop :=
  ∃ line, line.length ≤ 128 ∧ Printable line ∧ ofLine line = some cmd

theorem Typed.printable {cmd : ClientCommand} (h : cmd.Typed) : ∀ tok ∈ cmd.operands, Printable tok := by
  obtain ⟨line, _, hline, hcmd⟩ := h
  obtain ⟨htok2, htok3⟩ := hline.tokens
  simp only [ofLine] at hcmd
  repeat' split at hcmd
  all_goals cases hcmd <;> simp [operands, htok2, htok3]

end ClientCommand

section Fields
variable {bytes : List UInt8} {n : Nat}

@[simp] theorem length_clip (n : Nat) (bytes : List UInt8) : (clip n bytes).length = n := by
  simp [clip]
  omega

/-- A reader that stops at the first zero gets what was copied. -/
theorem takeWhile_clip (h : Printable bytes) (n : Nat) :
    (clip n bytes).takeWhile (fun b => b ≠ 0) = bytes.take n := by
  have hall : ∀ b ∈ bytes.take n, (decide (b ≠ 0)) = true := by
    intro b hb
    have hlow := (h.take n b hb).1
    rw [decide_eq_true_eq]
    rintro rfl
    exact absurd hlow (by decide)
  unfold clip
  rw [List.takeWhile_append_of_pos hall]
  cases n - bytes.length with
  | zero => simp
  | succ k => simp [List.replicate_succ]

end Fields

section Requests
variable (call : Nat) (slot : Fin maxCaps)

theorem Request.message_begins {req : Request} (h : req.payload.length ≤ 128) :
    Lib.Begins (req.message call slot).payload req.payload := padPayload_begins h

theorem Message.byte_of_begins {msg : Message} {pre post : List UInt8} {x : UInt8}
    (h : Lib.Begins msg.payload (pre ++ x :: post)) (i : Nat) (hi : i = pre.length) (hn : i < 128) :
    msg.byte i = x := by
  rw [Message.byte, h.getElem? hi hn, Option.getD_some]

theorem length_fsPayload (op mount : UInt8) (path data : List UInt8) :
    (fsPayload op mount path data).length = 128 := by
  simp [fsPayload]

def fsAsked (op : UInt8) (path data : List UInt8) (call : Nat) (slot : Fin maxCaps) : Message :=
  Request.message ⟨.fs, .fsOp, fsPayload op 0 path data⟩ call slot

theorem fsAsked_len (op : UInt8) (path data : List UInt8) : (fsAsked op path data call slot).len = 128 :=
  length_fsPayload op 0 path data

/-- The service reads the fields back, and in them what fitted. -/
theorem fsAsked_fields (op : UInt8) (path data : List UInt8) :
    (fsAsked op path data call slot).byte 0 = op ∧ (fsAsked op path data call slot).byte 1 = 0 ∧
    (fsAsked op path data call slot).fsPath = some (path.take 30) ∧
    (fsAsked op path data call slot).fsData = some (data.take 94) := by
  have hlen := fsAsked_len call slot op path data
  have hbegins : Lib.Begins (fsAsked op path data call slot).payload (fsPayload op 0 path data) :=
    Request.message_begins call slot (by rw [length_fsPayload])
  generalize hm : fsAsked op path data call slot = msg at hlen hbegins
  have htag : msg.tag = .fsOp := by
    subst hm
    rfl
  have h₀ : msg.byte 0 = op := by
    have hb : Lib.Begins msg.payload ([] ++ op :: ([0, UInt8.ofNat (min path.length 30)] ++
        clip 30 path ++ [UInt8.ofNat (min data.length 94)] ++ clip 94 data)) := hbegins
    exact Message.byte_of_begins hb 0 rfl (by decide)
  have h₁ : msg.byte 1 = 0 := by
    have hb : Lib.Begins msg.payload ([op] ++ 0 :: ([UInt8.ofNat (min path.length 30)] ++
        clip 30 path ++ [UInt8.ofNat (min data.length 94)] ++ clip 94 data)) := hbegins
    exact Message.byte_of_begins hb 1 rfl (by decide)
  have hname : (msg.byte 2).toNat = min path.length 30 := by
    have hb : Lib.Begins msg.payload ([op, 0] ++ UInt8.ofNat (min path.length 30) ::
        (clip 30 path ++ [UInt8.ofNat (min data.length 94)] ++ clip 94 data)) := hbegins
    rw [Message.byte_of_begins hb 2 rfl (by decide), UInt8.toNat_ofNat']
    omega
  have hsize : (msg.byte 33).toNat = min data.length 94 := by
    have hb : Lib.Begins msg.payload (([op, 0, UInt8.ofNat (min path.length 30)] ++ clip 30 path) ++
        UInt8.ofNat (min data.length 94) :: clip 94 data) := by
      simpa [fsPayload] using hbegins
    rw [Message.byte_of_begins hb 33 (by simp) (by decide), UInt8.toNat_ofNat']
    omega
  refine ⟨h₀, h₁, ?_, ?_⟩
  · have hb : Lib.Begins msg.payload ([op, 0, UInt8.ofNat (min path.length 30)] ++ path.take 30 ++
        (List.replicate (30 - path.length) 0 ++ [UInt8.ofNat (min data.length 94)] ++
          clip 94 data)) := by
      simpa [fsPayload, clip] using hbegins
    rw [Message.fsPath, if_pos ⟨htag, by omega, by omega, by omega⟩, hname]
    exact hb.slice rfl (by simp [Nat.min_comm]) (by omega)
  · have hb : Lib.Begins msg.payload (([op, 0, UInt8.ofNat (min path.length 30)] ++ clip 30 path ++
        [UInt8.ofNat (min data.length 94)]) ++ data.take 94 ++
          List.replicate (94 - data.length) 0) := by
      simpa [fsPayload, clip] using hbegins
    rw [Message.fsData, if_pos ⟨by omega, by omega⟩, hsize]
    exact hb.slice (by simp) (by simp [Nat.min_comm]) (by omega)

def consoleKey (path : List UInt8) : FsKey := (0, path.take 30)

theorem fsAsked_call {op : UInt8} {path data : List UInt8} {request : FsRequest}
    (h : (fsAsked op path data call slot).fsRequest = some request) :
    (fsAsked op path data call slot).fsCall = some ⟨consoleKey path, request⟩ := by
  obtain ⟨_, hmount, hpath, _⟩ := fsAsked_fields call slot op path data
  rw [Message.fsCall, hpath, Option.bind_eq_bind, Option.bind_some, h, Option.bind_eq_bind,
    Option.bind_some, hmount]
  rfl

def Unfit (tok : List UInt8) (ok : Nat → Prop) : Prop := ∀ n, parseUsize tok = some n → ¬ ok n

theorem unfit_of_none {tok : List UInt8} {ok : Nat → Prop} (h : parseUsize tok = none) :
    Unfit tok ok := by
  intro n hn
  cases h.symm.trans hn

theorem unfit_of_some {tok : List UInt8} {ok : Nat → Prop} {n : Nat} (h : parseUsize tok = some n)
    (hn : ¬ ok n) : Unfit tok ok := by
  intro m hm
  cases h.symm.trans hm
  exact hn

namespace ClientCommand

/-- The check of a number that `kvSlot` and `logKind` share. -/
theorem bounded_cases (tok : List UInt8) (limit : Nat) (text : Nat → String) {r : Except Reply Nat}
    (hr : r = match parseUsize tok with
      | none => .error (.badNumber tok)
      | some n => if n ≥ limit then .error (.fail (text n)) else .ok n) :
    (∃ n, parseUsize tok = some n ∧ n < limit ∧ r = .ok n) ∨
    ∃ refusal, Unfit tok (· < limit) ∧ refusal.isFailure = true ∧ r = .error refusal := by
  subst hr
  cases hparse : parseUsize tok with
  | none => exact .inr ⟨.badNumber tok, unfit_of_none hparse, rfl, rfl⟩
  | some n =>
    by_cases hn : n ≥ limit
    · exact .inr ⟨.fail (text n), unfit_of_some hparse (Nat.not_lt.mpr hn), rfl, if_pos hn⟩
    · exact .inl ⟨n, rfl, Nat.lt_of_not_le hn, if_neg hn⟩

theorem kvSlot_cases (tok2 : List UInt8) :
    (∃ n, parseUsize tok2 = some n ∧ n < 32 ∧ kvSlot tok2 = .ok n) ∨
    ∃ refusal, Unfit tok2 (· < 32) ∧ refusal.isFailure = true ∧ kvSlot tok2 = .error refusal :=
  bounded_cases tok2 32 _ rfl

theorem logKind_cases (tok2 : List UInt8) :
    (∃ n, parseUsize tok2 = some n ∧ n < 16 ∧ logKind tok2 = .ok n) ∨
    ∃ refusal, Unfit tok2 (· < 16) ∧ refusal.isFailure = true ∧ logKind tok2 = .error refusal :=
  bounded_cases tok2 16 _ rfl

theorem kvSlot_ok {tok2 : List UInt8} {i : Nat} (h : kvSlot tok2 = .ok i) :
    parseUsize tok2 = some i ∧ i < 32 := by
  rcases kvSlot_cases tok2 with ⟨n, hparse, hlt, hok⟩ | ⟨_, _, _, herr⟩
  · cases hok.symm.trans h
    exact ⟨hparse, hlt⟩
  · cases herr.symm.trans h

theorem logKind_ok {tok2 : List UInt8} {kind : Nat} (h : logKind tok2 = .ok kind) :
    parseUsize tok2 = some kind ∧ kind < 16 := by
  rcases logKind_cases tok2 with ⟨n, hparse, hlt, hok⟩ | ⟨_, _, _, herr⟩
  · cases hok.symm.trans h
    exact ⟨hparse, hlt⟩
  · cases herr.symm.trans h

theorem logKind_lt {tok2 : List UInt8} {kind : Nat} (h : logKind tok2 = .ok kind) : kind < 16 :=
  (logKind_ok h).2

end ClientCommand

def kvSetAsked (i : Fin kvSlots) (key value : List UInt8) (call : Nat) (slot : Fin maxCaps) : Message :=
  Request.message ⟨.kv, .kvSet, kvSetPayload (UInt8.ofNat i) key value⟩ call slot

def kvGetAsked (i : Fin kvSlots) (call : Nat) (slot : Fin maxCaps) : Message :=
  Request.message ⟨.kv, .kvGet, [UInt8.ofNat i]⟩ call slot

/-- A message whose first byte is a slot number. -/
theorem Message.kvCall_eq {msg : Message} {i : Fin kvSlots} (hbyte : msg.byte 0 = UInt8.ofNat i)
    (write : Bool) (hask : (msg.tag = .kvSet ∧ 81 ≤ msg.len ∧ write = true) ∨
      (msg.tag = .kvGet ∧ 1 ≤ msg.len ∧ write = false)) : msg.kvCall = some (i, write) := by
  have hi : (msg.byte 0).toNat = i := by
    have hlt : i.val < 32 := i.isLt
    rw [hbyte, UInt8.toNat_ofNat']
    omega
  have hlt : (msg.byte 0).toNat < kvSlots := hi ▸ i.isLt
  have hfin : (⟨(msg.byte 0).toNat, hlt⟩ : Fin kvSlots) = i := Fin.ext hi
  rw [Message.kvCall, dif_pos hlt, hfin]
  rcases hask with ⟨htag, hlen, rfl⟩ | ⟨htag, hlen, rfl⟩
  · rw [htag]
    exact if_pos hlen
  · rw [htag]
    exact if_pos hlen

theorem kvSetAsked_fields (i : Fin kvSlots) (key value : List UInt8) :
    (kvSetAsked i key value call slot).kvCall = some (i, true) ∧
    Lib.slice (kvSetAsked i key value call slot).payload 1 17 = some (clip 16 key) ∧
    Lib.slice (kvSetAsked i key value call slot).payload 17 81 = some (clip 64 value) := by
  have hlen : (kvSetPayload (UInt8.ofNat i) key value).length = 81 := by simp [kvSetPayload]
  have hbegins : Lib.Begins (kvSetAsked i key value call slot).payload
      (kvSetPayload (UInt8.ofNat i) key value) := Request.message_begins call slot (by rw [hlen]; decide)
  refine ⟨Message.kvCall_eq ?_ true (.inl ⟨rfl, Nat.le_of_eq hlen.symm, rfl⟩), ?_, ?_⟩
  · have hb : Lib.Begins (kvSetAsked i key value call slot).payload
        ([] ++ UInt8.ofNat i :: (clip 16 key ++ clip 64 value)) := hbegins
    exact Message.byte_of_begins hb 0 rfl (by decide)
  · have hb : Lib.Begins (kvSetAsked i key value call slot).payload
        ([UInt8.ofNat i] ++ clip 16 key ++ clip 64 value) := hbegins
    exact hb.slice rfl (by simp) (by decide)
  · have hb : Lib.Begins (kvSetAsked i key value call slot).payload
        (([UInt8.ofNat i] ++ clip 16 key) ++ clip 64 value ++ []) := by
      rw [List.append_nil]
      exact hbegins
    exact hb.slice (by simp) (by simp) (by decide)

theorem kvGetAsked_call (i : Fin kvSlots) : (kvGetAsked i call slot).kvCall = some (i, false) := by
  have hb : Lib.Begins (kvGetAsked i call slot).payload ([] ++ UInt8.ofNat i :: []) :=
    Request.message_begins call slot (by simp)
  exact Message.kvCall_eq (Message.byte_of_begins hb 0 rfl (by decide)) false
    (.inr ⟨rfl, Nat.le_refl 1, rfl⟩)

def logPublishAsked (kind : Nat) (message : List UInt8) (call : Nat) (slot : Fin maxCaps) : Message :=
  Request.message ⟨.log, .logPublish, logPublishPayload (UInt8.ofNat kind) message⟩ call slot

def logReadAsked (kind : Nat) (call : Nat) (slot : Fin maxCaps) : Message :=
  Request.message ⟨.log, .logRead, [UInt8.ofNat kind]⟩ call slot

theorem logPublishAsked_fields {kind : Nat} (hkind : kind < 16) (message : List UInt8) (ticks : UInt64) :
    (logPublishAsked kind message call slot).LogAsks .logPublish (UInt8.ofNat kind) ∧
    (logPublishAsked kind message call slot).logRecord ticks =
      ⟨ticks.toNat, 64, UInt8.ofNat kind, message.take 64⟩ := by
  have hlen : (logPublishAsked kind message call slot).len = min message.length 64 + 1 := by
    simp [logPublishAsked, Request.message, SendArgs.message, logPublishPayload, Nat.min_comm]
  have hbegins : Lib.Begins (logPublishAsked kind message call slot).payload
      ([UInt8.ofNat kind] ++ message.take 64 ++ []) := by
    rw [List.append_nil]
    exact Request.message_begins call slot (by simp [logPublishPayload])
  have hb : Lib.Begins (logPublishAsked kind message call slot).payload
      ([] ++ UInt8.ofNat kind :: message.take 64) := by
    rwa [List.append_nil] at hbegins
  have hbyte := Message.byte_of_begins hb 0 rfl (by decide)
  have hnat : (UInt8.ofNat kind).toNat < 16 := by
    rw [UInt8.toNat_ofNat']
    omega
  refine ⟨⟨rfl, by omega, hbyte, hnat⟩, ?_⟩
  have hslice : Lib.slice (logPublishAsked kind message call slot).payload 1
      (1 + min message.length 64) = some (message.take 64) :=
    hbegins.slice rfl (by simp [Nat.min_comm]) (by omega)
  rw [Lib.slice_of_le (by omega) (by omega)] at hslice
  rw [Message.logRecord, hbyte, hlen, show min (min message.length 64 + 1 - 1) 64 =
    min message.length 64 by omega, Option.some.inj hslice]
  rfl

theorem logReadAsked_asks {kind : Nat} (hkind : kind < 16) :
    (logReadAsked kind call slot).LogAsks .logRead (UInt8.ofNat kind) := by
  have hb : Lib.Begins (logReadAsked kind call slot).payload ([] ++ UInt8.ofNat kind :: []) :=
    Request.message_begins call slot (by simp)
  refine ⟨rfl, Nat.le_refl 1, Message.byte_of_begins hb 0 rfl (by decide), ?_⟩
  rw [UInt8.toNat_ofNat']
  omega

end Requests

namespace ClientCommand
variable {tok2 tok3 : List UInt8} {cmd : ClientCommand} {req : Request} {refusal : Reply}

/-- A refusal of the operands is reported as a failure. -/
theorem request_error (h : cmd.request = .error refusal) : refusal.isFailure = true := by
  cases cmd with
  | fsMkdir | fsWrite | fsRead | fsDelete | fsStat =>
    simp only [request] at h
    split at h
    · cases h
      rfl
    · cases h
  | kvSet tok2 tok3 =>
    simp only [request] at h
    rcases kvSlot_cases tok2 with ⟨i, _, _, hslot⟩ | ⟨refusal', _, hfail, hslot⟩
    · rw [hslot] at h
      change (if _ then _ else _) = _ at h
      split at h
      · cases h
        rfl
      · split at h
        · cases h
          rfl
        · cases h
    · rw [hslot] at h
      cases h
      exact hfail
  | kvGet tok2 =>
    simp only [request] at h
    rcases kvSlot_cases tok2 with ⟨i, _, _, hslot⟩ | ⟨refusal', _, hfail, hslot⟩
    · rw [hslot] at h
      cases h
    · rw [hslot] at h
      cases h
      exact hfail
  | logPublish tok2 tok3 =>
    simp only [request] at h
    rcases logKind_cases tok2 with ⟨kind, _, _, hkind⟩ | ⟨refusal', _, hfail, hkind⟩
    · rw [hkind] at h
      change (if _ then _ else _) = _ at h
      split at h
      · cases h
        rfl
      · cases h
    · rw [hkind] at h
      cases h
      exact hfail
  | logRead tok2 =>
    simp only [request] at h
    rcases logKind_cases tok2 with ⟨kind, _, _, hkind⟩ | ⟨refusal', _, hfail, hkind⟩
    · rw [hkind] at h
      cases h
    · rw [hkind] at h
      cases h
      exact hfail

theorem kvSet_request (h : (kvSet tok2 tok3).request = .ok req) : ∃ i, kvSlot tok2 = .ok i ∧
    req = ⟨.kv, .kvSet, kvSetPayload (UInt8.ofNat i) (firstWord tok3) (afterWord tok3)⟩ := by
  simp only [request] at h
  cases hslot : kvSlot tok2 with
  | error refusal =>
    rw [hslot] at h
    cases h
  | ok i =>
    rw [hslot] at h
    change (if _ then _ else _) = _ at h
    split at h
    · cases h
    · split at h
      · cases h
      · cases h
        exact ⟨i, rfl, rfl⟩

theorem kvGet_request (h : (kvGet tok2).request = .ok req) : ∃ i, kvSlot tok2 = .ok i ∧
    req = ⟨.kv, .kvGet, [UInt8.ofNat i]⟩ := by
  simp only [request] at h
  cases hslot : kvSlot tok2 with
  | error refusal =>
    rw [hslot] at h
    cases h
  | ok i =>
    rw [hslot] at h
    cases h
    exact ⟨i, rfl, rfl⟩

theorem logPublish_request (h : (logPublish tok2 tok3).request = .ok req) :
    ∃ kind, logKind tok2 = .ok kind ∧
      req = ⟨.log, .logPublish, logPublishPayload (UInt8.ofNat kind) tok3⟩ := by
  simp only [request] at h
  cases hkind : logKind tok2 with
  | error refusal =>
    rw [hkind] at h
    cases h
  | ok kind =>
    rw [hkind] at h
    change (if _ then _ else _) = _ at h
    split at h
    · cases h
    · cases h
      exact ⟨kind, rfl, rfl⟩

theorem logRead_request (h : (logRead tok2).request = .ok req) : ∃ kind, logKind tok2 = .ok kind ∧
    req = ⟨.log, .logRead, [UInt8.ofNat kind]⟩ := by
  simp only [request] at h
  cases hkind : logKind tok2 with
  | error refusal =>
    rw [hkind] at h
    cases h
  | ok kind =>
    rw [hkind] at h
    cases h
    exact ⟨kind, rfl, rfl⟩

/-- Every request fits a message and goes to a service with one reply. -/
theorem request_fits (h : cmd.request = .ok req) : req.payload.length ≤ 128 ∧ req.svc ≠ .sync := by
  cases cmd with
  | fsMkdir | fsWrite | fsRead | fsDelete | fsStat =>
    simp only [request] at h
    split at h
    · cases h
    · cases h
      exact ⟨Nat.le_of_eq (length_fsPayload _ _ _ _), nofun⟩
  | kvSet tok2 tok3 =>
    obtain ⟨i, _, rfl⟩ := kvSet_request h
    exact ⟨by simp [kvSetPayload], nofun⟩
  | kvGet tok2 =>
    obtain ⟨i, _, rfl⟩ := kvGet_request h
    exact ⟨by simp, nofun⟩
  | logPublish tok2 tok3 =>
    obtain ⟨kind, _, rfl⟩ := logPublish_request h
    exact ⟨by simp [logPublishPayload], nofun⟩
  | logRead tok2 =>
    obtain ⟨kind, _, rfl⟩ := logRead_request h
    exact ⟨by simp, nofun⟩

end ClientCommand

end Runix
