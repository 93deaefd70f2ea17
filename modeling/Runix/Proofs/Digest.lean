import Mathlib.Data.Nat.Bitwise
import Runix.Snapshot

namespace Runix

def Message.envelope (m : Message) : TaskId × IpcTag × UInt16 × Vector UInt8 128 × Nat :=
  (m.sender, m.tag, m.version, m.payload, m.len)

structure Capability.Covered (c c' : Capability) : Prop where
  resource : resourceCode c.resource = resourceCode c'.resource
  read : c.read = c'.read
  write : c.write = c'.write
  grant : c.grant = c'.grant
  isSealed : c.isSealed = c'.isSealed
  id : c.id = c'.id
  origin : c.origin = c'.origin

namespace TaskCheckpoint

def SameSlots (cp cp' : TaskCheckpoint) : Prop :=
  ∀ k, (cp.capTable.slots k).isSome = (cp'.capTable.slots k).isSome

structure Covered (cp cp' : TaskCheckpoint) : Prop where
  id : cp.id = cp'.id
  state : stateCode cp.state = stateCode cp'.state
  caps : ∀ k, Option.Rel Capability.Covered (cp.capTable.slots k) (cp'.capTable.slots k)
  buffer : cp.ipcBuffer.map Message.len = cp'.ipcBuffer.map Message.len
  queue : cp.msgQueue.count = cp'.msgQueue.count

structure Agrees (cp cp' : TaskCheckpoint) : Prop where
  state : cp.state = cp'.state
  caps : ∀ k, cp.capTable.slots k = cp'.capTable.slots k
  buffer : cp.ipcBuffer.map Message.envelope = cp'.ipcBuffer.map Message.envelope
  queue : cp.msgQueue.contents.map Message.envelope = cp'.msgQueue.contents.map Message.envelope

/-- No capability, no message, and blocked on a send to a task whose number does
not collide with the code of another state. -/
structure Bare (cp : TaskCheckpoint) : Prop where
  caps : ∀ k, cp.capTable.slots k = none
  buffer : cp.ipcBuffer = none
  queue : cp.msgQueue.count = 0
  state : ∃ t, cp.state = .blockedOnSend t ∧ t ∉ [0x101, 0x102, 0x103, 0x105]

end TaskCheckpoint

def SystemSnapshot.Matches (R : TaskCheckpoint → TaskCheckpoint → Prop) (s s' : SystemSnapshot) :
    Prop :=
  ∀ i, Option.Rel R (s.tasks i) (s'.tasks i)

/-- Concatenations of parts of the same lengths are equal part by part. -/
theorem flatten_map_inj {α β : Type} {l : List α} {f g : α → List β}
    (h : ∀ x ∈ l, (f x).length = (g x).length) :
    (l.map f).flatten = (l.map g).flatten ↔ ∀ x ∈ l, f x = g x := by
  rw [← List.map_inj_left, List.eq_iff_flatten_eq, List.map_map, List.map_map]
  exact (and_iff_left (List.map_congr_left h)).symm

theorem optionCode_inj {o o' : Option Nat} : optionCode o = optionCode o' ↔ o = o' := by
  cases o <;> cases o' <;> simp [optionCode]

/-- The four flags are four bits of one word. -/
theorem rightsCode_inj {c c' : Capability} : c.rightsCode = c'.rightsCode ↔
    c.read = c'.read ∧ c.write = c'.write ∧ c.grant = c'.grant ∧ c.isSealed = c'.isSealed := by
  have hbits : ∀ r w g l r' w' g' l' : Bool,
      r.toNat ||| (w.toNat <<< 1) ||| (g.toNat <<< 2) ||| (l.toNat <<< 3) =
        r'.toNat ||| (w'.toNat <<< 1) ||| (g'.toNat <<< 2) ||| (l'.toNat <<< 3) ↔
      r = r' ∧ w = w' ∧ g = g' ∧ l = l' := by decide
  exact hbits ..

theorem length_capWords {o o' : Option Capability} (h : o.isSome = o'.isSome) :
    (capWords o).length = (capWords o').length := by
  cases o <;> cases o' <;> first | rfl | cases h

theorem capWords_inj {o o' : Option Capability} (h : o.isSome = o'.isSome) :
    capWords o = capWords o' ↔ Option.Rel Capability.Covered o o' := by
  cases o with
  | none =>
    cases o' with
    | none => exact iff_of_true rfl .none
    | some c' => cases h
  | some c =>
    cases o' with
    | none => cases h
    | some c' =>
      simp only [capWords, List.cons.injEq, and_true, rightsCode_inj, optionCode_inj]
      constructor
      · rintro ⟨hres, ⟨hr, hw, hg, hl⟩, hid, ho⟩
        exact .some ⟨hres, hr, hw, hg, hl, hid, ho⟩
      · rintro ⟨h⟩
        exact ⟨h.resource, ⟨h.read, h.write, h.grant, h.isSealed⟩, h.id, h.origin⟩

theorem capWords_flatten_inj {cp cp' : TaskCheckpoint} (h : cp.SameSlots cp') :
    ((List.finRange maxCaps).map (fun k => capWords (cp.capTable.slots k))).flatten =
      ((List.finRange maxCaps).map (fun k => capWords (cp'.capTable.slots k))).flatten ↔
    ∀ k, Option.Rel Capability.Covered (cp.capTable.slots k) (cp'.capTable.slots k) := by
  rw [flatten_map_inj (fun k _ => length_capWords (h k))]
  exact ⟨fun heq k => (capWords_inj (h k)).mp (heq k (List.mem_finRange k)),
    fun hrel k _ => (capWords_inj (h k)).mpr (hrel k)⟩

theorem length_taskWords {cp cp' : TaskCheckpoint} (h : cp.SameSlots cp') :
    (taskWords (some cp)).length = (taskWords (some cp')).length := by
  have hcaps : (List.finRange maxCaps).map (fun k => (capWords (cp.capTable.slots k)).length) =
      (List.finRange maxCaps).map (fun k => (capWords (cp'.capTable.slots k)).length) :=
    List.map_congr_left (fun k _ => length_capWords (h k))
  simp only [taskWords, List.length_append, List.length_flatten, List.map_map, Function.comp_def,
    hcaps, List.length_cons, List.length_nil]

/-- What equal words say about one task. -/
theorem taskWords_inj {cp cp' : TaskCheckpoint} (h : cp.SameSlots cp') :
    taskWords (some cp) = taskWords (some cp') ↔ cp.Covered cp' := by
  have hlen := length_taskWords h
  simp only [taskWords, List.length_append] at hlen
  unfold taskWords
  constructor
  · intro heq
    obtain ⟨hfront, hend⟩ := List.append_inj heq (by simpa using hlen)
    obtain ⟨hhead, hcaps⟩ := List.append_inj hfront rfl
    simp only [List.cons.injEq, and_true, true_and, optionCode_inj] at hhead hend
    exact ⟨hhead.1, hhead.2, (capWords_flatten_inj h).mp hcaps, hend.1, hend.2⟩
  · intro hcov
    simp only [(capWords_flatten_inj h).mpr hcov.caps, hcov.id, hcov.state, hcov.buffer, hcov.queue]

namespace SystemSnapshot
variable {s s' : SystemSnapshot}

/-- What the mixed words determine. -/
theorem words_inj (h : s.Matches TaskCheckpoint.SameSlots s') :
    s.words = s'.words ↔ s.current = s'.current ∧ s.Matches TaskCheckpoint.Covered s' := by
  have hslot : ∀ i, (taskWords (s.tasks i)).length = (taskWords (s'.tasks i)).length ∧
      (taskWords (s.tasks i) = taskWords (s'.tasks i) ↔
        Option.Rel TaskCheckpoint.Covered (s.tasks i) (s'.tasks i)) := by
    intro i
    have hi := h i
    generalize s.tasks i = o, s'.tasks i = o' at hi
    cases hi with
    | none => exact ⟨rfl, iff_of_true rfl .none⟩
    | some hcp =>
      refine ⟨length_taskWords hcp, (taskWords_inj hcp).trans ⟨.some, ?_⟩⟩
      rintro ⟨hcov⟩
      exact hcov
  rw [words, words, List.cons.injEq, optionCode_inj, flatten_map_inj (fun i _ => (hslot i).1)]
  exact and_congr_right (fun _ => ⟨fun heq i => (hslot i).2.mp (heq i (List.mem_finRange i)),
    fun hcov i _ => (hslot i).2.mpr (hcov i)⟩)

end SystemSnapshot

def Resource.forged : Resource → Resource
  | .ipcChannel t => .service (0x3000 ^^^ (0x1000 ^^^ t))
  | r => .ipcChannel (0x1000 ^^^ resourceCode r)

theorem resourceCode_forged (r : Resource) : resourceCode r.forged = resourceCode r := by
  cases r with
  | ipcChannel t => exact Nat.xor_xor_cancel_left ..
  | _ => exact Nat.xor_xor_cancel_left ..

theorem Resource.forged_ne (r : Resource) : r.forged ≠ r := by
  cases r <;> exact Resource.noConfusion

def TaskState.forged : TaskState → TaskState
  | .blockedOnSend t =>
    if t = 0x101 then .ready
    else if t = 0x102 then .running
    else if t = 0x103 then .blockedOnReceive
    else if t = 0x105 then .terminated
    else .blockedOnSend t
  | st => .blockedOnSend (0x100 ^^^ stateCode st)

theorem stateCode_forged (st : TaskState) : stateCode st.forged = stateCode st := by
  cases st with
  | blockedOnSend t =>
    simp only [TaskState.forged]
    split_ifs with h₁ h₂ h₃ h₅
    · rw [h₁]
      rfl
    · rw [h₂]
      rfl
    · rw [h₃]
      rfl
    · rw [h₅]
      rfl
    · rfl
  | _ => rfl

theorem TaskState.forged_eq {st : TaskState} (h : st.forged = st) :
    ∃ t, st = .blockedOnSend t ∧ t ∉ [0x101, 0x102, 0x103, 0x105] := by
  cases st with
  | blockedOnSend t =>
    refine ⟨t, rfl, fun hmem => ?_⟩
    simp only [List.mem_cons, List.not_mem_nil, or_false] at hmem
    rcases hmem with rfl | rfl | rfl | rfl <;> cases h
  | _ => cases h

/-- A state with the code of such a one is that state. -/
theorem stateCode_blockedOnSend {st : TaskState} {t : TaskId}
    (ht : t ∉ [0x101, 0x102, 0x103, 0x105])
    (h : stateCode (.blockedOnSend t) = stateCode st) : TaskState.blockedOnSend t = st := by
  have hcode : ∀ c, 0x100 ^^^ t = c → t = 0x100 ^^^ c := fun c hc => by
    rw [← hc, Nat.xor_xor_cancel_left]
  cases st with
  | blockedOnSend u => rw [(hcode _ h).trans (Nat.xor_xor_cancel_left ..)]
  | _ => exact absurd (hcode _ h) (fun he => ht (by rw [he]; decide))

def Message.forged (m : Message) : Message := { m with sender := m.sender + 1 }

theorem Message.envelope_forged_ne (m : Message) : m.forged.envelope ≠ m.envelope := by
  intro h
  exact Nat.succ_ne_self m.sender (congrArg Prod.fst h)

def TaskCheckpoint.forged (cp : TaskCheckpoint) : TaskCheckpoint where
  id := cp.id
  state := cp.state.forged
  capTable := ⟨fun k => (cp.capTable.slots k).map (fun c => { c with resource := c.resource.forged })⟩
  ipcBuffer := cp.ipcBuffer.map Message.forged
  msgQueue := cp.msgQueue.map Message.forged

namespace TaskCheckpoint
variable {cp cp' : TaskCheckpoint}

theorem sameSlots_forged (cp : TaskCheckpoint) : cp.SameSlots cp.forged := by
  intro k
  exact Option.isSome_map.symm

theorem covered_forged (cp : TaskCheckpoint) : cp.Covered cp.forged where
  id := rfl
  state := (stateCode_forged _).symm
  caps k := by
    change Option.Rel Capability.Covered (cp.capTable.slots k) ((cp.capTable.slots k).map _)
    cases cp.capTable.slots k with
    | none => exact .none
    | some c => exact .some ⟨(resourceCode_forged _).symm, rfl, rfl, rfl, rfl, rfl, rfl⟩
  buffer := by
    unfold forged
    cases cp.ipcBuffer <;> rfl
  queue := rfl

/-- A checkpoint that agrees with its forgery has nothing to forge. -/
theorem Agrees.bare (h : cp.Agrees cp.forged) : cp.Bare where
  caps k := by
    have hk := h.caps k
    simp only [forged] at hk
    cases hc : cp.capTable.slots k with
    | none => rfl
    | some c =>
      rw [hc] at hk
      exact absurd (congrArg (fun o => o.map Capability.resource) hk)
        (fun he => c.resource.forged_ne (Option.some.inj he).symm)
  buffer := by
    have hb := h.buffer
    simp only [forged] at hb
    cases hm : cp.ipcBuffer with
    | none => rfl
    | some m =>
      rw [hm] at hb
      exact absurd (Option.some.inj hb).symm m.envelope_forged_ne
  queue := by
    have hq := h.queue
    simp only [forged, Lib.Ring.contents_map, List.map_map] at hq
    rw [← cp.msgQueue.contents_eq_nil]
    cases hc : cp.msgQueue.contents with
    | nil => rfl
    | cons m ms =>
      rw [hc] at hq
      exact absurd (List.cons.inj hq).1.symm m.envelope_forged_ne
  state := TaskState.forged_eq h.state.symm

/-- Nothing else has the words of a bare checkpoint. -/
theorem Bare.agrees (h : cp.Bare) (hcov : cp.Covered cp') : cp.Agrees cp' where
  state := by
    obtain ⟨t, hst, ht⟩ := h.state
    have hcode := hcov.state
    rw [hst] at hcode ⊢
    exact stateCode_blockedOnSend ht hcode
  caps k := by
    have hk := hcov.caps k
    rw [h.caps k] at hk ⊢
    generalize cp'.capTable.slots k = o at hk
    cases hk
    rfl
  buffer := by
    have hb := hcov.buffer
    rw [h.buffer] at hb ⊢
    rw [Option.map_eq_none_iff.mp hb.symm]
  queue := by
    have hq := hcov.queue
    rw [h.queue] at hq
    rw [cp.msgQueue.contents_eq_nil.mpr h.queue, cp'.msgQueue.contents_eq_nil.mpr hq.symm]

end TaskCheckpoint

namespace SystemSnapshot

def forged (s : SystemSnapshot) : SystemSnapshot :=
  { s with tasks := fun i => (s.tasks i).map TaskCheckpoint.forged }

theorem matches_forged {R : TaskCheckpoint → TaskCheckpoint → Prop} (h : ∀ cp, R cp cp.forged)
    (s : SystemSnapshot) : s.Matches R s.forged := by
  intro i
  change Option.Rel R (s.tasks i) ((s.tasks i).map TaskCheckpoint.forged)
  cases s.tasks i with
  | none => exact .none
  | some cp => exact .some (h cp)

/-- The coverage of the integrity checksum. -/
theorem checksum_coverage (s : SystemSnapshot) :
    (∀ s', s.Matches TaskCheckpoint.SameSlots s' →
      (s.words = s'.words ↔ s.current = s'.current ∧ s.Matches TaskCheckpoint.Covered s')) ∧
    ((∀ s', s.Matches TaskCheckpoint.SameSlots s' → s.words = s'.words →
      s.Matches TaskCheckpoint.Agrees s') ↔
      ∀ i cp, s.tasks i = some cp → cp.Bare) := by
  refine ⟨fun s' h => words_inj h, fun hall i cp hcp => ?_, fun hbare s' hslots hwords i => ?_⟩
  · have hslots := matches_forged TaskCheckpoint.sameSlots_forged s
    have hwords : s.words = s.forged.words :=
      (words_inj hslots).mpr ⟨rfl, matches_forged TaskCheckpoint.covered_forged s⟩
    have hagree := hall s.forged hslots hwords i
    simp only [forged, hcp, Option.map_some] at hagree
    cases hagree with
    | some h => exact h.bare
  · have hcov := ((words_inj hslots).mp hwords).2 i
    have hi := hbare i
    generalize s.tasks i = o, s'.tasks i = o' at hcov hi
    cases hcov with
    | none => exact .none
    | some h => exact .some ((hi _ rfl).agrees h)

end SystemSnapshot

def holding (b : UInt8) : TaskCheckpoint :=
  ⟨0, .ready, CapTable.new, some ⟨1, .raw, 1, padPayload [b], 1, 0, 0⟩, MessageQueue.new⟩

def alone (cp : TaskCheckpoint) : SystemSnapshot :=
  { SystemSnapshot.new with tasks := fun i => if i.val = 0 then some cp else none }

theorem matches_alone {R : TaskCheckpoint → TaskCheckpoint → Prop} {cp cp' : TaskCheckpoint}
    (h : R cp cp') : (alone cp).Matches R (alone cp') := by
  intro i
  unfold alone
  by_cases hi : i.val = 0
  · simp only [hi, if_true]
    exact .some h
  · simp only [hi, if_false]
    exact .none

theorem alone_current (cp : TaskCheckpoint) : (alone cp).current = none := rfl

theorem holding_agrees {b b' : UInt8} (h : (holding b).Agrees (holding b')) : b = b' := by
  have hbuffer := h.buffer
  simp only [holding, Option.map_some, Option.some.injEq, Message.envelope, Prod.mk.injEq, true_and,
    and_true] at hbuffer
  have hbyte := congrArg (fun v : Vector UInt8 128 => v[0]) hbuffer
  simpa [padPayload] using hbyte

theorem holding_covered (b b' : UInt8) : (holding b).Covered (holding b') where
  id := rfl
  state := rfl
  caps _ := .none
  buffer := by simp only [holding, Option.map_some]
  queue := rfl

/-- The byte is altered and the words are the same. -/
theorem payload_not_mixed :
    (alone (holding 1)).Matches TaskCheckpoint.SameSlots (alone (holding 2)) ∧
    (alone (holding 1)).words = (alone (holding 2)).words ∧
    ¬ (alone (holding 1)).Matches TaskCheckpoint.Agrees (alone (holding 2)) := by
  have hslots := matches_alone (show (holding 1).SameSlots (holding 2) from fun _ => rfl)
  have hcurrent := (alone_current (holding 1)).trans (alone_current (holding 2)).symm
  refine ⟨hslots, (SystemSnapshot.words_inj hslots).mpr
    ⟨hcurrent, matches_alone (holding_covered 1 2)⟩, fun h => ?_⟩
  have hag : Option.Rel _ (some (holding 1)) (some (holding 2)) := h ⟨0, by decide⟩
  cases hag with
  | some hag => exact absurd (holding_agrees hag) (by decide)

end Runix
