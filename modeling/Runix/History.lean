import Runix.Client

namespace Runix

structure History where
  buffer : Fin 16 → Vector UInt8 128
  lens : Fin 16 → Nat
  head : Nat
  count : Nat

namespace History

def new : History := ⟨fun _ => Vector.replicate 128 0, fun _ => 0, 0, 0⟩

/-- The command is the one that was entered last; `none` is a panic. -/
def repeats (h : History) (cmd : List UInt8) : Option Bool :=
  if 0 < h.count then do
    let lastIdx := (h.head + 15) % 16
    let lastLen ← Lib.index h.lens lastIdx
    if lastLen = cmd.length then do
      let last ← Lib.slice (← Lib.index h.buffer lastIdx) 0 lastLen
      some (last = cmd)
    else some false
  else some false

/-- `none` is a panic. -/
def push (h : History) (cmd : List UInt8) : Option History :=
  if cmd.isEmpty then some h
  else do
    if ← h.repeats cmd then some h
    else do
      let idx := h.head
      let toCopy := min cmd.length 128
      let entry ← Lib.copySlice (← Lib.index h.buffer idx) 0 toCopy (cmd.take toCopy)
      let buffer ← Lib.assign h.buffer idx entry
      let lens ← Lib.assign h.lens idx toCopy
      some ⟨buffer, lens, (idx + 1) % 16, if h.count < 16 then h.count + 1 else h.count⟩

/-- The outer `none` is a panic. -/
def get (h : History) (stepsBack : Nat) : Option (Option (List UInt8)) :=
  if stepsBack = 0 ∨ stepsBack > h.count then some none
  else do
    let idx := (h.head + 16 - stepsBack) % 16
    let len ← Lib.index h.lens idx
    let cmd ← Lib.slice (← Lib.index h.buffer idx) 0 len
    some (some cmd)

end History

/-- The buffer of `read_line_with_history` and its locals. -/
structure LineEditor (size : Nat) where
  buf : Vector UInt8 size
  n : Nat
  historyTempIdx : Nat
  draftBuf : Vector UInt8 128
  draftLen : Nat

/-- What the bytes read so far have led to. `returned` has the bytes that are left. -/
inductive Reading (size : Nat) where
  | waiting (e : LineEditor size)
  | returned (e : LineEditor size) (rest : List UInt8)

namespace LineEditor
variable {size : Nat}

def start (buf : Vector UInt8 size) : LineEditor size :=
  ⟨buf, 0, 0, Vector.replicate 128 0, 0⟩

def replace (e : LineEditor size) (line : List UInt8) : Option (LineEditor size) :=
  (Lib.copySlice e.buf 0 line.length line).map (fun buf => { e with buf := buf, n := line.length })

def saveDraft (e : LineEditor size) : Option (LineEditor size) := do
  let line ← Lib.slice e.buf 0 e.n
  let draftBuf ← Lib.copySlice e.draftBuf 0 e.n line
  some { e with draftBuf := draftBuf, draftLen := e.n }

def showRecalled (hist : History) (e : LineEditor size) : Option (LineEditor size) := do
  match ← hist.get e.historyTempIdx with
  | some cmd => e.replace cmd
  | none => some e

def up (hist : History) (e : LineEditor size) : Option (LineEditor size) :=
  if 0 < hist.count ∧ e.historyTempIdx < hist.count then
    (if e.historyTempIdx = 0 then e.saveDraft else some e).bind fun e =>
      { e with historyTempIdx := e.historyTempIdx + 1 }.showRecalled hist
  else some e

def down (hist : History) (e : LineEditor size) : Option (LineEditor size) :=
  if 0 < e.historyTempIdx then
    let e := { e with historyTempIdx := e.historyTempIdx - 1 }
    if e.historyTempIdx = 0 then do
      let draft ← Lib.slice e.draftBuf 0 e.draftLen
      e.replace draft
    else e.showRecalled hist
  else some e

def backspace (e : LineEditor size) : LineEditor size :=
  if 0 < e.n then { e with n := e.n - 1 } else e

def insert (e : LineEditor size) (b : UInt8) : Option (LineEditor size) :=
  if e.n < size then
    (Lib.store e.buf e.n b).map (fun buf => { e with buf := buf, n := e.n + 1, historyTempIdx := 0 })
  else some e

/-- The loop over the bytes of the serial line, without the echo; `none` is a panic. -/
def read (hist : History) : List UInt8 → LineEditor size → Option (Reading size)
  | [], e => some (.waiting e)
  | b :: rest, e =>
    if b = 10 ∨ b = 13 then some (.returned e rest)
    else if b = 8 ∨ b = 127 then read hist rest e.backspace
    else if b = 0x1b then
      -- an escape sequence is read to its end before the loop goes on
      match rest with
      | [] => some (.waiting e)
      | next1 :: rest =>
        if next1 = 91 then
          match rest with
          | [] => some (.waiting e)
          | next2 :: rest =>
            if next2 = 65 then (e.up hist).bind fun e => read hist rest e
            else if next2 = 66 then (e.down hist).bind fun e => read hist rest e
            else read hist rest e
        else read hist rest e
    else if 32 ≤ b ∧ b ≤ 126 then (e.insert b).bind fun e => read hist rest e
    else read hist rest e

end LineEditor

/-- `history` -/
def historyWord : List UInt8 := [104, 105, 115, 116, 111, 114, 121]

/-- `trace` -/
def traceWord : List UInt8 := [116, 114, 97, 99, 101]

/-- What `trace` dispatches. The word is taken to be the first five bytes of the line. -/
def subLine (line : List UInt8) : List UInt8 := (line.drop 5).dropWhile (fun b => b = 32)

/-- The call of `dispatch` that `history <n>` and `trace <command>` make: the history
and the line it is made with. The outer `none` is a panic. -/
def redispatch (hist : History) (line : List UInt8) :
    Option (Option (History × List UInt8)) :=
  let t := tokenize line
  if t.tok0 = historyWord then
    if t.tok1.isEmpty then some none
    else
      match parseUsize t.tok1 with
      | none => some none
      | some nIdx =>
        if nIdx ≥ hist.count then some none
        else do
          match ← hist.get (hist.count - nIdx) with
          | none => some none
          | some cmd =>
            let cmdBuf ← Lib.copySlice (Vector.replicate 128 0) 0 cmd.length cmd
            let cmd ← Lib.slice cmdBuf 0 cmd.length
            let hist ← hist.push cmd
            some (some (hist, cmd))
  else if t.tok0 = traceWord then
    if (subLine line).isEmpty then some none else some (some (hist, subLine line))
  else some none

end Runix
