import Runix.Lib.Bytes
import Runix.Lib.Words
import Runix.Client

namespace Runix

/-- `&line[lo..hi]`, by its place in the line. -/
def subSlice (line : List UInt8) (lo hi : Nat) : Option Lib.Span :=
  if lo ≤ hi ∧ hi ≤ line.length then some ⟨lo, hi⟩ else none

def isSpace (b : UInt8) : Bool := b == 32

/-- `while idx < line.len() && test(line[idx]) { idx += 1; }` -/
def skipWhile (test : UInt8 → Bool) (line : List UInt8) (idx : Nat) : Option Nat :=
  if _h : idx < line.length then do
    let b ← (line)[idx]?
    if test b then skipWhile test line (idx + 1) else some idx
  else some idx
termination_by line.length - idx

/-- The array of tokens that `tokenize` writes to. -/
abbrev TokenArray := Fin 4 → Option Lib.Span

def tokenWords (line : List UInt8) (tokens : TokenArray) (idx count : Nat) :
    Option (TokenArray × Nat × Nat) :=
  if _h : idx < line.length ∧ count < 3 then do
    let stop ← skipWhile (fun b => !isSpace b) line idx
    let word ← subSlice line idx stop
    let tokens ← Lib.assign tokens count (some word)
    let next ← skipWhile isSpace line stop
    tokenWords line tokens next (count + 1)
  else some (tokens, idx, count)
termination_by 3 - count

/-- `while end > idx && line[end - 1] == b' ' { end -= 1; }` -/
def trimEnd (line : List UInt8) (idx : Nat) : Nat → Option Nat
  | 0 => some 0
  | last + 1 =>
    if last + 1 > idx then do
      let b ← (line)[last]?
      if isSpace b then trimEnd line idx last else some (last + 1)
    else some (last + 1)

/-- `tokenize` on a given array, with the number that it returns. -/
def tokenizeInto (line : List UInt8) (tokens : TokenArray) : Option (TokenArray × Nat) := do
  let idx ← skipWhile isSpace line 0
  let (tokens, idx, count) ← tokenWords line tokens idx 0
  if idx < line.length then
    let stop ← trimEnd line idx line.length
    if idx < stop then
      let rest ← subSlice line idx stop
      let tokens ← Lib.assign tokens 3 (some rest)
      some (tokens, count + 1)
    else some (tokens, count)
  else some (tokens, count)

/-- The tokens as `dispatch` takes them out of the array: it returns at once when there is
none, and reads an entry that is not set as an empty one. -/
def dispatchTokens (line : List UInt8) : Option (Option Tokens) := do
  let (tokens, count) ← tokenizeInto line (fun _ => none)
  let tok (i : Fin 4) : List UInt8 := ((tokens i).map (fun s => s.cut line)).getD []
  if count = 0 then some none else some (some ⟨tok 0, tok 1, tok 2, tok 3⟩)

end Runix
