import Spreadsheet.FunctionDef
import Spreadsheet.Text.Case
import Spreadsheet.Text.Pieces

/-!
# Text

Positions and counts are in characters, and positions start at one. A function that can make a
text longer refuses to exceed the limit.
-/

namespace Spreadsheet.Builtin

open Text

/-- A text that was built: too long a one is an error. -/
def built (limits : Limits) (cs : List Char) : Except CellError Value :=
  if cs.length ≤ limits.maxTextLength then
    .ok (.text (String.ofList cs))
  else
    .error .value

/-- The characters of a text argument. -/
def chars (args : List Value) (i : Nat) : Except CellError (List Char) :=
  return (← (arg args i).toText).toList

/-- A count argument, which must not be negative. -/
def countArg (args : List Value) (i : Nat) (default : Nat) : Except CellError Nat :=
  match args[i]? with
  | none => .ok default
  | some v => do
    let n ← v.toCount
    if n < 0 then
      throw .value
    return n.toNat

/-- The number of characters before a position argument. -/
def positionArg (args : List Value) (i : Nat) : Except CellError Nat := do
  let n ← (arg args i).toCount
  if n < 1 then
    throw .value
  return (n - 1).toNat

def length : Implementation :=
  strict fun _ args => return .int (Int64.ofNat (← chars args 0).length)

def left : Implementation :=
  strict fun _ args => do
    let cs ← chars args 0
    let n ← countArg args 1 1
    return .text (String.ofList (cs.take n))

def right : Implementation :=
  strict fun _ args => do
    let cs ← chars args 0
    let n ← countArg args 1 1
    return .text (String.ofList (cs.drop (cs.length - n)))

def middle : Implementation :=
  strict fun _ args => do
    let cs ← chars args 0
    let start ← positionArg args 1
    let n ← countArg args 2 0
    return .text (String.ofList ((cs.drop start).take n))

/-- Replaces the characters at a position; past the end the new text is appended. -/
def replace : Implementation :=
  strict fun limits args => do
    let cs ← chars args 0
    let start ← positionArg args 1
    let n ← countArg args 2 0
    let new ← chars args 3
    built limits (cs.take start ++ new ++ cs.drop (start + n))

/-- Replaces a word, everywhere or only where it occurs for the n-th time. There is nothing to
replace by an empty word or at an occurrence that is not there. -/
def substitute : Implementation :=
  strict fun limits args => do
    let cs ← chars args 0
    let old ← chars args 1
    let new ← chars args 2
    if old = [] then
      return .text (String.ofList cs)
    let ps := pieces old cs
    match args[3]? with
    | none => built limits (new.intercalate ps)
    | some v =>
      let n ← v.toCount
      if n < 1 then
        throw .value
      if n < ps.length then
        built limits (joinExcept old new (n - 1).toNat ps)
      else
        return .text (String.ofList cs)

def upper : Implementation :=
  strict fun _ args => return .text (toUpper (← (arg args 0).toText))

def lower : Implementation :=
  strict fun _ args => return .text (toLower (← (arg args 0).toText))

/-- The words between spaces, without the empty ones. -/
def words (cs : List Char) : List (List Char) :=
  (cs.splitOn ' ').filter (· ≠ [])

/-- Leaves one space between words and none around them. Other blanks are ordinary characters. -/
def trimmed : Implementation :=
  strict fun _ args => return .text (String.ofList ([' '].intercalate (words (← chars args 0))))

/-- Repeats a text. The length of the result is known before anything is built; it is a 64-bit word,
and what is too large for it counts as the largest. -/
def repeated : Implementation :=
  strict fun limits args => do
    let cs ← chars args 0
    let n ← countArg args 1 0
    if limits.maxTextLength < min (cs.length * n) (Number.wordSize - 1) then
      throw .value
    if cs = [] then
      return .text ""
    return .text (String.ofList (List.replicate n cs).flatten)

/-- What each scalar shows, one behind the other. -/
def concat : Implementation :=
  strict fun limits args =>
    built limits ((Value.leavesOf args).flatMap fun v => v.display.toList)

/-- What each scalar shows, with a delimiter between them. Cells that show nothing may be passed
over. -/
def joinTexts : Implementation :=
  strict fun limits args => do
    let delimiter ← chars args 0
    let ignoresEmpty ← (arg args 1).toBool
    let parts := (Value.leavesOf (args.drop 2)).map fun v => v.display.toList
    let parts := if ignoresEmpty then parts.filter (· ≠ []) else parts
    built limits (delimiter.intercalate parts)

end Spreadsheet.Builtin
