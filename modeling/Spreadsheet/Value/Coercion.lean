import Spreadsheet.Value

/-!
# Conversions

How a value is read where a number, a text, a truth value or a count is wanted. Each conversion
first reduces a list to its only value. An error converts to itself.
-/

namespace Spreadsheet.Value

open Text Number

/-- The number that a text spells, blanks around it allowed. -/
def numberOfText? (s : String) : Option Float :=
  readFinite? (trim s.toList)

/-- A number: an empty cell is 0, a boolean 0 or 1, a text what it spells. -/
def toNumber (v : Value) : Except CellError Float := do
  match ← v.scalar with
  | .int n => return ofInt64 n
  | .float x => return x
  | .empty => return 0.0
  | .bool b => return if b then 1.0 else 0.0
  | .text s => match numberOfText? s with
    | some x => return x
    | none => throw .value
  | .error e => throw e
  | .array _ => throw .value

/-- The integer of a value that is one without conversion of text; it keeps arithmetic exact. -/
def toInteger? (v : Value) : Option Int64 :=
  match v.scalar with
  | .ok (.int n) => some n
  | .ok (.bool b) => some (if b then 1 else 0)
  | .ok .empty => some 0
  | _ => none

/-- A whole number, such as a count of characters: the part below the point is dropped. The result
has to be a 64-bit integer, where `2 ^ 63` counts as the largest one and NaN as zero. -/
def toCount (v : Value) : Except CellError Int := do
  let x ← v.toNumber
  if x.isInf then
    throw .value
  let n := wholePart x
  if n < Int64.minValue.toInt ∨ Int64.maxValue.toInt + 1 < n then
    throw .value
  return min n Int64.maxValue.toInt

/-- A text: what a cell with the value shows. -/
def toText (v : Value) : Except CellError String := do
  match ← v.scalar with
  | .error e => throw e
  | v => return v.display

/-- A truth value: numbers other than zero are true, and texts have to be one of the two words. -/
def toBool (v : Value) : Except CellError Bool := do
  match ← v.scalar with
  | .bool b => return b
  | .int n => return n != 0
  | .float x => return x != 0.0
  | .empty => return false
  | .text s =>
    if sameKeyword s "TRUE" then return true
    else if sameKeyword s "FALSE" then return false
    else throw .value
  | .error e => throw e
  | .array _ => throw .value

end Spreadsheet.Value
