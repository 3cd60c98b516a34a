import Spreadsheet.Address

/-!
# References

A formula names a cell by its address and may pin the column, the row or both with a dollar sign.
The marks matter to whoever copies the formula; they never change which cell is read.
-/

namespace Spreadsheet

open Text Number

/-- A cell as a formula names it. -/
structure Reference where
  address : Address
  rowPinned : Bool
  colPinned : Bool
deriving DecidableEq, Repr, Inhabited

namespace Reference

/-- The reference to an address without any mark. -/
def relative (a : Address) : Reference :=
  ⟨a, false, false⟩

/-- The mark of a pinned coordinate. -/
def mark (pinned : Bool) : List Char :=
  if pinned then ['$'] else []

/-- The written form, marks included. -/
def toChars (r : Reference) : List Char :=
  mark r.colPinned ++ Column.letters r.address.col ++ mark r.rowPinned
    ++ decimal (r.address.row.toNat + 1)

def toA1 (r : Reference) : String :=
  String.ofList r.toChars

/-- Takes a dollar sign off the front. -/
def splitMark : List Char → Bool × List Char
  | '$' :: cs => (true, cs)
  | cs => (false, cs)

/-- The row index of a row number, which starts at one and is a 32-bit word. -/
def rowOfDigits (digits : List Char) : Except AddressError UInt32 :=
  let number := digitsValue digits
  if 0 < number ∧ number < UInt32.size then
    .ok (UInt32.ofNat (number - 1))
  else
    .error (.row (String.ofList digits))

/-- Reads `$? letters $? digits`. Of several faults the first in this order is reported: missing
letters, missing digits or more text, the row number, the column letters. -/
def ofChars (cs : List Char) : Except AddressError Reference := do
  if cs = [] then
    throw .empty
  let (colPinned, rest) := splitMark cs
  let letters := rest.takeWhile isLetter
  if letters = [] then
    throw (.column (String.ofList cs))
  let (rowPinned, rest) := splitMark (rest.dropWhile isLetter)
  let digits := rest.takeWhile isDigit
  if digits = [] ∨ rest.dropWhile isDigit ≠ [] then
    throw (.row (String.ofList cs))
  let row ← rowOfDigits digits
  let col ← Column.ofLetters letters
  return ⟨⟨row, col⟩, rowPinned, colPinned⟩

/-- Reads a reference, blanks around it allowed. -/
def ofA1 (text : String) : Except AddressError Reference :=
  ofChars (trim text.toList)

end Reference

/-- Reads an address; dollar signs are allowed and dropped. -/
def Address.ofA1 (text : String) : Except AddressError Address :=
  (Reference.ofA1 text).map Reference.address

/-- Two corner references, as a formula writes a range. -/
structure RangeRef where
  first : Reference
  last : Reference
deriving DecidableEq, Repr

namespace RangeRef

/-- The range between two corners in any order: `first` becomes the top left and `last` the bottom
right corner. Each coordinate keeps the mark it was written with. -/
def ofCorners (a b : Reference) : RangeRef :=
  let (top, bottom) := if a.address.row ≤ b.address.row then (a, b) else (b, a)
  let (left, right) := if a.address.col ≤ b.address.col then (a, b) else (b, a)
  ⟨⟨⟨top.address.row, left.address.col⟩, top.rowPinned, left.colPinned⟩,
    ⟨⟨bottom.address.row, right.address.col⟩, bottom.rowPinned, right.colPinned⟩⟩

/-- The written form, as the corners stand. -/
def toA1 (r : RangeRef) : String :=
  r.first.toA1 ++ ":" ++ r.last.toA1

end RangeRef

end Spreadsheet
