import Spreadsheet.Number.Whole

/-!
# Cell addresses

A cell stands in a row and a column, both counted from zero in 32-bit words. Written, the column
comes first, as letters that count `A`, …, `Z`, `AA`, `AB`, …, and the row follows, counted from
one.

Letters are a number system with the digits 1 to 26 and no zero, so each positive number has
exactly one spelling.
-/

namespace Spreadsheet

open Text Number

/-- The position of a cell, `A1` being row 0 and column 0. -/
structure Address where
  row : UInt32
  col : UInt32
deriving DecidableEq, Hashable, Repr, Inhabited

/-- Why a text is no address. -/
inductive AddressError where
  /-- There is nothing but blanks. -/
  | empty
  /-- The column letters are missing, are no letters or count too far. -/
  | column (text : String)
  /-- The row number is missing, out of range or followed by something else. -/
  | row (text : String)
deriving DecidableEq, Repr

def AddressError.message : AddressError → String
  | .empty => "Invalid range: Empty A1 reference"
  | .column text => "Invalid column: " ++ text
  | .row text => "Invalid row: " ++ text

namespace Column

/-- The letter of a digit, counted from zero. -/
def letter (n : Nat) : Char :=
  Char.ofNat ('A'.toNat + n)

/-- The letters of a positive number; zero has none. -/
def lettersOf (n : Nat) : List Char :=
  if _h : n = 0 then
    []
  else
    lettersOf ((n - 1) / 26) ++ [letter ((n - 1) % 26)]
termination_by n
decreasing_by omega

/-- The digit of a letter in either case, from 1 to 26. -/
def letterValue (c : Char) : Nat :=
  c.toUpper.toNat - 'A'.toNat + 1

/-- The number that letters stand for. -/
def numberOf (cs : List Char) : Nat :=
  cs.foldl (fun n c => 26 * n + letterValue c) 0

/-- The letters of a column index. -/
def letters (index : UInt32) : List Char :=
  lettersOf (index.toNat + 1)

/-- The index of column letters. The number of the letters has to be a 32-bit word itself, so the
last index is out of reach. -/
def ofLetters (cs : List Char) : Except AddressError UInt32 :=
  if cs ≠ [] ∧ cs.all isLetter ∧ numberOf cs < UInt32.size then
    .ok (UInt32.ofNat (numberOf cs - 1))
  else
    .error (.column (String.ofList cs))

end Column

/-- The written form of an address. -/
def Address.toA1 (a : Address) : String :=
  String.ofList (Column.letters a.col ++ decimal (a.row.toNat + 1))

end Spreadsheet
