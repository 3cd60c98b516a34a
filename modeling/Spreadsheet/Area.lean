import Spreadsheet.Reference

/-!
# Areas

The rectangle of cells between two corners, both included. The corners are kept in order by the
type, and the cells are numbered row by row, so that an area of any size can be read one cell at a
time.
-/

namespace Spreadsheet

open Number

/-- A rectangle of cells. -/
structure Area where
  first : Address
  last : Address
  row_le : first.row ≤ last.row
  col_le : first.col ≤ last.col

namespace Area

/-- The area between two corners in any order. -/
def ofCorners (a b : Address) : Area where
  first := ⟨if a.row ≤ b.row then a.row else b.row, if a.col ≤ b.col then a.col else b.col⟩
  last := ⟨if a.row ≤ b.row then b.row else a.row, if a.col ≤ b.col then b.col else a.col⟩
  row_le := by
    dsimp only
    split
    · assumption
    · exact (UInt32.le_total _ _).resolve_left ‹_›
  col_le := by
    dsimp only
    split
    · assumption
    · exact (UInt32.le_total _ _).resolve_left ‹_›

/-- Splits a text at its first colon. -/
def splitColon? (cs : List Char) : Option (List Char × List Char) :=
  match cs.dropWhile (· != ':') with
  | [] => none
  | _ :: rest => some (cs.takeWhile (· != ':'), rest)

/-- Reads two addresses with a colon between them, or one for a single cell. -/
def ofA1 (text : String) : Except AddressError Area :=
  match splitColon? text.toList with
  | some (a, b) => do
    let a ← Address.ofA1 (String.ofList a)
    let b ← Address.ofA1 (String.ofList b)
    return ofCorners a b
  | none => do
    let a ← Address.ofA1 text
    return ofCorners a a

def rows (r : Area) : Nat :=
  r.last.row.toNat - r.first.row.toNat + 1

def cols (r : Area) : Nat :=
  r.last.col.toNat - r.first.col.toNat + 1

/-- The number of cells as a 64-bit word: the one area too large for it counts as the largest. -/
def size (r : Area) : Nat :=
  min (r.rows * r.cols) (wordSize - 1)

def contains (r : Area) (a : Address) : Bool :=
  r.first.row ≤ a.row && a.row ≤ r.last.row && r.first.col ≤ a.col && a.col ≤ r.last.col

/-- The cell with number `k`, row by row from the top left. -/
def cell (r : Area) (k : Nat) : Address :=
  ⟨UInt32.ofNat (r.first.row.toNat + k / r.cols), UInt32.ofNat (r.first.col.toNat + k % r.cols)⟩

/-- The first `n` cells. -/
def firstCells (r : Area) (n : Nat) : List Address :=
  (List.range (min n (r.rows * r.cols))).map r.cell

/-- All cells, row by row. -/
def cells (r : Area) : List Address :=
  (List.range (r.rows * r.cols)).map r.cell

/-- The written form, always with both corners. -/
def toA1 (r : Area) : String :=
  r.first.toA1 ++ ":" ++ r.last.toA1

end Area

/-- The rectangle that a range covers, whatever the order of its corners. -/
def RangeRef.area (r : RangeRef) : Area :=
  Area.ofCorners r.first.address r.last.address

end Spreadsheet
