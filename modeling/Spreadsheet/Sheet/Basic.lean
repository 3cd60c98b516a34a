import Spreadsheet.Engine
import Spreadsheet.Sheet.Style

/-!
# Sheets

A sheet is a rectangle of typed texts with a style for some of the cells. Nothing computed is
stored: every question is a new evaluation of the texts as they are, so an edit cannot leave an old
result behind. To formulas, cells outside the rectangle do not exist.
-/

namespace Spreadsheet

open Formula Number

/-- What is wrong with the shape of a document. -/
inductive DocumentError where
  | notObject
  | columnsNotList
  | columnNotScalar (index : Nat)
  | dataNotList
  | rowNotList (index : Nat)
  | stylesNotObject
deriving DecidableEq, Repr

def DocumentError.message : DocumentError → String
  | .notObject => "Grid document must be an object"
  | .columnsNotList => "\"columns\" must be a list"
  | .columnNotScalar index => "Column name at index " ++ toString index ++ " must be a scalar"
  | .dataNotList => "\"data\" must be a list of rows"
  | .rowNotList index => "Row " ++ toString index ++ " must be a list"
  | .stylesNotObject => "\"styles\" must be an object"

/-- Why an operation on a sheet fails. -/
inductive SheetError where
  | outOfBounds (row col rows cols : Nat)
  | address (e : AddressError)
  | document (e : DocumentError)
  /-- A text that is no JSON. -/
  | json
  /-- A file that cannot be read. -/
  | file
deriving DecidableEq, Repr

def SheetError.message : SheetError → String
  | .outOfBounds row col rows cols =>
    "Index out of bounds: row " ++ toString row ++ ", col " ++ toString col ++ " (sheet has "
      ++ toString rows ++ " rows, " ++ toString cols ++ " cols)"
  | .address e => "Invalid cell address: " ++ e.message
  | .document e => "Parse error: " ++ e.message
  | .json => "JSON error"
  | .file => "IO error"

/-- A rectangle of typed texts. -/
structure Sheet where
  /-- The headers, one for each column. -/
  columns : Array String := #[]
  /-- The texts, row by row. -/
  data : Array (Array String) := #[]
  /-- The styles in the order in which cells first got one. -/
  styles : List ((Nat × Nat) × Style) := []
  engine : Engine := {}

namespace Sheet

def rowCount (s : Sheet) : Nat :=
  s.data.size

def colCount (s : Sheet) : Nat :=
  s.columns.size

/-- The header of a column that was given none: its letters, if it has any. -/
def defaultHeader (index : Nat) : String :=
  if index < UInt32.size then
    String.ofList (Column.letters (UInt32.ofNat index))
  else
    toString index

/-- An empty sheet with lettered headers. -/
def ofSize (rows cols : Nat) : Sheet where
  columns := (Array.range cols).map defaultHeader
  data := Array.replicate rows (Array.replicate cols "")

/-- The width of the widest row, headers included. -/
def width (columns : Array String) (data : Array (Array String)) : Nat :=
  data.foldl (fun w row => max w row.size) columns.size

/-- A row with empty texts added up to a width. -/
def pad (width : Nat) (row : Array String) : Array String :=
  row ++ Array.replicate (width - row.size) ""

/-- The sheet of headers and rows. Short rows are filled with empty texts and missing headers with
letters. -/
def ofRows (columns : Array String) (data : Array (Array String)) : Sheet :=
  let w := width columns data
  { columns := columns ++ (Array.range (w - columns.size)).map fun i =>
      defaultHeader (columns.size + i)
    data := data.map (pad w) }

def withEngine (s : Sheet) (e : Engine) : Sheet :=
  { s with engine := e }

/-! ## Cells -/

def contains (s : Sheet) (row col : Nat) : Bool :=
  row < s.rowCount && col < s.colCount

def outOfBounds (s : Sheet) (row col : Nat) : SheetError :=
  .outOfBounds row col s.rowCount s.colCount

/-- Goes on if a cell is in the sheet. -/
def checkBounds (s : Sheet) (row col : Nat) : Except SheetError Unit :=
  if s.contains row col then .ok () else .error (s.outOfBounds row col)

/-- The text of a cell, if it is in the sheet. -/
def text? (s : Sheet) (row col : Nat) : Option String :=
  s.data[row]?.bind (·[col]?)

def raw (s : Sheet) (row col : Nat) : Except SheetError String := do
  s.checkBounds row col
  return (s.text? row col).getD ""

/-- The sheet with a text in a cell. -/
def withText (s : Sheet) (row col : Nat) (text : String) : Sheet :=
  { s with data := s.data.modify row fun cells => cells.modify col fun _ => text }

def style? (s : Sheet) (row col : Nat) : Option Style :=
  s.styles.lookup (row, col)

/-- Enters a style: a cell that has one keeps its place in the order. -/
def insertStyle (key : Nat × Nat) (style : Style) :
    List ((Nat × Nat) × Style) → List ((Nat × Nat) × Style)
  | [] => [(key, style)]
  | (k, old) :: rest =>
    if k = key then (k, style) :: rest else (k, old) :: insertStyle key style rest

/-- The sheet with a style for a cell. -/
def withStyle (s : Sheet) (row col : Nat) (style : Style) : Sheet :=
  { s with styles := insertStyle (row, col) style s.styles }

/-- Takes the style of a cell away and gives it back. -/
def clearStyle (s : Sheet) (row col : Nat) : Option Style × Sheet :=
  (s.style? row col, { s with styles := s.styles.filter (·.1 ≠ (row, col)) })

/-! ## Addresses -/

/-- The row and column of a written address. -/
def indexOf (a1 : String) : Except SheetError (Nat × Nat) :=
  match Address.ofA1 a1 with
  | .ok a => .ok (a.row.toNat, a.col.toNat)
  | .error e => .error (.address e)

/-- The address of a row and a column, unless one of them is too large. -/
def address? (row col : Nat) : Option Address :=
  if row < UInt32.size ∧ col < UInt32.size then
    some ⟨UInt32.ofNat row, UInt32.ofNat col⟩
  else
    none

/-- The written address of a row and a column. -/
def a1Of? (row col : Nat) : Option String :=
  (address? row col).map Address.toA1

/-- The address of a cell that is in the sheet. -/
def address (s : Sheet) (row col : Nat) : Except SheetError Address := do
  s.checkBounds row col
  match address? row col with
  | some a => return a
  | none => throw (s.outOfBounds row col)

/-! ## Changes -/

/-- A change that may fail. Where it does, the sheet stays as it is at that moment. -/
abbrev Change := EStateM SheetError Sheet

namespace Change

/-- The changed sheet, or why the change failed. -/
def apply (c : Change Unit) (s : Sheet) : Except SheetError Sheet :=
  match c.run s with
  | .ok _ s' => .ok s'
  | .error e _ => .error e

/-- The sheet that is left, whether or not the change failed. -/
def left (c : Change Unit) (s : Sheet) : Sheet :=
  match c.run s with
  | .ok _ s' | .error _ s' => s'

end Change

/-- Fails if a cell is not in the sheet. -/
def requireCell (row col : Nat) : Change Unit := do
  MonadExcept.ofExcept ((← get).checkBounds row col)

/-- Types a text into a cell. -/
def enterText (row col : Nat) (text : String) : Change Unit := do
  requireCell row col
  modify (·.withText row col text)

/-- Types a text into the cell with a written address. -/
def enterTextAt (a1 text : String) : Change Unit := do
  let (row, col) ← MonadExcept.ofExcept (indexOf a1)
  enterText row col text

def enterStyle (row col : Nat) (style : Style) : Change Unit := do
  requireCell row col
  modify (·.withStyle row col style)

def setCell (s : Sheet) (row col : Nat) (raw : String) : Except SheetError Sheet :=
  (enterText row col raw).apply s

def setA1 (s : Sheet) (a1 : String) (raw : String) : Except SheetError Sheet :=
  (enterTextAt a1 raw).apply s

def setStyle (s : Sheet) (row col : Nat) (style : Style) : Except SheetError Sheet :=
  (enterStyle row col style).apply s

/-! ## Evaluation -/

/-- The sheet as formulas see it. -/
def grid (s : Sheet) : Grid := fun a =>
  (s.text? a.row.toNat a.col.toNat).map Content.ofText

/-- The value of a cell. -/
def evaluate (s : Sheet) (row col : Nat) : Except SheetError Value := do
  let a ← s.address row col
  return s.engine.evaluateCell s.grid a

/-- The value of a formula that stands in no cell. -/
def evaluateFormula (s : Sheet) (text : String) : Value :=
  s.engine.evaluateFormula s.grid text

/-- The text that a cell shows for a value: numbers follow the cell's style. -/
def formatValue (s : Sheet) (row col : Nat) (v : Value) : String :=
  let fixed := do (← s.style? row col).formatNumber? (← v.number?)
  fixed.getD v.display

/-- The text that a cell shows. -/
def display (s : Sheet) (row col : Nat) : Except SheetError String := do
  let v ← s.evaluate row col
  return s.formatValue row col v

/-- The values of all cells, row by row, each computed on its own. -/
def recalculate (s : Sheet) : List (List Value) :=
  (List.range s.rowCount).map fun row =>
    (List.range s.colCount).map fun col =>
      match s.evaluate row col with
      | .ok v => v
      | .error _ => .error .ref

/-- The texts shown for values that were computed before, row by row. -/
def formatValues (s : Sheet) (values : List (List Value)) : List (List String) :=
  values.zipIdx.map fun (vs, row) => vs.zipIdx.map fun (v, col) => s.formatValue row col v

/-- The texts of all cells as shown. -/
def displayGrid (s : Sheet) : List (List String) :=
  s.formatValues s.recalculate

/-- The places that the formula in a cell names. A cell without a formula, or with one that cannot
be read, names none. -/
def precedents (s : Sheet) (row col : Nat) : Except SheetError (List Dependency) := do
  let text ← s.raw row col
  match Content.ofText text with
  | .formula source =>
    match s.engine.compile source with
    | .ok c => return c.dependencies
    | .error _ => return []
  | _ => return []

end Sheet

end Spreadsheet
