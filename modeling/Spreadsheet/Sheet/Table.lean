import Spreadsheet.Sheet.Basic
import Spreadsheet.Text.Pieces

/-!
# Tables

A sheet as aligned text: a line of headers and a line for each row, with the row number in front.
Every column is as wide as its widest text, counted in characters without colour, so colours do not
disturb the alignment. Numbers stand at the right of their column and all else at the left.

The width of a field is a word of 16 bits. A wider field cannot be set, so a sheet with a wider
column has no table.
-/

namespace Spreadsheet.Table

/-- The display attributes of a text on a terminal. -/
inductive Ink where
  | bold
  | boldRed
  | yellow
deriving DecidableEq, Repr

/-- The control sequence that turns attributes on. -/
def Ink.on : Ink → List Char
  | .bold => "\x1b[1m".toList
  | .boldRed => "\x1b[1;31m".toList
  | .yellow => "\x1b[33m".toList

/-- The control sequence that turns all attributes off. -/
def inkOff : List Char :=
  "\x1b[0m".toList

/-- Puts a text between control sequences. Where the text turns attributes off itself, they are
turned on again. -/
def paint (coloured : Bool) (ink : Ink) (text : String) : String :=
  if coloured then
    let inner := (inkOff ++ ink.on).intercalate (Text.pieces inkOff text.toList)
    String.ofList (ink.on ++ inner ++ inkOff)
  else
    text

/-- The widest field that can be set. -/
def maxWidth : Nat := 65535

/-- A text at the right or at the left end of a field, with blanks before or behind it. -/
def inField (right : Bool) (width : Nat) (text : String) : String :=
  let blanks := String.ofList (List.replicate (width - text.length) ' ')
  if right then blanks ++ text else text ++ blanks

/-- A text in a field, unless the field is too wide to be set, however long the text is. -/
def pad? (right : Bool) (width : Nat) (text : String) : Option String :=
  if width ≤ maxWidth then some (inField right width text) else none

/-- A text that shows a value: errors are bold and red. -/
def highlight (coloured : Bool) (v : Value) (text : String) : String :=
  if v.isError then paint coloured .boldRed text else text

/-- The width of a column: that of its widest text, header included. -/
def columnWidth (header : String) (index : Nat) (shown : List (List String)) : Nat :=
  (shown.filterMap (·[index]?)).foldl (fun w text => max w text.length) header.length

def columnWidths (columns : List String) (shown : List (List String)) : List Nat :=
  columns.zipIdx.map fun (header, i) => columnWidth header i shown

/-- A text in a cell of the table. -/
def cellText? (coloured : Bool) (width : Nat) (v : Value) (text : String) : Option String :=
  (pad? v.isNumber width text).map (highlight coloured v)

/-- The columns of a line behind the row number. -/
def line (gutter : String) (cells : List String) : String :=
  gutter ++ " | " ++ " | ".intercalate cells

/-- The line of headers. -/
def headerLine? (coloured : Bool) (gutter : Nat) (columns : List String) (widths : List Nat) :
    Option String := do
  let cells ← (columns.zip widths).mapM fun (name, w) =>
    (pad? false w name).map (paint coloured .bold)
  return line (← pad? false gutter "") cells

/-- The line of a row. -/
def rowLine? (coloured : Bool) (gutter : Nat) (widths : List Nat) (row : Nat) (texts : List String)
    (vs : List Value) : Option String := do
  let cells ← ((texts.zip vs).zip widths).mapM fun ((text, v), w) => cellText? coloured w v text
  return line (← pad? true gutter (toString (row + 1))) cells

/-- The lines of a table: headers, then the texts shown for the values. There are none if a column
is too wide. -/
def render? (coloured : Bool) (columns : List String) (values : List (List Value))
    (shown : List (List String)) : Option (List String) := do
  let gutter := (toString shown.length).length
  let widths := columnWidths columns shown
  let header ← headerLine? coloured gutter columns widths
  let rows ← (shown.zip values).zipIdx.mapM fun ((texts, vs), row) =>
    rowLine? coloured gutter widths row texts vs
  return header :: rows

end Spreadsheet.Table
