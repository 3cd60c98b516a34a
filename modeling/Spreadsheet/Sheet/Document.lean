import Spreadsheet.Json.Printer
import Spreadsheet.Sheet.Basic

/-!
# Documents

A sheet is stored as an object with its headers, its texts and its styles. Reading is strict about
the shape and lenient about cells: a cell that is a list or an object is read as empty, and a style
is dropped when its key names no cell of the sheet or its attributes have the wrong type.
-/

namespace Spreadsheet.Sheet

open Json Number

/-- The text of a scalar as a cell; lists and objects have none. -/
def scalarText? : Json → Option String
  | .null => some ""
  | .bool b => some (Value.boolText b)
  | .int n => some (intText n)
  | .float x => some (floatText x)
  | .text s => some s
  | .array _ | .object _ => none

/-- The headers, each a scalar. -/
def readColumns : Option Json → Except DocumentError (List String)
  | none | some .null => .ok []
  | some (.array items) => items.zipIdx.mapM fun (item, i) =>
    match scalarText? item with
    | some s => .ok s
    | none => .error (.columnNotScalar i)
  | some _ => .error .columnsNotList

/-- The texts of the cells, row by row. -/
def readData : Option Json → Except DocumentError (List (List String))
  | none | some .null => .ok []
  | some (.array rows) => rows.zipIdx.mapM fun (row, i) =>
    match row with
    | .array cells => .ok (cells.map fun cell => (scalarText? cell).getD "")
    | _ => .error (.rowNotList i)
  | some _ => .error .dataNotList

/-- The style under a key, if the key names a cell of the sheet. -/
def readStyle? (s : Sheet) (key : String) (j : Json) : Option ((Nat × Nat) × Style) := do
  let (row, col) ← Style.parseKey? key
  if s.contains row col then
    return ((row, col), ← Style.ofJson? j)
  else
    none

/-- The styles, of which the last for a cell stays. -/
def readStyles (s : Sheet) : Option Json → Except DocumentError (List ((Nat × Nat) × Style))
  | none | some .null => .ok []
  | some (.object ms) =>
    .ok <| ((sortMembers ms).filterMap fun (key, j) => readStyle? s key j).foldl
      (fun styles (cell, style) => insertStyle cell style styles) []
  | some _ => .error .stylesNotObject

/-- The sheet of a document, with the standard engine. -/
def ofJson : Json → Except DocumentError Sheet
  | .object ms => do
    let ms := sortMembers ms
    let columns ← readColumns (ms.lookup "columns")
    let data ← readData (ms.lookup "data")
    let s := ofRows columns.toArray (data.map List.toArray).toArray
    let styles ← readStyles s (ms.lookup "styles")
    return { s with styles }
  | _ => .error .notObject

/-- The sheet of a document text. -/
def ofJsonText (text : String) : Except SheetError Sheet :=
  match Json.ofText? text with
  | none => .error .json
  | some j =>
    match ofJson j with
    | .ok s => .ok s
    | .error e => .error (.document e)

/-- The document of a sheet. -/
def toJson (s : Sheet) : Json :=
  .object [
    ("columns", .array (s.columns.toList.map .text)),
    ("data", .array (s.data.toList.map fun row => .array (row.toList.map .text))),
    ("styles", .object (s.styles.map fun ((row, col), style) => (Style.key row col, style.toJson)))]

/-- The text of the document. -/
def toJsonText (s : Sheet) : String :=
  s.toJson.pretty

/-- The content of the file that a sheet is saved in. -/
def toFile (s : Sheet) : String :=
  s.toJsonText ++ "\n"

end Spreadsheet.Sheet
