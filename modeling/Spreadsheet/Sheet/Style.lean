import Spreadsheet.Json.Reader
import Spreadsheet.Text.Blank

/-!
# Cell styles

How a cell looks. Only the number of decimals changes what a cell shows; everything else is carried
for whoever draws it, and attributes that are not known here are kept as they came.

Styles are stored under keys `row,column`, counted from zero.
-/

namespace Spreadsheet

open Text Number

/-- The visual attributes of one cell. -/
structure Style where
  bold : Option Bool := none
  italic : Option Bool := none
  underline : Option Bool := none
  foreground : Option String := none
  background : Option String := none
  align : Option String := none
  /-- The number of decimal places of a number. -/
  decimals : Option UInt8 := none
  /-- Attributes of other names, sorted by name. -/
  extra : List (String × Json) := []

namespace Style

/-- The names of the known attributes, in their order. -/
def attributeNames : List String :=
  ["bold", "italic", "underline", "foreground", "background", "align", "decimals"]

/-- The text of a number with the decimals of the style, if it has any. -/
def formatNumber? (s : Style) (x : Float) : Option String :=
  s.decimals.map fun places => String.ofList (writeFixed places.toNat x)

/-- A member for an attribute that is set. -/
def member {α : Type} (name : String) (write : α → Json) (value : Option α) :
    List (String × Json) :=
  match value with
  | some x => [(name, write x)]
  | none => []

/-- The attributes that are set: the known ones in their order, then the others. -/
def toJson (s : Style) : Json :=
  .object (member "bold" .bool s.bold ++ member "italic" .bool s.italic
    ++ member "underline" .bool s.underline ++ member "foreground" .text s.foreground
    ++ member "background" .text s.background ++ member "align" .text s.align
    ++ member "decimals" (fun n => .int n.toNat) s.decimals ++ s.extra)

/-- A truth value; nothing and `null` leave it unset. -/
def flag? : Option Json → Option (Option Bool)
  | none | some .null => some none
  | some (.bool b) => some (some b)
  | _ => none

/-- A text; nothing and `null` leave it unset. -/
def text? : Option Json → Option (Option String)
  | none | some .null => some none
  | some (.text s) => some (some s)
  | _ => none

/-- A count of one byte; nothing and `null` leave it unset. -/
def count? : Option Json → Option (Option UInt8)
  | none | some .null => some none
  | some (.int n) => if 0 ≤ n ∧ n < 256 then some (some (UInt8.ofNat n.toNat)) else none
  | _ => none

/-- The style of an object: known attributes need values of their type, all others are kept. -/
def ofJson? : Json → Option Style
  | .object ms => do
    return {
      bold := ← flag? (ms.lookup "bold")
      italic := ← flag? (ms.lookup "italic")
      underline := ← flag? (ms.lookup "underline")
      foreground := ← text? (ms.lookup "foreground")
      background := ← text? (ms.lookup "background")
      align := ← text? (ms.lookup "align")
      decimals := ← count? (ms.lookup "decimals")
      extra := ms.filter fun (name, _) => !attributeNames.contains name }
  | _ => none

/-- The style of a JSON text, which must not set a known attribute twice. -/
def ofJsonText? (text : String) : Option Style := do
  let source ← Json.Source.ofText? text
  match source with
  | .object _ =>
    let _ ← source.fields? attributeNames
    ofJson? (← source.toJson? Json.maxLevels)
  | _ => none

/-- The key under which the style of a cell is stored. -/
def key (row col : Nat) : String :=
  String.ofList (decimal row ++ ',' :: decimal col)

/-- A number of a key: digits with blanks around them, as a 64-bit word. -/
def keyNumber? (cs : List Char) : Option Nat :=
  (readDigits? (trim cs)).filter (· < wordSize)

/-- The cell that a key names; blanks around either number are allowed. -/
def parseKey? (text : String) : Option (Nat × Nat) :=
  let cs := text.toList
  match cs.dropWhile (· != ',') with
  | [] => none
  | _ :: rest => do
    return (← keyNumber? (cs.takeWhile (· != ',')), ← keyNumber? rest)

end Style

end Spreadsheet
