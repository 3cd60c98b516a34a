import Spreadsheet.Area
import Spreadsheet.Json.Source
import Spreadsheet.Value

/-!
# Values and references as JSON

A value is a variant: its tag alone, or an object with the tag and what belongs to it. References
are records. Readers are given the number of levels that may still be opened.
-/

namespace Spreadsheet

open Json

namespace CellError

/-- The tag of an error, the description of a malformed formula apart. -/
def tag : CellError → String
  | .value => "Value"
  | .divZero => "Div0"
  | .num => "Num"
  | .ref => "Ref"
  | .cycle => "Cycle"
  | .depth => "Depth"
  | .calc => "Calc"
  | .malformed _ => "Parse"

def toJson : CellError → Json
  | .malformed description => .tagged "Parse" (.text description)
  | e => .text e.tag

/-- The errors that are a tag alone. -/
def plain : List CellError :=
  [.value, .divZero, .num, .ref, .cycle, .depth, .calc]

def ofSource? (room : Nat) (s : Source) : Option CellError := do
  let (tag, payload) ← s.variant?
  if payload.isSome then
    let _ ← openLevel? room
  if tag = "Parse" then
    return .malformed (← (← payload).text?)
  else if Source.isUnit payload then
    plain.find? fun e => e.tag = tag
  else
    none

end CellError

namespace Value

mutual

def toJson : Value → Json
  | .empty => .text "Empty"
  | .bool b => .tagged "Bool" (.bool b)
  | .int n => .tagged "Int" (.int n.toInt)
  | .float x => .tagged "Float" (ofFloat x)
  | .text s => .tagged "String" (.text s)
  | .error e => .tagged "Error" e.toJson
  | .array cells => .tagged "Array" (.array (toJsonOf cells))

def toJsonOf : List Value → List Json
  | [] => []
  | v :: vs => v.toJson :: toJsonOf vs

end

/-- A value from JSON. The fuel bounds the lists inside lists. -/
def ofSource? : (fuel room : Nat) → Source → Option Value
  | 0, _, _ => none
  | fuel + 1, room, s => do
    match ← s.variant? with
    | ("Empty", none) => return .empty
    | (_, none) => none
    | (tag, some x) =>
      let room ← openLevel? room
      match tag with
      | "Empty" => if Source.isUnit (some x) then return .empty else none
      | "Bool" => return .bool (← x.bool?)
      | "Int" =>
        return .int (Int64.ofInt (← x.int? Int64.minValue.toInt Int64.maxValue.toInt))
      | "Float" => return .float (← x.float?)
      | "String" => return .text (← x.text?)
      | "Error" => return .error (← CellError.ofSource? room x)
      | "Array" =>
        match x with
        | .array items =>
          let room ← openLevel? room
          return .array (← items.mapM (ofSource? fuel room))
        | _ => none
      | _ => none

end Value

/-- A 32-bit index. -/
def index? (s : Source) : Option UInt32 :=
  (s.int? 0 (UInt32.size - 1)).map fun n => UInt32.ofNat n.toNat

namespace Address

def toJson (a : Address) : Json :=
  .object [("row", .int a.row.toNat), ("col", .int a.col.toNat)]

def ofSource? (room : Nat) (s : Source) : Option Address := do
  let _ ← openLevel? room
  match ← s.fields? ["row", "col"] with
  | [some row, some col] => return ⟨← index? row, ← index? col⟩
  | _ => none

end Address

namespace Reference

def toJson (r : Reference) : Json :=
  .object [("addr", r.address.toJson), ("row_absolute", .bool r.rowPinned),
    ("col_absolute", .bool r.colPinned)]

def ofSource? (room : Nat) (s : Source) : Option Reference := do
  let room ← openLevel? room
  match ← s.fields? ["addr", "row_absolute", "col_absolute"] with
  | [some address, some row, some col] =>
    return ⟨← Address.ofSource? room address, ← row.bool?, ← col.bool?⟩
  | _ => none

end Reference

namespace RangeRef

def toJson (r : RangeRef) : Json :=
  .object [("start", r.first.toJson), ("end", r.last.toJson)]

def ofSource? (room : Nat) (s : Source) : Option RangeRef := do
  let room ← openLevel? room
  match ← s.fields? ["start", "end"] with
  | [some first, some last] =>
    return ⟨← Reference.ofSource? room first, ← Reference.ofSource? room last⟩
  | _ => none

end RangeRef

end Spreadsheet
