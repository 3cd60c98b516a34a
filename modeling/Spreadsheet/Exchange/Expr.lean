import Spreadsheet.Engine
import Spreadsheet.Exchange.Value
import Spreadsheet.Json.Reader

/-!
# Expressions as JSON

The tree of a formula as a variant for each kind of node, and a compiled formula as a record.
-/

namespace Spreadsheet.Formula

open Json

namespace UnaryOp

def tag : UnaryOp → String
  | .negate => "Negate"
  | .plus => "Plus"

def all : List UnaryOp :=
  [.negate, .plus]

end UnaryOp

namespace BinaryOp

def tag : BinaryOp → String
  | .add => "Add"
  | .subtract => "Subtract"
  | .multiply => "Multiply"
  | .divide => "Divide"
  | .power => "Power"
  | .concat => "Concat"
  | .equal => "Equal"
  | .notEqual => "NotEqual"
  | .lessThan => "LessThan"
  | .lessOrEqual => "LessThanOrEqual"
  | .greaterThan => "GreaterThan"
  | .greaterOrEqual => "GreaterThanOrEqual"

def all : List BinaryOp :=
  [.add, .subtract, .multiply, .divide, .power, .concat, .equal, .notEqual, .lessThan,
    .lessOrEqual, .greaterThan, .greaterOrEqual]

end BinaryOp

/-- One of a list of things that are told apart by their tags. -/
def oneOf? {α : Type} (all : List α) (tag : α → String) (room : Nat) (s : Source) : Option α := do
  let (t, payload) ← s.variant?
  if payload.isSome then
    let _ ← openLevel? room
  if Source.isUnit payload then all.find? fun x => tag x = t else none

namespace Expr

mutual

def toJson : Expr → Json
  | .literal v => .tagged "Literal" v.toJson
  | .cell r => .tagged "CellRef" r.toJson
  | .range r => .tagged "RangeRef" r.toJson
  | .unary op e => .tagged "UnaryOp" (.object [("op", .text op.tag), ("expr", e.toJson)])
  | .binary op l r =>
    .tagged "BinaryOp" (.object [("op", .text op.tag), ("left", l.toJson), ("right", r.toJson)])
  | .call name args =>
    .tagged "FunctionCall" (.object [("name", .text name), ("args", .array (toJsonOf args))])

def toJsonOf : List Expr → List Json
  | [] => []
  | e :: es => e.toJson :: toJsonOf es

end

/-- An expression from JSON. The fuel bounds the nodes inside nodes. -/
def ofSource? : (fuel room : Nat) → Source → Option Expr
  | 0, _, _ => none
  | fuel + 1, room, s => do
    match ← s.variant? with
    | (_, none) => none
    | (tag, some x) =>
      let room ← openLevel? room
      match tag with
      | "Literal" => return .literal (← Value.ofSource? (room + 1) room x)
      | "CellRef" => return .cell (← Reference.ofSource? room x)
      | "RangeRef" => return .range (← RangeRef.ofSource? room x)
      | "UnaryOp" =>
        let room ← openLevel? room
        match ← x.fields? ["op", "expr"] with
        | [some op, some e] =>
          return .unary (← oneOf? UnaryOp.all UnaryOp.tag room op) (← ofSource? fuel room e)
        | _ => none
      | "BinaryOp" =>
        let room ← openLevel? room
        match ← x.fields? ["op", "left", "right"] with
        | [some op, some l, some r] =>
          return .binary (← oneOf? BinaryOp.all BinaryOp.tag room op) (← ofSource? fuel room l)
            (← ofSource? fuel room r)
        | _ => none
      | "FunctionCall" =>
        let room ← openLevel? room
        match ← x.fields? ["name", "args"] with
        | [some name, some (.array items)] =>
          let inner ← openLevel? room
          return .call (← name.text?) (← items.mapM (ofSource? fuel inner))
        | _ => none
      | _ => none

/-- An expression from a JSON text. -/
def ofJsonText? (text : String) : Option Expr := do
  Expr.ofSource? (maxLevels + 1) maxLevels (← Source.ofText? text)

end Expr

def Dependency.toJson : Dependency → Json
  | .cell r => .tagged "Cell" r.toJson
  | .range r => .tagged "Range" r.toJson

end Spreadsheet.Formula

namespace Spreadsheet

open Json Formula

def Compiled.toJson (c : Compiled) : Json :=
  .object [("source", .text c.source), ("ast", c.expr.toJson),
    ("dependencies", .array (c.dependencies.map Dependency.toJson))]

end Spreadsheet
