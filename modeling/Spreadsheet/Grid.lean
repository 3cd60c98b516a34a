import Spreadsheet.Address
import Spreadsheet.Value.Coercion

/-!
# Grids

A grid says what stands in each cell: nothing, a value, or a formula that has yet to be computed.
What a user types into a cell decides which.
-/

namespace Spreadsheet

open Text Number

/-- What stands in a cell. -/
inductive Content where
  | blank
  | literal (v : Value)
  /-- The text of a formula, with or without its equals sign. -/
  | formula (source : String)
deriving Inhabited

/-- A grid by its cells; an address outside it has no content. -/
abbrev Grid := Address → Option Content

/-- The value a typed text stands for when it is no formula: a truth value, an integer, a number,
or else the text itself with its blanks. -/
def literalOf (raw : String) : Value :=
  let cs := trim raw.toList
  let word := String.ofList cs
  if sameKeyword word "TRUE" then
    .bool true
  else if sameKeyword word "FALSE" then
    .bool false
  else
    match readInt64? cs with
    | some n => .int n
    | none =>
      match readFinite? cs with
      | some x => .float x
      | none => .text raw

/-- What a typed text stands for: blanks are nothing, and an equals sign starts a formula. -/
def Content.ofText (raw : String) : Content :=
  match trim raw.toList with
  | [] => .blank
  | '=' :: cs => .formula (String.ofList ('=' :: cs))
  | _ => .literal (literalOf raw)

/-- The grid without end in which every cell is empty. -/
def Grid.blank : Grid := fun _ => some .blank

end Spreadsheet
