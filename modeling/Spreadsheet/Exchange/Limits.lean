import Spreadsheet.Json.Reader
import Spreadsheet.Limits

/-!
# Limits as JSON

A record of 64-bit counts. A count that is left out keeps its default.
-/

namespace Spreadsheet.Limits

open Json Number

/-- The names of the limits, in the order of the fields. -/
def fieldNames : List String :=
  ["max_range_cells", "max_depth", "max_evaluations", "max_text_length", "max_nesting"]

/-- A count, or its default when it is left out. -/
def count? (default : Nat) : Option Source → Option Nat
  | none => some default
  | some s => (s.int? 0 (wordSize - 1)).map Int.toNat

/-- Limits from a JSON text. -/
def ofJsonText? (text : String) : Option Limits := do
  let defaults : Limits := {}
  match ← (← Source.ofText? text).fields? fieldNames with
  | [cells, depth, evaluations, length, nesting] =>
    return {
      maxRangeCells := ← count? defaults.maxRangeCells cells
      maxDepth := ← count? defaults.maxDepth depth
      maxEvaluations := ← count? defaults.maxEvaluations evaluations
      maxTextLength := ← count? defaults.maxTextLength length
      maxNesting := ← count? defaults.maxNesting nesting }
  | _ => none

/-- The limits in the order of the fields. -/
def toList (l : Limits) : List Nat :=
  [l.maxRangeCells, l.maxDepth, l.maxEvaluations, l.maxTextLength, l.maxNesting]

end Spreadsheet.Limits
