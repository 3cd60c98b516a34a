/-!
# Limits

What one evaluation may cost. Nothing is measured in time: a limit bounds a count that the input
alone decides.
-/

namespace Spreadsheet

/-- The ceilings of one engine. -/
structure Limits where
  /-- A range of more cells is not read. -/
  maxRangeCells : Nat := 10000
  /-- A longer chain of dependent cells is not followed. -/
  maxDepth : Nat := 100
  /-- No more formula cells are evaluated in one call. -/
  maxEvaluations : Nat := 5000
  /-- Longer texts are not built, in characters. -/
  maxTextLength : Nat := 32767
  /-- A formula with more levels is not read. -/
  maxNesting : Nat := 128
deriving DecidableEq, Repr

end Spreadsheet
