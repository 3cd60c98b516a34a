import Spreadsheet.Builtin.Standard
import Spreadsheet.Evaluation

/-!
# Engines

An engine is a table of functions with limits. It computes formulas against any grid, and each
call starts a session of its own, so no call can see another.
-/

namespace Spreadsheet

open Formula

/-- A formula that was read, with the places it names. -/
structure Compiled where
  source : String
  expr : Expr
  dependencies : List Dependency

structure Engine where
  functions : Registry := .standard
  limits : Limits := {}

namespace Engine

def setting (e : Engine) (g : Grid) : Setting :=
  ⟨g, e.functions, e.limits⟩

/-- Reads a formula and lists what it names. -/
def compile (e : Engine) (text : String) : Except FormulaError Compiled := do
  let expr ← Expr.ofText e.limits.maxNesting text
  return ⟨text, expr, expr.references⟩

/-- The value of an expression as a whole formula. -/
def evaluateExpr (e : Engine) (g : Grid) (expr : Expr) : Eval Value :=
  Session.evaluateRoot (e.setting g) expr

/-- The value of a formula text, together with the session that computed it. -/
def runFormula (e : Engine) (g : Grid) (text : String) : Eval Value :=
  match Expr.ofText e.limits.maxNesting text with
  | .ok expr => e.evaluateExpr g expr
  | .error err => pure (.error err.toCellError)

/-- The value of a cell that starts the way: a formula that names its own cell is a cycle. -/
def runCell (e : Engine) (g : Grid) (a : Address) : Eval Value :=
  Session.evaluateCellRoot (e.setting g) a

/-- The value of a formula text. -/
def evaluateFormula (e : Engine) (g : Grid) (text : String) : Value :=
  (e.runFormula g text {}).1

/-- The value of a cell. -/
def evaluateCell (e : Engine) (g : Grid) (a : Address) : Value :=
  (e.runCell g a {}).1

end Engine

end Spreadsheet
