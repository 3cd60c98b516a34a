import Spreadsheet.Area
import Spreadsheet.Value

/-!
# Expressions

The tree of a formula. A range is read through its corners, so a tree that was not made by the
reader of formulas may hold them in any order.
-/

namespace Spreadsheet.Formula

inductive UnaryOp where
  | negate
  | plus
deriving DecidableEq, Repr

inductive BinaryOp where
  | add
  | subtract
  | multiply
  | divide
  | power
  | concat
  | equal
  | notEqual
  | lessThan
  | lessOrEqual
  | greaterThan
  | greaterOrEqual
deriving DecidableEq, Repr

inductive Expr where
  | literal (v : Value)
  | cell (r : Reference)
  | range (r : RangeRef)
  | unary (op : UnaryOp) (operand : Expr)
  | binary (op : BinaryOp) (left right : Expr)
  /-- A call; the name is kept as it was written. -/
  | call (name : String) (args : List Expr)
deriving Inhabited

/-- A place in the grid that a formula names. -/
inductive Dependency where
  | cell (r : Reference)
  | range (r : RangeRef)
deriving DecidableEq, Repr

def Dependency.toA1 : Dependency → String
  | .cell r => r.toA1
  | .range r => r.toA1

namespace Expr

mutual

/-- The cells and ranges an expression names, in the order of the text. -/
def references : Expr → List Dependency
  | .literal _ => []
  | .cell r => [.cell r]
  | .range r => [.range r]
  | .unary _ e => e.references
  | .binary _ l r => l.references ++ r.references
  | .call _ args => referencesOf args

/-- The cells and ranges that arguments name, from left to right. -/
def referencesOf : List Expr → List Dependency
  | [] => []
  | e :: es => e.references ++ referencesOf es

end

mutual

/-- The height of the tree: leaves have none, and a call counts above its tallest argument. -/
def height : Expr → Nat
  | .literal _ | .cell _ | .range _ => 0
  | .unary _ e => e.height + 1
  | .binary _ l r => max l.height r.height + 1
  | .call _ args => heightOf args + 1

/-- The height of the tallest argument. -/
def heightOf : List Expr → Nat
  | [] => 0
  | e :: es => max e.height (heightOf es)

end

end Expr

end Spreadsheet.Formula
