import Spreadsheet.Value
import Spreadsheet.Text.Case

/-!
# Comparison

Numbers come before texts and texts before booleans. Texts compare without regard to case, and an
empty cell compares like the zero, the empty text or the false of the other side's kind.
-/

namespace Spreadsheet.Value

open Number

/-- The kinds of scalars, in their order. -/
inductive Kind where
  | number
  | text
  | bool
deriving DecidableEq, Repr

def Kind.rank : Kind → Nat
  | .number => 0
  | .text => 1
  | .bool => 2

/-- The kind of a scalar that is neither empty nor an error. -/
def kind : Value → Kind
  | .text _ => .text
  | .bool _ => .bool
  | _ => .number

/-- What an empty cell stands for beside another value. -/
def blankLike : Value → Value
  | .text _ => .text ""
  | .bool _ => .bool false
  | _ => .int 0

/-- The order of two doubles; NaN has none. -/
def compareFloats? (a b : Float) : Option Ordering :=
  if a < b then some .lt
  else if a == b then some .eq
  else if b < a then some .gt
  else none

/-- The order of two texts, case apart: by code points of their lower case. -/
def compareTexts (a b : String) : Ordering :=
  compare (Text.toLower a) (Text.toLower b)

/-- The order of two scalars of any kind, none of them empty. -/
def compareFilled : Value → Value → Except CellError Ordering
  | .text a, .text b => .ok (compareTexts a b)
  | .bool a, .bool b => .ok (compare a.toNat b.toNat)
  | .int a, .int b => .ok (compare a.toInt b.toInt)
  | a, b =>
    match a.kind, b.kind with
    | .number, .number =>
      match compareFloats? (a.number?.getD 0.0) (b.number?.getD 0.0) with
      | some o => .ok o
      | none => .error .num
    | j, k => .ok (compare j.rank k.rank)

/-- The order of two scalars. -/
def compareScalars : Value → Value → Except CellError Ordering
  | .error e, _ => .error e
  | _, .error e => .error e
  | .empty, .empty => .ok .eq
  | .empty, b => compareFilled b.blankLike b
  | a, .empty => compareFilled a a.blankLike
  | a, b => compareFilled a b

/-- The order of two values, where a list has to hold a single value. -/
def compare (a b : Value) : Except CellError Ordering := do
  compareScalars (← a.scalar) (← b.scalar)

end Spreadsheet.Value
