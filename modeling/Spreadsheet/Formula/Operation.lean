import Spreadsheet.Builtin.Arithmetic
import Spreadsheet.Builtin.Text
import Spreadsheet.Formula.Expr
import Spreadsheet.Value.Order

/-!
# Operators

What the operators do with values. They are strict like functions, and the arithmetic ones are the
operations behind `ADD`, `MINUS`, `MULTIPLY`, `DIVIDE` and `POW`.
-/

namespace Spreadsheet.Formula

open Number

/-- The value with the other sign; an integer stays one if it can. -/
def negated (v : Value) : Except CellError Value := do
  match v.toInteger?.bind fun n => int64? (-n.toInt) with
  | some n => return .int n
  | none => return .finite (-(← v.toNumber))

/-- A plus sign changes nothing, whatever it stands before; it only reduces a list to its value. -/
def UnaryOp.apply (op : UnaryOp) (v : Value) : Value :=
  match Value.firstError? [v] with
  | some e => .error e
  | none => .ofExcept do
    let v ← v.scalar
    match op with
    | .plus => return v
    | .negate => negated v

/-- The texts of both sides, one behind the other. -/
def joined (limits : Limits) : Value → Value → Value :=
  Builtin.strict2 fun a b => do
    let left ← a.toText
    let right ← b.toText
    Builtin.built limits (left.toList ++ right.toList)

/-- Whether the order of both sides passes a test. -/
def ordered (test : Ordering → Bool) : Value → Value → Value :=
  Builtin.strict2 fun a b => return .bool (test (← a.compare b))

def BinaryOp.apply (limits : Limits) : BinaryOp → Value → Value → Value
  | .add => Builtin.add
  | .subtract => Builtin.subtract
  | .multiply => Builtin.multiply
  | .divide => Builtin.divide
  | .power => Builtin.power
  | .concat => joined limits
  | .equal => ordered Ordering.isEq
  | .notEqual => ordered Ordering.isNe
  | .lessThan => ordered Ordering.isLT
  | .lessOrEqual => ordered Ordering.isLE
  | .greaterThan => ordered Ordering.isGT
  | .greaterOrEqual => ordered Ordering.isGE

end Spreadsheet.Formula
