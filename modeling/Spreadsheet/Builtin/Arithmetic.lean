import Spreadsheet.FunctionDef

/-!
# Arithmetic

The five operations that operators and functions share. Sums, differences, products and powers of
integers are exact as long as the result is a 64-bit integer; otherwise, and for all other numbers,
they are computed on doubles. A quotient is always a double.
-/

namespace Spreadsheet.Builtin

open Number

/-- A strict operation on two values. -/
def strict2 (body : Value → Value → Except CellError Value) (a b : Value) : Value :=
  match Value.firstError? [a, b] with
  | some e => .error e
  | none => .ofExcept (body a b)

/-- The exact result of an operation on two integers, if it fits. -/
def whole? (op : Int → Int → Int) (a b : Value) : Option Int64 := do
  int64? (op (← a.toInteger?).toInt (← b.toInteger?).toInt)

/-- An operation that is exact where it can be. -/
def exact (op : Int → Int → Int) (real : Float → Float → Float) (a b : Value) :
    Except CellError Value :=
  match whole? op a b with
  | some n => return .int n
  | none => return .finite (real (← a.toNumber) (← b.toNumber))

def add : Value → Value → Value :=
  strict2 (exact (· + ·) (· + ·))

def subtract : Value → Value → Value :=
  strict2 (exact (· - ·) (· - ·))

def multiply : Value → Value → Value :=
  strict2 (exact (· * ·) (· * ·))

/-- The quotient as a double; zero divides nothing. -/
def divide : Value → Value → Value :=
  strict2 fun a b => do
    let x ← a.toNumber
    let y ← b.toNumber
    if y == 0.0 then
      throw .divZero
    return .finite (x / y)

/-- The exact power of two integers, if the exponent is a 32-bit word and the result fits. -/
def wholePower? (a b : Value) : Option Int64 := do
  let base ← a.toInteger?
  let exponent ← b.toInteger?
  if 0 ≤ exponent.toInt ∧ exponent.toInt < UInt32.size then
    int64Pow? base exponent.toInt.toNat
  else
    none

/-- The power. Zero to a negative power divides by zero, and zero to the power of zero is no
number, like a root of a negative number. -/
def power : Value → Value → Value :=
  strict2 fun a b => do
    let x ← a.toNumber
    let y ← b.toNumber
    if x == 0.0 && y < 0.0 then
      throw .divZero
    if x == 0.0 && y == 0.0 then
      throw .num
    match wholePower? a b with
    | some n => return .int n
    | none => return .finite (Float.pow x y)

/-- The function of an operation on two values: it takes the first two arguments. -/
def ofOperation (op : Value → Value → Value) : Implementation :=
  fun _ args => op (arg args 0) (arg args 1)

end Spreadsheet.Builtin
