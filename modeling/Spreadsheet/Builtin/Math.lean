import Spreadsheet.Builtin.Arithmetic

/-!
# Mathematics

Functions of one or two numbers. An argument outside the domain, like any result that is no finite
number, is `#NUM!`; a division by zero is `#DIV/0!`.
-/

namespace Spreadsheet.Builtin

open Number

/-- A strict function of one number. -/
def ofNumber (f : Float → Except CellError Value) : Implementation :=
  strict fun _ args => do f (← (arg args 0).toNumber)

/-- A function of one number with a double as result. -/
def real (f : Float → Float) : Implementation :=
  ofNumber fun x => return .finite (f x)

/-- A function of one number with a double as result, defined where `domain` holds. -/
def realOn (domain : Float → Bool) (f : Float → Float) : Implementation :=
  ofNumber fun x => if domain x then return .finite (f x) else throw .num

def absolute : Implementation :=
  strict fun _ args => do
    let v := arg args 0
    match v.toInteger?.bind fun n => int64? n.toInt.natAbs with
    | some n => return .int n
    | none => return .finite (← v.toNumber).abs

def sqrt : Implementation :=
  realOn (fun x => !(x < 0.0)) Float.sqrt

/-- The largest whole number not above the argument. -/
def int : Implementation :=
  real (roundWhole .down)

def sign : Implementation :=
  ofNumber fun x => return .int (if 0.0 < x then 1 else if x < 0.0 then -1 else 0)

/-- The domain of logarithms. -/
def isPositive (x : Float) : Bool :=
  0.0 < x

/-- The domain of the inverse sine and cosine. -/
def isUnit (x : Float) : Bool :=
  -1.0 ≤ x && x ≤ 1.0

def exp : Implementation := real Float.exp

def ln : Implementation := realOn isPositive Float.log

def log10 : Implementation := realOn isPositive Float.log10

def sin : Implementation := real Float.sin

def cos : Implementation := real Float.cos

def tan : Implementation := real Float.tan

def asin : Implementation := realOn isUnit Float.asin

def acos : Implementation := realOn isUnit Float.acos

def atan : Implementation := real Float.atan

/-- The double nearest to the ratio of a circle's circumference to its diameter. -/
def piValue : Float := 3.141592653589793

def degrees : Implementation := real fun x => x * (180.0 / piValue)

def radians : Implementation := real fun x => x * (piValue / 180.0)

/-- The constant; arguments are not looked at. -/
def pi : Implementation := fun _ _ => .float piValue

/-- The logarithm to a base, ten when it is left out. -/
def log : Implementation :=
  strict fun _ args => do
    let x ← (arg args 0).toNumber
    let base ← match args[1]? with
      | some v => v.toNumber
      | none => pure 10.0
    if x ≤ 0.0 || base ≤ 0.0 then
      throw .num
    if base == 1.0 then
      throw .divZero
    return .finite (Float.log x / Float.log base)

/-- The angle of a point, given its horizontal coordinate first; the origin has none. -/
def atan2 : Implementation :=
  strict fun _ args => do
    let x ← (arg args 0).toNumber
    let y ← (arg args 1).toNumber
    if x == 0.0 && y == 0.0 then
      throw .divZero
    return .finite (Float.atan2 y x)

/-- The product of the integers up to `n`, while it is a 64-bit integer. -/
def wholeFactorial? : Nat → Option Int64
  | 0 => some 1
  | n + 1 => do int64? ((← wholeFactorial? n).toInt * (n + 1))

/-- The product of the integers up to `n`, each partial product rounded. -/
def realFactorial : Nat → Float
  | 0 => 1.0
  | n + 1 => realFactorial n * Float.ofNat (n + 1)

/-- The factorial of the whole part, as long as a double can hold it. -/
def factorial : Implementation :=
  ofNumber fun x =>
    if 0.0 ≤ x && x ≤ 170.0 then
      let n := (wholePart x).toNat
      match wholeFactorial? n with
      | some k => return .int k
      | none => return .finite (realFactorial n)
    else
      throw .num

/-- Rounds at a decimal place: the number is scaled by a power of ten, rounded to a whole number
and scaled back. A number that leaves the doubles when it is scaled has no such place and stays. -/
def rounded (d : Direction) : Implementation :=
  strict fun _ args => do
    let x ← (arg args 0).toNumber
    let places ← (arg args 1).toCount
    let factor := powBySquaring 10.0 (min places.natAbs 308)
    if 0 ≤ places then
      let scaled := x * factor
      if scaled.isFinite then
        return .finite (roundWhole d scaled / factor)
      else
        return .finite x
    else
      return .finite (roundWhole d (x / factor) * factor)

/-- The number and the step of a rounding to multiples; the step is one when it is left out. -/
def multipleArgs (args : List Value) : Except CellError (Float × Float) := do
  let x ← (arg args 0).toNumber
  match args[1]? with
  | some v => return (x, ← v.toNumber)
  | none => return (x, 1.0)

/-- The multiple below. -/
def floor : Implementation :=
  strict fun _ args => do
    let (x, step) ← multipleArgs args
    if step == 0.0 then
      throw .divZero
    if 0.0 < x && step < 0.0 then
      throw .num
    return .finite (roundWhole .down (x / step) * step)

/-- The multiple above; every number is rounded to zero by a step of zero. -/
def ceiling : Implementation :=
  strict fun _ args => do
    let (x, step) ← multipleArgs args
    if step == 0.0 then
      return .int 0
    if 0.0 < x && step < 0.0 then
      throw .num
    return .finite (roundWhole .up (x / step) * step)

/-- The exact remainder of two integers, which has the sign of the divisor. The one quotient that
is no 64-bit integer is left to doubles. -/
def wholeRemainder? (a b : Int64) : Option Int64 :=
  if a = Int64.minValue ∧ b = -1 then none else int64? (a.toInt.fmod b.toInt)

/-- The remainder of a division rounded down. -/
def remainder : Implementation :=
  strict fun _ args => do
    let a := arg args 0
    let b := arg args 1
    let onReals : Except CellError Value := do
      let x ← a.toNumber
      let y ← b.toNumber
      if y == 0.0 then
        throw .divZero
      return .finite (x - y * roundWhole .down (x / y))
    match a.toInteger?, b.toInteger? with
    | some m, some n =>
      if n = 0 then
        throw .divZero
      match wholeRemainder? m n with
      | some r => return .int r
      | none => onReals
    | _, _ => onReals

end Spreadsheet.Builtin
