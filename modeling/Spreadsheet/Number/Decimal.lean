import Spreadsheet.Number.Rounding

/-!
# Reading decimal numbers

The text of a number is an optional sign, digits with at most one point among or beside them, and
an optional power of ten. It stands for an exact decimal; `Decimal.toFloat` is the double nearest
to that, a tie going to the even significand.
-/

namespace Spreadsheet.Number

open Spreadsheet.Text

/-- The exact number `± coefficient · 10 ^ exponent`. -/
structure Decimal where
  negative : Bool
  coefficient : Nat
  exponent : Int
deriving DecidableEq, Repr

/-- A sign and what follows it; no sign is a plus. -/
def splitSign : List Char → Bool × List Char
  | '-' :: cs => (true, cs)
  | '+' :: cs => (false, cs)
  | cs => (false, cs)

/-- The power of ten at the end of a number: nothing, or `e` with a signed digit string. -/
def readPower? : List Char → Option Int
  | [] => some 0
  | c :: cs =>
    if c == 'e' || c == 'E' then
      let (negative, digits) := splitSign cs
      (readDigits? digits).map fun n => if negative then -(n : Int) else n
    else
      none

/-- Reads a number without sign. There must be a digit before or after the point. -/
def readUnsigned? (negative : Bool) (cs : List Char) : Option Decimal := do
  let whole := cs.takeWhile isDigit
  let rest := cs.dropWhile isDigit
  let (fraction, rest) := match rest with
    | '.' :: rest => (rest.takeWhile isDigit, rest.dropWhile isDigit)
    | _ => ([], rest)
  let coefficient ← readDigits? (whole ++ fraction)
  let power ← readPower? rest
  some ⟨negative, coefficient, power - fraction.length⟩

/-- Reads the text of a number. -/
def readDecimal? (cs : List Char) : Option Decimal :=
  let (negative, cs) := splitSign cs
  readUnsigned? negative cs

/-- Positive infinity. -/
def infinity : Float := 1.0 / 0.0

/-- The double that is not a number. -/
def notANumber : Float := 0.0 / 0.0

/-- The nearest double. A number of at least `10 ^ 310` is infinite and one below `10 ^ -330` is
zero; the powers of ten in between are computed. -/
def Decimal.toFloat (d : Decimal) : Float :=
  let leading := (decimal d.coefficient).length + d.exponent
  let magnitude : Float :=
    if d.coefficient = 0 || leading < -330 then 0.0
    else if 310 < leading then infinity
    else Float.ofScientific d.coefficient (d.exponent < 0) d.exponent.natAbs
  withSign d.negative magnitude

/-- Reads a double: a decimal number or, in any case, one of the words `inf`, `infinity` and
`nan` behind an optional sign. -/
def readFloat? (cs : List Char) : Option Float :=
  match readDecimal? cs with
  | some d => some d.toFloat
  | none =>
    let (negative, word) := splitSign cs
    let word := String.ofList word
    if sameKeyword word "inf" || sameKeyword word "infinity" then
      some (withSign negative infinity)
    else if sameKeyword word "nan" then
      some notANumber
    else
      none

/-- Reads a double and refuses the ones that are no numbers: infinities and NaN. -/
def readFinite? (cs : List Char) : Option Float :=
  (readFloat? cs).filter Float.isFinite

end Spreadsheet.Number
