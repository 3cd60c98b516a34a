import Spreadsheet.Number.Whole

/-!
# Doubles and whole numbers

A finite double is `± m · 2 ^ e`. When `e` is negative the part below the point is `m % 2 ^ -e`,
and each way of rounding to a whole number is a decision on that remainder. Nothing here leaves
exact arithmetic: a rounded magnitude is below `2 ^ 53`, so it is a double again.
-/

namespace Spreadsheet.Number

open Float.Model (UnpackedFloat)
open Float.Model.UnpackedFloat (Sign)

/-- A double as a class and, when finite and not zero, a sign, a positive integer and a power of
two. -/
def parts (x : Float) : UnpackedFloat :=
  x.toModel.unpack

/-- Ways of rounding to a whole number. -/
inductive Direction where
  /-- Drops the part below the point. -/
  | towardZero
  /-- The part below the point counts as a whole. -/
  | awayFromZero
  | down
  | up
  /-- To the nearest whole number, a half away from zero. -/
  | nearest
deriving DecidableEq, Repr

/-- Whether the magnitude grows by one when `rest / unit` is dropped from it. -/
def Direction.carries (d : Direction) (negative : Bool) (rest unit : Nat) : Bool :=
  match d with
  | .towardZero => false
  | .awayFromZero => rest != 0
  | .down => negative && rest != 0
  | .up => !negative && rest != 0
  | .nearest => unit ≤ 2 * rest

/-- The rounded magnitude of `m / unit`. -/
def Direction.magnitude (d : Direction) (negative : Bool) (m unit : Nat) : Nat :=
  m / unit + if d.carries negative (m % unit) unit then 1 else 0

/-- Whether a sign is the minus sign. -/
def isNegative : Sign → Bool
  | .negative => true
  | .positive => false

/-- The double with the given magnitude and sign; the sign of zero is kept. -/
def withSign (negative : Bool) (x : Float) : Float :=
  if negative then -x else x

/-- Rounds to a whole number. A double with `0 ≤ e` is whole, and infinities and NaN stay. -/
def roundWhole (d : Direction) (x : Float) : Float :=
  match parts x with
  | .finite s m e _ =>
    if 0 ≤ e then
      x
    else
      withSign (isNegative s) (Float.ofNat (d.magnitude (isNegative s) m (Nat.pow 2 (-e).toNat)))
  | _ => x

/-- Whether a double is finite and has no part below the point. -/
def isWhole (x : Float) : Bool :=
  match parts x with
  | .finite _ m e _ => 0 ≤ e || m % Nat.pow 2 (-e).toNat == 0
  | .zero _ => true
  | _ => false

/-- The integer left when the part below the point is dropped; zero for infinities and NaN. -/
def wholePart (x : Float) : Int :=
  match parts x with
  | .finite s m e _ =>
    let magnitude := if 0 ≤ e then m * Nat.pow 2 e.toNat else m / Nat.pow 2 (-e).toNat
    if isNegative s then -magnitude else magnitude
  | _ => 0

/-- The nearest double to a 64-bit integer. -/
def ofInt64 (n : Int64) : Float :=
  Float.ofInt n.toInt

/-- The double `base ^ exponent` by repeated squaring, each product rounded. The result is not the
rounded power: scaling by powers of ten depends on the order of the products. -/
def powBySquaring (base : Float) (exponent : Nat) : Float :=
  go base exponent 1.0
where
  go (base : Float) (exponent : Nat) (product : Float) : Float :=
    let product := if exponent % 2 == 1 then product * base else product
    if h : exponent / 2 = 0 then
      product
    else
      go (base * base) (exponent / 2) product
  termination_by exponent
  decreasing_by omega

end Spreadsheet.Number
