import Spreadsheet.Number.Shortest
import Spreadsheet.Number.Decimal

/-!
# Writing doubles

A way of writing doubles is a value of `FloatFormat`: how far the point may stand from the leading
digit, whether whole numbers show a fraction, and which decimal wins a tie. Cells and documents
differ in these and agree on the rest, the shortest digits that read back.
-/

namespace Spreadsheet.Number

open Float.Model.UnpackedFloat (Sign)

/-- The decisions of a notation for doubles. -/
structure FloatFormat where
  tie : Tie
  /-- The exponents of the leading digit that are written with a plain point; all when absent. -/
  positional : Option (Int × Int)
  /-- Whether a whole number is written with `.0`. -/
  showsFraction : Bool

/-- Cells: never a power of ten, whole numbers without fraction, ties upward. -/
def cellFormat : FloatFormat := ⟨.up, none, false⟩

/-- Documents: powers of ten outside `1e-5 … 1e15`, whole numbers with `.0`, ties to even. -/
def documentFormat : FloatFormat := ⟨.even, some (-5, 15), true⟩

/-- Places the point `places` digits from the right, with zeros where digits are missing. -/
def placePoint (digits : List Char) (places : Nat) : List Char :=
  let padded := List.replicate (places + 1 - digits.length) '0' ++ digits
  let whole := padded.take (padded.length - places)
  let fraction := padded.drop (padded.length - places)
  if fraction.isEmpty then whole else whole ++ '.' :: fraction

/-- Writes `digits · 10 ^ exponent` without a power of ten. -/
def positionalText (format : FloatFormat) (digits : List Char) (exponent : Int) : List Char :=
  if 0 ≤ exponent then
    let whole := digits ++ List.replicate exponent.toNat '0'
    if format.showsFraction then whole ++ ['.', '0'] else whole
  else
    placePoint digits (-exponent).toNat

/-- Writes `digits · 10 ^ exponent` with one digit before the point and a signed power of ten. -/
def scientificText (digits : List Char) (exponent : Int) : List Char :=
  let power := exponent + (digits.length - 1)
  let mark := if 0 ≤ power then ['e', '+'] else ['e']
  placePoint digits (digits.length - 1) ++ mark ++ signedDecimal power

/-- Writes a positive finite double. -/
def FloatFormat.magnitude (format : FloatFormat) (m : Nat) (e : Int) : List Char :=
  let (coefficient, exponent) := shortest format.tie m e
  let digits := decimal coefficient
  let leading := exponent + (digits.length - 1)
  match format.positional with
  | none => positionalText format digits exponent
  | some (least, most) =>
    if least ≤ leading ∧ leading ≤ most then
      positionalText format digits exponent
    else
      scientificText digits exponent

/-- A minus sign in front of what is negative, zero included. -/
def signed (s : Sign) (cs : List Char) : List Char :=
  if isNegative s then '-' :: cs else cs

/-- Writes any double. -/
def FloatFormat.write (format : FloatFormat) (x : Float) : List Char :=
  match parts x with
  | .notANumber => "NaN".toList
  | .infinity s => signed s "inf".toList
  | .zero s => signed s (positionalText format ['0'] 0)
  | .finite s m e _ => signed s (format.magnitude m e)

/-- Writes a double with a fixed number of decimal places: the exact binary value rounded, a half
to the even neighbour. -/
def writeFixed (places : Nat) (x : Float) : List Char :=
  match parts x with
  | .notANumber => "NaN".toList
  | .infinity s => signed s "inf".toList
  | .zero s => signed s (placePoint ['0'] places)
  | .finite s m e _ =>
    let scaled := roundDiv .even (m * Nat.pow 2 e.toNat * Nat.pow 10 places) (Nat.pow 2 (-e).toNat)
    signed s (placePoint (decimal scaled) places)

end Spreadsheet.Number
