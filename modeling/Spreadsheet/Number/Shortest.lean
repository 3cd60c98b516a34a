import Spreadsheet.Number.Rounding

/-!
# Shortest decimals

Every double is the rounded image of an interval of numbers, its ends included when the
significand is even. The decimals of `d` digits form a grid, and the shortest decimal that reads
back as the double is a point of the coarsest grid that meets the interval: the one next to the
double below or above. If both neighbours lie inside, the nearer wins.
-/

namespace Spreadsheet.Number

/-- What happens to a number exactly between two candidates. -/
inductive Tie where
  /-- To the candidate of larger magnitude. -/
  | up
  /-- To the candidate whose last digit is even. -/
  | even
deriving DecidableEq, Repr

/-- Rounds `numerator / denominator` to the nearest integer. -/
def roundDiv (tie : Tie) (numerator denominator : Nat) : Nat :=
  let quotient := numerator / denominator
  let rest := numerator % denominator
  if denominator < 2 * rest then
    quotient + 1
  else if 2 * rest = denominator then
    match tie with
    | .up => quotient + 1
    | .even => quotient + quotient % 2
  else
    quotient

/-- The integers between which a decimal of a grid reads back as `value`: everything is counted in
the same unit. -/
structure Neighbourhood where
  low : Nat
  value : Nat
  high : Nat
  /-- Whether `low` and `high` themselves read back as the value. -/
  closed : Bool

/-- Whether an integer reads back as the value. -/
def Neighbourhood.accepts (n : Neighbourhood) (x : Nat) : Bool :=
  if n.closed then n.low ≤ x && x ≤ n.high else n.low < x && x < n.high

/-- The multiple of `step` nearest to the value among those that read back as it, divided by
`step`. -/
def Neighbourhood.onGrid? (n : Neighbourhood) (tie : Tie) (step : Nat) : Option Nat :=
  let below := n.value / step
  match n.accepts (below * step), n.accepts ((below + 1) * step) with
  | true, true => some (roundDiv tie n.value step)
  | true, false => some below
  | false, true => some (below + 1)
  | false, false => none

/-- The interval of the double `m · 2 ^ e`, in units of `2 ^ (e - 2)`. The double below a power of
two is half as far away, unless the power is the least normal one. -/
def interval (m : Nat) (e : Int) : Neighbourhood where
  low := if m = Nat.pow 2 52 ∧ -1074 < e then 4 * m - 1 else 4 * m - 2
  value := 4 * m
  high := 4 * m + 2
  closed := m % 2 = 0

/-- The same interval in units where both `2 ^ (e - 2)` and `10 ^ k` are whole. -/
def Neighbourhood.scale (n : Neighbourhood) (factor : Nat) : Neighbourhood :=
  { n with low := n.low * factor, value := n.value * factor, high := n.high * factor }

/-- Digits `d` and exponent `k` such that `d · 10 ^ k` is on the grid of `10 ^ k` and reads back as
`m · 2 ^ e`. -/
def candidate? (tie : Tie) (m : Nat) (e k : Int) : Option Nat :=
  let two := e - 2
  let scaled := (interval m e).scale (Nat.pow 2 two.toNat * Nat.pow 10 (-k).toNat)
  scaled.onGrid? tie (Nat.pow 10 k.toNat * Nat.pow 2 (-two).toNat)

/-- Tries the grids from `10 ^ k` down. -/
def searchGrids (tie : Tie) (m : Nat) (e : Int) : Nat → Int → Nat × Int
  | 0, k => (0, k)
  | fuel + 1, k =>
    match candidate? tie m e k with
    | some d => (d, k)
    | none => searchGrids tie m e fuel (k - 1)

/-- An exponent at or above that of the leading digit of `m · 2 ^ e`. -/
def leadingBound (m : Nat) (e : Int) : Int :=
  (m.log2 + 1 + e) * 30103 / 100000 + 1

/-- The digits and the exponent of the shortest decimal that reads back as `m · 2 ^ e`. Twenty
grids below the leading digit are finer than any interval. -/
def shortest (tie : Tie) (m : Nat) (e : Int) : Nat × Int :=
  searchGrids tie m e 24 (leadingBound m e)

end Spreadsheet.Number
