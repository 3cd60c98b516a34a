import Spreadsheet.Text.Blank

/-!
# Whole numbers

Cell integers are 64-bit words whose arithmetic never wraps: an operation computes the exact
integer, and `int64?` says whether it still is a word. The decimal notation of whole numbers, read
and written, stands here too.
-/

namespace Spreadsheet.Number

open Spreadsheet.Text

/-- The word with the given value, if there is one. -/
def int64? (n : Int) : Option Int64 :=
  if Int64.minValue.toInt ≤ n ∧ n ≤ Int64.maxValue.toInt then some (Int64.ofInt n) else none

/-- The smallest value too large for an unsigned 64-bit word. -/
def wordSize : Nat := Nat.pow 2 64

theorem int64?_toInt (n : Int64) : int64? n.toInt = some n := by
  have := n.minValue_le_toInt
  have := n.toInt_le
  simp_all [int64?]

theorem toInt_of_int64? {n : Int} {k : Int64} (h : int64? n = some k) : k.toInt = n := by
  simp only [int64?, Option.ite_none_right_eq_some, Option.some.injEq] at h
  obtain ⟨⟨lower, upper⟩, rfl⟩ := h
  exact Int64.toInt_ofInt_of_le (by simpa using lower) (by
    have : Int64.maxValue.toInt = 2 ^ 63 - 1 := by decide
    omega)

/-- A power that is computed only when it can be a word: past exponent 63 only the bases `-1`, `0`
and `1` have one. -/
def int64Pow? (base : Int64) (exponent : Nat) : Option Int64 :=
  if base.toInt.natAbs ≤ 1 then
    int64? (base.toInt.pow (if exponent < 2 then exponent else 2 + exponent % 2))
  else if exponent < 64 then
    int64? (base.toInt.pow exponent)
  else
    none

/-- The value of a digit. -/
def digitValue (c : Char) : Nat :=
  c.toNat - '0'.toNat

/-- The number a digit string stands for, most significant digit first. -/
def digitsValue (cs : List Char) : Nat :=
  cs.foldl (fun n c => 10 * n + digitValue c) 0

/-- Decimal notation without leading zeros. -/
def decimal (n : Nat) : List Char :=
  Nat.toDigits 10 n

/-- Decimal notation with a minus sign in front of negative numbers. -/
def signedDecimal : Int → List Char
  | .ofNat n => decimal n
  | .negSucc n => '-' :: decimal (n + 1)

/-- Reads a digit string, which must not be empty. -/
def readDigits? (cs : List Char) : Option Nat :=
  if cs ≠ [] ∧ cs.all isDigit then some (digitsValue cs) else none

/-- Reads a signed 64-bit integer: an optional sign, then digits, without blanks. -/
def readInt64? : List Char → Option Int64
  | '-' :: cs => do int64? (-(← readDigits? cs))
  | '+' :: cs => do int64? (← readDigits? cs)
  | cs => do int64? (← readDigits? cs)

/-- Reads an unsigned 64-bit integer: an optional plus sign, then digits, without blanks. -/
def readWord? (cs : List Char) : Option Nat :=
  let digits := match cs with
    | '+' :: rest => rest
    | _ => cs
  (readDigits? digits).filter (· < wordSize)

end Spreadsheet.Number
