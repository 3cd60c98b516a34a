import Spreadsheet.Json.Source
import Spreadsheet.Text.Blank

/-!
# Reading JSON texts

The grammar of JSON, without extensions: four blank characters, no leading zeros, no control
characters in strings, nothing behind the value. A text that breaks it has no structure at all, so
the reader says only that, not where.
-/

namespace Spreadsheet.Json

open Text Number

/-- The blanks of JSON. -/
def skipBlanks (cs : List Char) : List Char :=
  cs.dropWhile fun c => c == ' ' || c == '\n' || c == '\t' || c == '\r'

/-! ## Strings -/

/-- A character of a string, or a 16-bit code that an escape names. -/
inductive CodeUnit where
  | char (c : Char)
  | code (n : Nat)

/-- The value of a hexadecimal digit. -/
def hexValue? (c : Char) : Option Nat :=
  if isDigit c then some (digitValue c)
  else if 'a' ≤ c ∧ c ≤ 'f' then some (c.toNat - 'a'.toNat + 10)
  else if 'A' ≤ c ∧ c ≤ 'F' then some (c.toNat - 'A'.toNat + 10)
  else none

/-- The value of four hexadecimal digits. -/
def hexCode? (a b c d : Char) : Option Nat := do
  return (((← hexValue? a) * 16 + (← hexValue? b)) * 16 + (← hexValue? c)) * 16 + (← hexValue? d)

/-- What a single letter behind a backslash stands for. -/
def escaped? : Char → Option Char
  | '"' => some '"'
  | '\\' => some '\\'
  | '/' => some '/'
  | 'b' => some '\x08'
  | 'f' => some '\x0c'
  | 'n' => some '\n'
  | 'r' => some '\r'
  | 't' => some '\t'
  | _ => none

/-- The units of a string up to its closing quote, and what follows it. -/
def codeUnits? : List Char → Option (List CodeUnit × List Char)
  | [] => none
  | '"' :: cs => some ([], cs)
  | '\\' :: 'u' :: a :: b :: c :: d :: cs =>
    match hexCode? a b c d with
    | none => none
    | some n => (codeUnits? cs).map fun (us, rest) => (.code n :: us, rest)
  | '\\' :: e :: cs =>
    match escaped? e with
    | none => none
    | some c => (codeUnits? cs).map fun (us, rest) => (.char c :: us, rest)
  | c :: cs =>
    if c.toNat < 0x20 || c == '\\' then none
    else (codeUnits? cs).map fun (us, rest) => (.char c :: us, rest)

/-- The characters that units spell. A code from the first half of a pair needs one from the second
half behind it, and that half cannot stand alone. -/
def joinUnits? : List CodeUnit → Option (List Char)
  | [] => some []
  | .char c :: us => (joinUnits? us).map (c :: ·)
  | .code n :: us =>
    if 0xDC00 ≤ n ∧ n < 0xE000 then
      none
    else if 0xD800 ≤ n ∧ n < 0xDC00 then
      match us with
      | .code k :: us =>
        if 0xDC00 ≤ k ∧ k < 0xE000 then
          (joinUnits? us).map (Char.ofNat (0x10000 + (n - 0xD800) * 0x400 + (k - 0xDC00)) :: ·)
        else
          none
      | _ => none
    else
      (joinUnits? us).map (Char.ofNat n :: ·)

/-- A string behind its opening quote. -/
def readString? (cs : List Char) : Option (Option String × List Char) := do
  let (us, rest) ← codeUnits? cs
  return ((joinUnits? us).map String.ofList, rest)

/-! ## Numbers -/

/-- The digits of a whole part: a zero alone, or digits that start with another one. -/
def readWhole? : List Char → Option (List Char × List Char)
  | '0' :: cs => some (['0'], cs)
  | cs =>
    let digits := cs.takeWhile isDigit
    if digits = [] then none else some (digits, cs.dropWhile isDigit)

/-- A point with the digits behind it, of which there is at least one. -/
def readFraction? : List Char → Option (Option (List Char) × List Char)
  | '.' :: cs =>
    let digits := cs.takeWhile isDigit
    if digits = [] then none else some (some digits, cs.dropWhile isDigit)
  | cs => some (none, cs)

/-- A power of ten. -/
def readPower? (cs : List Char) : Option (Option (Bool × List Char) × List Char) :=
  match cs with
  | 'e' :: cs | 'E' :: cs =>
    let (negative, cs) := splitSign cs
    let digits := cs.takeWhile isDigit
    if digits = [] then none else some (some (negative, digits), cs.dropWhile isDigit)
  | cs => some (none, cs)

def readNumeral? (cs : List Char) : Option (Numeral × List Char) := do
  let (negative, cs) := match cs with
    | '-' :: cs => (true, cs)
    | cs => (false, cs)
  let (whole, cs) ← readWhole? cs
  let (fraction, cs) ← readFraction? cs
  let (power, cs) ← readPower? cs
  return (⟨negative, whole, fraction, power⟩, cs)

/-! ## Values -/

mutual

/-- A value and what follows it. Each call but the first comes behind a character that was taken,
so the length of the text bounds the recursion. -/
def readValue? : Nat → List Char → Option (Source × List Char)
  | 0, _ => none
  | fuel + 1, cs =>
    match skipBlanks cs with
    | 'n' :: 'u' :: 'l' :: 'l' :: cs => some (.null, cs)
    | 't' :: 'r' :: 'u' :: 'e' :: cs => some (.bool true, cs)
    | 'f' :: 'a' :: 'l' :: 's' :: 'e' :: cs => some (.bool false, cs)
    | '"' :: cs => do
      let (s, cs) ← readString? cs
      return (.text s, cs)
    | '[' :: cs =>
      match skipBlanks cs with
      | ']' :: cs => some (.array [], cs)
      | cs => do
        let (x, cs) ← readValue? fuel cs
        let (xs, cs) ← readItems? fuel cs
        return (.array (x :: xs), cs)
    | '{' :: cs =>
      match skipBlanks cs with
      | '}' :: cs => some (.object [], cs)
      | cs => do
        let (m, cs) ← readMember? fuel cs
        let (ms, cs) ← readMembers? fuel cs
        return (.object (m :: ms), cs)
    | cs => do
      let (n, cs) ← readNumeral? cs
      return (.number n, cs)

/-- The items of an array behind the first one. -/
def readItems? : Nat → List Char → Option (List Source × List Char)
  | 0, _ => none
  | fuel + 1, cs =>
    match skipBlanks cs with
    | ']' :: cs => some ([], cs)
    | ',' :: cs => do
      let (x, cs) ← readValue? fuel cs
      let (xs, cs) ← readItems? fuel cs
      return (x :: xs, cs)
    | _ => none

/-- A member of an object. -/
def readMember? : Nat → List Char → Option ((Option String × Source) × List Char)
  | 0, _ => none
  | fuel + 1, cs =>
    match skipBlanks cs with
    | '"' :: cs => do
      let (key, cs) ← readString? cs
      match skipBlanks cs with
      | ':' :: cs =>
        let (x, cs) ← readValue? fuel cs
        return ((key, x), cs)
      | _ => none
    | _ => none

/-- The members of an object behind the first one. -/
def readMembers? : Nat → List Char → Option (List (Option String × Source) × List Char)
  | 0, _ => none
  | fuel + 1, cs =>
    match skipBlanks cs with
    | '}' :: cs => some ([], cs)
    | ',' :: cs => do
      let (m, cs) ← readMember? fuel cs
      let (ms, cs) ← readMembers? fuel cs
      return (m :: ms, cs)
    | _ => none

end

/-- The structure of a JSON text. -/
def Source.ofText? (text : String) : Option Source := do
  let cs := text.toList
  let (x, rest) ← readValue? (cs.length + 1) cs
  if skipBlanks rest = [] then some x else none

/-- The value of a JSON text. -/
def ofText? (text : String) : Option Json := do
  (← Source.ofText? text).toJson? maxLevels

end Spreadsheet.Json
