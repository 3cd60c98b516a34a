import Spreadsheet.Formula.Token
import Spreadsheet.Number.Decimal

/-!
# Splitting text into tokens

The text of a formula is cut from left to right. At each place the blanks are dropped, the first
character decides what kind of token starts there, and a scanner for that kind says how many
further characters belong to it. A token therefore has at least one character, and its text is cut
out of the input, never composed.

Words need the most care. What has the shape of a cell is a reference, unless the next character
that is not blank opens a parenthesis: then it is the name of a function, as in `LOG10(2)`. A
reference with a colon right behind it goes on to a second one.
-/

namespace Spreadsheet.Formula

open Text Number

/-- A kind of token and the number of characters that belong to it behind the first. -/
structure Scan where
  kind : TokenKind
  more : Nat

/-- A fault and its distance from the start of the token. -/
structure Fault where
  offset : Nat
  cause : LexCause

/-- The first character that is not blank. -/
def nextSignificant? (cs : List Char) : Option Char :=
  cs.find? (!isBlank ·)

namespace Scan

/-- The text a string literal stands for, and the number of characters up to its closing quote,
given what follows the opening one. A quote is written twice or behind a backslash; a backslash
before a character that it does not change stands for itself. -/
def stringBody? : List Char → Option (List Char × Nat)
  | [] => none
  | '"' :: '"' :: cs => (stringBody? cs).map fun (t, n) => ('"' :: t, n + 2)
  | '"' :: _ => some ([], 1)
  | '\\' :: '"' :: cs => (stringBody? cs).map fun (t, n) => ('"' :: t, n + 2)
  | '\\' :: '\\' :: cs => (stringBody? cs).map fun (t, n) => ('\\' :: t, n + 2)
  | '\\' :: 'n' :: cs => (stringBody? cs).map fun (t, n) => ('\n' :: t, n + 2)
  | '\\' :: 't' :: cs => (stringBody? cs).map fun (t, n) => ('\t' :: t, n + 2)
  | '\\' :: 'r' :: cs => (stringBody? cs).map fun (t, n) => ('\r' :: t, n + 2)
  | c :: cs => (stringBody? cs).map fun (t, n) => (c :: t, n + 1)

/-- A string literal, behind its opening quote. -/
def string (cs : List Char) : Except Fault Scan :=
  match stringBody? cs with
  | some (t, n) => .ok ⟨.text (String.ofList t), n⟩
  | none => .error ⟨0, .openString⟩

/-- The number of characters that can belong to a number: digits, one point before the power of
ten, and one power of ten with its sign. -/
def numberLength (seenPoint seenPower : Bool) : List Char → Nat
  | [] => 0
  | c :: cs =>
    if isDigit c then
      numberLength seenPoint seenPower cs + 1
    else if c == '.' && !seenPoint && !seenPower then
      numberLength true seenPower cs + 1
    else if (c == 'e' || c == 'E') && !seenPower then
      match cs with
      | '+' :: cs | '-' :: cs => numberLength seenPoint true cs + 2
      | cs => numberLength seenPoint true cs + 1
    else
      0

/-- A number. It is an integer when there are only digits in it and they fit a word. -/
def number (cs : List Char) : Except Fault Scan :=
  let n := numberLength false false cs
  let text := cs.take n
  match readFloat? text with
  | some value => .ok ⟨.number value (if text.all isDigit then readInt64? text else none), n - 1⟩
  | none => .error ⟨0, .badNumber (String.ofList text)⟩

/-- The length of `$? letters $? digits` at the front, if no further word character follows. -/
def cellLength? (cs : List Char) : Option Nat :=
  let (colPinned, rest) := Reference.splitMark cs
  let letters := rest.takeWhile isLetter
  let (rowPinned, rest) := Reference.splitMark (rest.dropWhile isLetter)
  let digits := rest.takeWhile isDigit
  let goesOn := (rest.dropWhile isDigit).head?.any fun c => isWordChar c || c == '$'
  if letters ≠ [] ∧ digits ≠ [] ∧ goesOn = false then
    some (colPinned.toNat + letters.length + rowPinned.toNat + digits.length)
  else
    none

/-- The reference that the first `n` characters spell, found at a distance from the token. -/
def reference (offset : Nat) (text : List Char) : Except Fault Reference :=
  match Reference.ofChars text with
  | .ok r => .ok r
  | .error e => .error ⟨offset, .badReference (String.ofList text) e⟩

/-- The length of the name at the front: word characters, with spaces between them. -/
def nameLength (cs : List Char) : Nat :=
  let run := cs.takeWhile fun c => isWordChar c || c == ' '
  (run.reverse.dropWhile (· == ' ')).length

/-- A name. It has to be called or be a truth value. -/
def name (cs : List Char) : Except Fault Scan :=
  if cs.head? = some '$' then
    .error ⟨0, .loneMark⟩
  else
    let n := nameLength cs
    let text := String.ofList (cs.take n)
    if nextSignificant? (cs.drop n) = some '(' || sameKeyword text "TRUE"
        || sameKeyword text "FALSE" then
      .ok ⟨.name text, n - 1⟩
    else
      .error ⟨0, .unknownName text⟩

/-- The second corner of a range, behind the colon at `offset - 1`. -/
def corner (first : Reference) (offset : Nat) (cs : List Char) : Except Fault Scan := do
  match cellLength? cs with
  | some n =>
    let last ← reference offset (cs.take n)
    return ⟨.range first last, offset + n - 1⟩
  | none => throw ⟨offset, .halfRange⟩

/-- A word: a name, a cell or a range. -/
def word (cs : List Char) : Except Fault Scan := do
  match cellLength? cs with
  | none => name cs
  | some n =>
    let first ← reference 0 (cs.take n)
    let rest := cs.drop n
    if nextSignificant? rest = some '(' then
      name cs
    else
      match rest with
      | ':' :: rest => corner first (n + 1) rest
      | _ => return ⟨.cell first, n - 1⟩

/-- The token that starts with a character, given what follows it. -/
def token (c : Char) (cs : List Char) : Except Fault Scan :=
  match c, cs with
  | '(', _ => .ok ⟨.leftParen, 0⟩
  | ')', _ => .ok ⟨.rightParen, 0⟩
  | ',', _ => .ok ⟨.comma, 0⟩
  | '+', _ => .ok ⟨.op .plus, 0⟩
  | '-', _ => .ok ⟨.op .minus, 0⟩
  | '*', _ => .ok ⟨.op .star, 0⟩
  | '/', _ => .ok ⟨.op .slash, 0⟩
  | '^', _ => .ok ⟨.op .caret, 0⟩
  | '&', _ => .ok ⟨.op .ampersand, 0⟩
  | '=', _ => .ok ⟨.op .equal, 0⟩
  | '<', '=' :: _ => .ok ⟨.op .lessEqual, 1⟩
  | '<', '>' :: _ => .ok ⟨.op .notEqual, 1⟩
  | '<', _ => .ok ⟨.op .less, 0⟩
  | '>', '=' :: _ => .ok ⟨.op .greaterEqual, 1⟩
  | '>', _ => .ok ⟨.op .greater, 0⟩
  | '"', cs => string cs
  | c, cs =>
    if isDigit c || (c == '.' && cs.head?.any isDigit) then
      number (c :: cs)
    else if c == '$' || c == '_' || isLetter c then
      word (c :: cs)
    else
      .error ⟨0, .strayChar c⟩

end Scan

/-- Splits a text, the first character of which stands at `pos`. -/
def tokensFrom (pos : Nat) (cs : List Char) : Except FormulaError (List Token) :=
  let start := pos + (cs.takeWhile isBlank).length
  match _h : cs.dropWhile isBlank with
  | [] => .ok [⟨.eof, "", start⟩]
  | c :: rest => do
    match Scan.token c rest with
    | .error fault => throw (.lexical (start + fault.offset) fault.cause)
    | .ok scan =>
      let tokens ← tokensFrom (start + 1 + (rest.take scan.more).length) (rest.drop scan.more)
      return ⟨scan.kind, String.ofList (c :: rest.take scan.more), start⟩ :: tokens
termination_by cs.length
decreasing_by
  have := (List.dropWhile_sublist (l := cs) isBlank).length_le
  simp only [_h, List.length_cons] at this
  simp only [List.length_drop]
  omega

/-- The tokens of a formula without its equals sign, an end token last. -/
def tokenize (text : String) : Except FormulaError (List Token) :=
  tokensFrom 0 text.toList

end Spreadsheet.Formula
