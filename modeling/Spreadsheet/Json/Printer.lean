import Spreadsheet.Json.Basic

/-!
# Writing JSON texts

Two layouts: everything in one line without blanks, or one item or member to a line, indented by
two spaces for each level. Strings are written as they are, except for quotes, backslashes and
control characters.
-/

namespace Spreadsheet.Json

open Number

/-- A lower case hexadecimal digit. -/
def hexDigit (n : Nat) : Char :=
  Nat.digitChar n

/-- A character inside quotes. -/
def escape (c : Char) : List Char :=
  match c with
  | '"' => ['\\', '"']
  | '\\' => ['\\', '\\']
  | '\x08' => ['\\', 'b']
  | '\x0c' => ['\\', 'f']
  | '\n' => ['\\', 'n']
  | '\r' => ['\\', 'r']
  | '\t' => ['\\', 't']
  | c =>
    if c.toNat < 0x20 then
      ['\\', 'u', '0', '0', hexDigit (c.toNat / 16), hexDigit (c.toNat % 16)]
    else
      [c]

/-- A string in quotes. -/
def quote (s : String) : String :=
  String.ofList ('"' :: s.toList.flatMap escape ++ ['"'])

/-- The text of a double. -/
def floatText (x : Float) : String :=
  String.ofList (documentFormat.write x)

/-- The text of a number. -/
def intText (n : Int) : String :=
  String.ofList (signedDecimal n)

mutual

/-- A value in one line. -/
def compact : Json → String
  | .null => "null"
  | .bool b => if b then "true" else "false"
  | .int n => intText n
  | .float x => floatText x
  | .text s => quote s
  | .array items => "[" ++ ",".intercalate (compactItems items) ++ "]"
  | .object members => "\x7b" ++ ",".intercalate (compactMembers members) ++ "\x7d"

def compactItems : List Json → List String
  | [] => []
  | j :: js => compact j :: compactItems js

def compactMembers : List (String × Json) → List String
  | [] => []
  | (k, j) :: ms => (quote k ++ ":" ++ compact j) :: compactMembers ms

end

/-- Lines between brackets, indented one level deeper than the brackets; brackets without lines
close at once. -/
def block (opening closing : String) (indent : Nat) (lines : List String) : String :=
  let margin (n : Nat) : String := "\n" ++ String.ofList (List.replicate (2 * n) ' ')
  if lines.isEmpty then
    opening ++ closing
  else
    opening ++ margin (indent + 1) ++ ("," ++ margin (indent + 1)).intercalate lines
      ++ margin indent ++ closing

mutual

/-- A value over several lines, the first of which is already indented. -/
def prettyAt (indent : Nat) : Json → String
  | .null => "null"
  | .bool b => if b then "true" else "false"
  | .int n => intText n
  | .float x => floatText x
  | .text s => quote s
  | .array items => block "[" "]" indent (prettyItems (indent + 1) items)
  | .object members => block "\x7b" "\x7d" indent (prettyMembers (indent + 1) members)

def prettyItems (indent : Nat) : List Json → List String
  | [] => []
  | j :: js => prettyAt indent j :: prettyItems indent js

def prettyMembers (indent : Nat) : List (String × Json) → List String
  | [] => []
  | (k, j) :: ms => (quote k ++ ": " ++ prettyAt indent j) :: prettyMembers indent ms

end

/-- A value over several lines. -/
def pretty (j : Json) : String :=
  prettyAt 0 j

end Spreadsheet.Json
