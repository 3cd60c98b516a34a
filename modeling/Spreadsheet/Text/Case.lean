import Spreadsheet.Text.CaseTable

/-!
# Upper and lower case

Full case conversion of text. A character maps on its own, except that a capital sigma at the end
of a word becomes the final form: a cased letter comes before it and none after it, where
characters that case ignores (marks, apostrophes) are passed over on both sides.
-/

namespace Spreadsheet.Text

/-- The code point's image under a run table, if it lies in a run. -/
def mapRuns? (runs : List CaseRun) (n : Nat) : Option Nat :=
  runs.findSome? fun r =>
    if r.first ≤ n && n ≤ r.last && (n - r.first) % r.stride == 0 then
      some ((n : Int) + r.shift).toNat
    else
      none

/-- Looks a character up among the sequences, then among the runs. Most have no other case. -/
def mapCase (sequences : List (Nat × List Nat)) (runs : List CaseRun) (c : Char) : List Char :=
  match sequences.lookup c.toNat with
  | some ns => ns.map Char.ofNat
  | none => [((mapRuns? runs c.toNat).map Char.ofNat).getD c]

/-- The upper case of a character, up to three characters long. -/
def upperChar (c : Char) : List Char :=
  if c.toNat < 0x80 then [c.toUpper] else mapCase upperSequences upperRuns c

/-- The lower case of a character away from its neighbours. -/
def lowerChar (c : Char) : List Char :=
  if c.toNat < 0x80 then [c.toLower] else mapCase lowerSequences lowerRuns c

/-- Membership in a list of inclusive ranges. -/
def inRanges (ranges : List (Nat × Nat)) (c : Char) : Bool :=
  ranges.any fun (first, last) => first ≤ c.toNat && c.toNat ≤ last

/-- Whether the first character that case does not ignore is a cased letter. -/
def meetsCased (cs : List Char) : Bool :=
  match cs.dropWhile (inRanges caseIgnorableRanges) with
  | [] => false
  | c :: _ => inRanges casedRanges c

/-- Lower case of the second part of a text, given the first part in reverse. -/
def lowerAfter (before : List Char) : List Char → List Char
  | [] => []
  | c :: cs =>
    let image :=
      if c == 'Σ' then
        if meetsCased before && !meetsCased cs then ['ς'] else ['σ']
      else
        lowerChar c
    image ++ lowerAfter (c :: before) cs

/-- A text in upper case. -/
def toUpper (s : String) : String :=
  String.ofList (s.toList.flatMap upperChar)

/-- A text in lower case. -/
def toLower (s : String) : String :=
  String.ofList (lowerAfter [] s.toList)

end Spreadsheet.Text
