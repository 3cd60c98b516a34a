/-!
# Blank characters

The characters that separate tokens and surround cell text: the 25 code points with the Unicode
property `White_Space`. Core's `Char.isWhitespace` knows four of them.
-/

namespace Spreadsheet.Text

/-- The code points of `White_Space`. -/
def isBlank (c : Char) : Bool :=
  let n := c.toNat
  (0x09 ≤ n && n ≤ 0x0D) || n == 0x20 || n == 0x85 || n == 0xA0 || n == 0x1680
    || (0x2000 ≤ n && n ≤ 0x200A) || n == 0x2028 || n == 0x2029 || n == 0x202F
    || n == 0x205F || n == 0x3000

/-- Drops the blanks in front. -/
def trimStart (cs : List Char) : List Char :=
  cs.dropWhile isBlank

/-- Drops the blanks behind. -/
def trimEnd (cs : List Char) : List Char :=
  (cs.reverse.dropWhile isBlank).reverse

/-- Drops the blanks on both sides; blanks inside stay. -/
def trim (cs : List Char) : List Char :=
  trimEnd (trimStart cs)

/-- An ASCII letter in either case. -/
def isLetter (c : Char) : Bool :=
  ('A' ≤ c && c ≤ 'Z') || ('a' ≤ c && c ≤ 'z')

/-- An ASCII digit; digits of other scripts are ordinary characters here. -/
def isDigit (c : Char) : Bool :=
  '0' ≤ c && c ≤ '9'

/-- A character that continues a word: letter, digit or underscore. -/
def isWordChar (c : Char) : Bool :=
  isLetter c || isDigit c || c == '_'

/-- Equality of keywords: ASCII letters match in either case, all else must be the same. -/
def sameKeyword (a b : String) : Bool :=
  a.toList.map Char.toUpper == b.toList.map Char.toUpper

@[simp] theorem trimStart_nil : trimStart [] = [] := rfl

@[simp] theorem trim_nil : trim [] = [] := rfl

end Spreadsheet.Text
