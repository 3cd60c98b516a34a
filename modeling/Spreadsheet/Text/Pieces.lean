/-!
# Cutting text at a word

The occurrences of a word in a text, found from left to right without overlap, cut the text into
pieces, one more than there are occurrences.
-/

namespace Spreadsheet.Text

/-- Puts a character in front of the first piece. -/
def consHead (c : Char) : List (List Char) → List (List Char)
  | [] => [[c]]
  | p :: ps => (c :: p) :: ps

/-- The pieces of a text whose first `skip` characters belong to an occurrence. -/
def piecesFrom (word : List Char) : (skip : Nat) → List Char → List (List Char)
  | _, [] => [[]]
  | skip + 1, _ :: cs => piecesFrom word skip cs
  | 0, c :: cs =>
    if word.isPrefixOf (c :: cs) then
      [] :: piecesFrom word (word.length - 1) cs
    else
      consHead c (piecesFrom word 0 cs)

/-- The pieces of a text between the occurrences of a word. -/
def pieces (word text : List Char) : List (List Char) :=
  piecesFrom word 0 text

/-- Joins pieces with one word between them, except for the place with index `n`, where another
word stands. -/
def joinExcept (word other : List Char) : (n : Nat) → List (List Char) → List Char
  | _, [] => []
  | _, [p] => p
  | 0, p :: ps => p ++ other ++ word.intercalate ps
  | n + 1, p :: ps => p ++ word ++ joinExcept word other n ps

end Spreadsheet.Text
