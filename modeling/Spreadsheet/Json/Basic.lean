import Spreadsheet.Number.Writing

/-!
# JSON values

A JSON value as programs exchange it. Integers are the numbers written without point and power of
ten that fit 64 bits, signed or unsigned; all other numbers are doubles. The members of an object
are a list, so that a writer may fix their order; a reader leaves them sorted by key, each key once.
-/

namespace Spreadsheet

inductive Json where
  | null
  | bool (b : Bool)
  | int (n : Int)
  | float (x : Float)
  | text (s : String)
  | array (items : List Json)
  | object (members : List (String × Json))
deriving Inhabited

namespace Json

/-- A double as JSON; infinities and NaN have no JSON number. -/
def ofFloat (x : Float) : Json :=
  if x.isFinite then .float x else .null

/-- An object of one member. -/
def tagged (tag : String) (j : Json) : Json :=
  .object [(tag, j)]

/-- Enters a member among members sorted by key, in place of one with the same key. -/
def insertMember (key : String) (j : Json) : List (String × Json) → List (String × Json)
  | [] => [(key, j)]
  | (k, i) :: ms =>
    if key < k then (key, j) :: (k, i) :: ms
    else if key = k then (key, j) :: ms
    else (k, i) :: insertMember key j ms

/-- Members sorted by key; of several with one key the last stays. -/
def sortMembers (ms : List (String × Json)) : List (String × Json) :=
  ms.foldl (fun sorted (k, j) => insertMember k j sorted) []

end Json

end Spreadsheet
