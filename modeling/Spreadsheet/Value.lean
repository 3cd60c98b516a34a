import Spreadsheet.Number.Writing

/-!
# Values

What a cell or a formula can be worth. Errors are values: a formula never fails, it is worth an
error. A range is worth the list of its cells, which may again be lists.

Most functions look only at the scalars in a value, in order; `Value.leaves` lists them. The first
error among them is what an operation on the value is worth.
-/

namespace Spreadsheet

open Number

/-- The errors a formula can be worth. -/
inductive CellError where
  /-- A value of the wrong type or one that does not convert. -/
  | value
  | divZero
  /-- An argument outside a function's domain, or a result that is no finite number. -/
  | num
  /-- A reference outside the grid, or a range of too many cells. -/
  | ref
  /-- A cell that depends on itself. -/
  | cycle
  /-- A chain of dependent cells that is too long. -/
  | depth
  /-- Too many formula cells in one evaluation. -/
  | calc
  /-- A formula that cannot be understood. -/
  | malformed (description : String)
deriving DecidableEq, Repr

namespace CellError

/-- The sign of the error, without a description. -/
def label : CellError → String
  | .value => "#VALUE!"
  | .divZero => "#DIV/0!"
  | .num => "#NUM!"
  | .ref => "#REF!"
  | .cycle => "#CYCLE!"
  | .depth => "#DEPTH!"
  | .calc => "#CALC!"
  | .malformed _ => "#ERROR:"

/-- The text a cell shows. -/
def text : CellError → String
  | .malformed description => "#ERROR: " ++ description
  | e => e.label

/-- Whether the error says how a cell was reached, rather than what is in it. -/
def isPathDependent : CellError → Bool
  | .depth | .calc => true
  | _ => false

end CellError

/-- Values of cells and formulas. -/
inductive Value where
  | empty
  | bool (b : Bool)
  | int (n : Int64)
  | float (x : Float)
  | text (s : String)
  | error (e : CellError)
  /-- The cells of a range, row by row. -/
  | array (cells : List Value)
deriving Inhabited

/-- The text of a double in a cell. Whole numbers below `1e15` and both zeros look like integers;
all others show the shortest digits that read back. -/
def cellNumber (x : Float) : String :=
  if x == 0.0 then
    "0"
  else if isWhole x && x.abs < 1e15 then
    String.ofList (signedDecimal (wholePart x))
  else
    String.ofList (cellFormat.write x)

namespace Value

/-- The text of a boolean in a cell. -/
def boolText (b : Bool) : String :=
  if b then "TRUE" else "FALSE"

/-- The text a cell shows. A list of one value shows that value, any other list is an error. -/
def display : Value → String
  | .empty => ""
  | .bool b => boolText b
  | .int n => String.ofList (signedDecimal n.toInt)
  | .float x => cellNumber x
  | .text s => s
  | .error e => e.text
  | .array [v] => v.display
  | .array _ => CellError.value.text

def isError : Value → Bool
  | .error _ => true
  | _ => false

/-- The number in a number value; text and booleans have none. -/
def number? : Value → Option Float
  | .int n => some (ofInt64 n)
  | .float x => some x
  | _ => none

def isNumber : Value → Bool
  | .int _ | .float _ => true
  | _ => false

/-- The error in an error value. -/
def error? : Value → Option CellError
  | .error e => some e
  | _ => none

mutual

/-- The scalars in a value, from left to right through all lists. -/
def leaves : Value → List Value
  | .array cells => leavesOf cells
  | v => [v]

/-- The scalars in a list of values. -/
def leavesOf : List Value → List Value
  | [] => []
  | v :: vs => v.leaves ++ leavesOf vs

end

/-- The first error among arguments, through all lists. -/
def firstError? (args : List Value) : Option CellError :=
  (leavesOf args).findSome? error?

/-- The value of a list in a place for one value: lists of one value are that value. -/
def scalar : Value → Except CellError Value
  | .array [v] => v.scalar
  | .array _ => .error .value
  | v => .ok v

/-- A value, or the error that took its place. -/
def ofExcept : Except CellError Value → Value
  | .ok v => v
  | .error e => .error e

/-- A finite number; infinities and NaN are errors instead. -/
def finite (x : Float) : Value :=
  if x.isFinite then .float x else .error .num

end Value

end Spreadsheet
