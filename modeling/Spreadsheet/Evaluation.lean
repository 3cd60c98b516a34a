import Spreadsheet.Formula.Operation
import Spreadsheet.Formula.Parser
import Spreadsheet.Grid
import Spreadsheet.Registry
import Std.Data.HashMap

/-!
# Evaluation

A formula is computed by recursion on its tree, and a cell it names by computing that cell's
formula in turn. A session carries what the recursion has to remember: the cells on the way from
the start to here, so that a cell that meets itself is a cycle; the number of formulas computed,
which is limited; and the values of finished cells, so that no formula is computed twice.

The length of the way is limited too, and that limit is what the recursion runs on: `Cell.value`
takes the number of cells that may still be entered, and the expression that a cell holds is
evaluated with one less. Two errors tell of the way and not of the cell, `#DEPTH!` and `#CALC!`;
they are the only results that are not remembered.

An expression asks for nothing but the values of the cells it names, so its own evaluation is
written for any monad in which cells can be read.
-/

namespace Spreadsheet

open Formula

/-- What does not change during an evaluation. -/
structure Setting where
  grid : Grid
  functions : Registry
  limits : Limits

/-- What an evaluation remembers. -/
structure Session where
  /-- The number of cells on the way. -/
  depth : Nat := 0
  /-- The number of formula cells entered. -/
  evaluations : Nat := 0
  /-- The cells on the way, the latest first. -/
  visiting : List Address := []
  /-- The values of finished formula cells. -/
  memo : Std.HashMap Address Value := {}
  /-- Every look into the grid, the latest first. -/
  lookups : List Address := []

/-- A computation that reads the grid through a session. -/
abbrev Eval := StateM Session

namespace Session

def isVisiting (s : Session) (a : Address) : Bool :=
  s.visiting.contains a

/-- Looks into the grid. -/
def look (g : Grid) (a : Address) : Eval (Option Content) := fun s =>
  (g a, { s with lookups := a :: s.lookups })

/-- Puts a formula cell on the way. -/
def enter (a : Address) (s : Session) : Session :=
  { s with
    visiting := a :: s.visiting
    depth := s.depth + 1
    evaluations := s.evaluations + 1 }

/-- Takes a cell off the way. -/
def leave (a : Address) (s : Session) : Session :=
  { s with visiting := s.visiting.erase a, depth := s.depth - 1 }

/-- Remembers the value of a finished cell, unless it tells of the way. -/
def remember (a : Address) (v : Value) (s : Session) : Session :=
  match v with
  | .error e => if e.isPathDependent then s else { s with memo := s.memo.insert a v }
  | _ => { s with memo := s.memo.insert a v }

/-- Forgets everything but the looks into the grid. -/
def reset (s : Session) : Session :=
  { lookups := s.lookups }

end Session

/-- The value of a finished formula: a list has to be reduced to one value, and nothing counts as
zero. -/
def finalize (v : Value) : Value :=
  match Value.ofExcept v.scalar with
  | .empty => .int 0
  | v => v

/-- The values of all cells between two corners, row by row. An area of too many cells is refused
before the first look. What is not refused is read, as if there were memory for any list. -/
def resolve {m : Type → Type} [Monad m] (maxCells : Nat) (read : Address → m Value)
    (a b : Reference) : m (Except CellError (List Value)) := do
  let area := Area.ofCorners a.address b.address
  if maxCells < area.size then
    return .error .ref
  else
    return .ok (← area.cells.mapM read)

/-- The most members that a list may have. -/
def maxListLength : Nat := Nat.pow 2 63 - 1

/-- Whether no list is long enough for the values of an area that is not refused. The program stops
at such an area before the first look. -/
def Area.overflows (r : Area) (maxCells : Nat) : Bool :=
  r.size ≤ maxCells && maxListLength < r.size

namespace Formula

/-- The error of a call that names no function. -/
def unknownFunction (name : String) : CellError :=
  .malformed ("Unknown function: " ++ Text.toUpper name)

/-- The error of a cell whose text is no formula. -/
def FormulaError.toCellError (e : FormulaError) : CellError :=
  .malformed e.message

namespace Expr

variable {m : Type → Type} [Monad m]

mutual

/-- The value of an expression, given how cells are read. An error on the left of an operator is
the result before the right side is computed, and a call with a wrong number of arguments computes
none of them. -/
def value (w : Setting) (read : Address → m Value) : Expr → m Value
  | .literal v => pure v
  | .cell r => read r.address
  | .range r => do
    match ← resolve w.limits.maxRangeCells read r.first r.last with
    | .ok vs => return .array vs
    | .error e => return .error e
  | .unary op e => do
    let v ← e.value w read
    return op.apply v
  | .binary op l r => do
    let a ← l.value w read
    match a with
    | .error e => return .error e
    | a =>
      let b ← r.value w read
      return op.apply w.limits a b
  | .call name args =>
    match w.functions.find? name with
    | none => pure (.error (unknownFunction name))
    | some f =>
      if f.accepts args.length then do
        let vs ← values w read args
        return f.implementation w.limits vs
      else
        pure (.error .value)

/-- The values of arguments, computed from left to right. -/
def values (w : Setting) (read : Address → m Value) : List Expr → m (List Value)
  | [] => pure []
  | e :: es => do
    let v ← e.value w read
    let vs ← values w read es
    return v :: vs

end

end Expr

end Formula

namespace Cell

/-- The value of a formula cell that is on the way, given how the cells it names are read. -/
def formulaValue {m : Type → Type} [Monad m] (w : Setting) (read : Address → m Value)
    (source : String) : m Value :=
  match Expr.ofText w.limits.maxNesting source with
  | .error e => pure (.error e.toCellError)
  | .ok e => do
    let v ← e.value w read
    return finalize v

/-- Enters a formula cell, computes it and remembers its value. -/
def compute (w : Setting) (read : Address → Eval Value) (a : Address) (source : String) :
    Eval Value := do
  modify (Session.enter a)
  let v ← formulaValue w read source
  modify (Session.leave a)
  modify (Session.remember a v)
  return v

/-- The value of a formula cell: what is remembered, or an error of one of the three guards, or
what the formula gives. `deeper` reads cells one step further on the way, if one is allowed. -/
def guarded (w : Setting) (deeper : Option (Address → Eval Value)) (a : Address)
    (source : String) : Eval Value := do
  let s ← get
  match s.memo[a]? with
  | some v => return v
  | none =>
    if s.isVisiting a then
      return .error .cycle
    else
      match deeper with
      | none => return .error .depth
      | some read =>
        if w.limits.maxEvaluations ≤ s.evaluations then
          return .error .calc
        else
          compute w read a source

/-- The value of a cell, given how formula cells are computed. -/
def valueWith (w : Setting) (deeper : Option (Address → Eval Value)) (a : Address) :
    Eval Value := do
  match ← Session.look w.grid a with
  | none => return .error .ref
  | some .blank => return .empty
  | some (.literal v) => return v
  | some (.formula source) => guarded w deeper a source

/-- The value of a cell when `room` more formula cells may be entered. -/
def value (w : Setting) : (room : Nat) → Address → Eval Value
  | 0 => valueWith w none
  | room + 1 => valueWith w (some (value w room))

end Cell

namespace Session

/-- The number of formula cells that may still be entered on the way. -/
def room (w : Setting) (s : Session) : Nat :=
  w.limits.maxDepth - s.depth

/-- The value of a cell from here. -/
def cellValue (w : Setting) (a : Address) : Eval Value := fun s =>
  Cell.value w (s.room w) a s

/-- The value of an expression from here. -/
def evaluate (w : Setting) (e : Expr) : Eval Value := fun s =>
  e.value w (Cell.value w (s.room w)) s

/-- The value of an expression as a whole formula; the session starts anew behind it. -/
def evaluateRoot (w : Setting) (e : Expr) : Eval Value := do
  let v ← evaluate w e
  modify reset
  return finalize v

/-- The value of a cell as the start of a way; the session starts anew behind it. -/
def evaluateCellRoot (w : Setting) (a : Address) : Eval Value := do
  let v ← cellValue w a
  modify reset
  return v

/-- The cells between two corners from here. -/
def resolveRange (w : Setting) (maxCells : Nat) (a b : Reference) :
    Eval (Except CellError (List Value)) := fun s =>
  resolve maxCells (Cell.value w (s.room w)) a b s

end Session

end Spreadsheet
