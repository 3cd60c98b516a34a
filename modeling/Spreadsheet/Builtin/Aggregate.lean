import Spreadsheet.FunctionDef

/-!
# Aggregates

Functions of all numbers among the scalars of their arguments. Texts, booleans and empty cells
count for nothing, except that `counta` counts every cell that is not empty.
-/

namespace Spreadsheet.Builtin

open Number

/-- A running total: exact while it is an integer that fits, a double from then on. -/
inductive Total where
  | whole (n : Int64)
  | real (x : Float)

namespace Total

/-- Takes one more scalar into the total. -/
def step (op : Int → Int → Int) (real : Float → Float → Float) (t : Total) (v : Value) : Total :=
  match t, v with
  | .whole m, .int n =>
    match int64? (op m.toInt n.toInt) with
    | some k => .whole k
    | none => .real (real (ofInt64 m) (ofInt64 n))
  | .whole m, .float x => .real (real (ofInt64 m) x)
  | .real x, .int n => .real (real x (ofInt64 n))
  | .real x, .float y => .real (real x y)
  | t, _ => t

def toValue : Total → Value
  | .whole n => .int n
  | .real x => .finite x

end Total

def sum : Implementation :=
  strict fun _ args =>
    return ((Value.leavesOf args).foldl (Total.step (· + ·) (· + ·)) (.whole 0)).toValue

/-- The product of the numbers; without any it is zero. -/
def product : Implementation :=
  strict fun _ args =>
    let leaves := Value.leavesOf args
    if leaves.any Value.isNumber then
      return (leaves.foldl (Total.step (· * ·) (· * ·)) (.whole 1)).toValue
    else
      return .int 0

/-- The arithmetic mean, computed on doubles; without numbers there is none. -/
def average : Implementation :=
  strict fun _ args =>
    match (Value.leavesOf args).filterMap Value.number? with
    | [] => throw .divZero
    | xs => return .finite (xs.foldl (· + ·) 0.0 / Float.ofNat xs.length)

def count : Implementation :=
  strict fun _ args =>
    return .int (Int64.ofNat ((Value.leavesOf args).countP Value.isNumber))

def counta : Implementation :=
  strict fun _ args =>
    return .int (Int64.ofNat ((Value.leavesOf args).countP fun v => !(v matches .empty)))

/-- The first scalar that none after it beats, with its number. -/
def best? (better : Float → Float → Bool) (vs : List Value) : Option (Float × Value) :=
  vs.foldl
    (fun best v =>
      match v.number?, best with
      | none, _ => best
      | some x, none => some (x, v)
      | some x, some (y, _) => if better x y then some (x, v) else best)
    none

/-- The best number by a comparison of doubles, zero without any. -/
def extreme (better : Float → Float → Bool) : Implementation :=
  strict fun _ args =>
    match best? better (Value.leavesOf args) with
    | some (_, v) => return v
    | none => return .int 0

def maximum : Implementation :=
  extreme fun x y => y < x

def minimum : Implementation :=
  extreme fun x y => x < y

end Spreadsheet.Builtin
