import Spreadsheet.FunctionDef

/-!
# Logic

All arguments are computed before a function sees them, so an error in the branch that is not
chosen is still the result.
-/

namespace Spreadsheet.Builtin

/-- Chooses between two values; the second one is false when it is left out. -/
def choose : Implementation :=
  strict fun _ args => do
    if ← (arg args 0).toBool then
      return arg args 1
    else
      return args[2]?.getD (.bool false)

/-- The truth values in one argument. In a list, texts and empty cells are passed over, and the
first cell that does not convert makes the whole list fail. -/
def truths : Value → Except CellError (List Bool)
  | .array cells =>
    (Value.leavesOf cells).filter (fun v => !(v matches .empty | .text _)) |>.mapM Value.toBool
  | v => return [← v.toBool]

/-- Joins all truth values; there has to be one. -/
def joined (join : List Bool → Bool) : Implementation :=
  strict fun _ args => do
    let flags := (← args.mapM truths).flatten
    if flags.isEmpty then
      throw .value
    return .bool (join flags)

def allTrue : Implementation :=
  joined fun flags => flags.all (·)

def anyTrue : Implementation :=
  joined fun flags => flags.any (·)

def negation : Implementation :=
  strict fun _ args => return .bool !(← (arg args 0).toBool)

end Spreadsheet.Builtin
