import Spreadsheet.Limits
import Spreadsheet.Value.Coercion

/-!
# Functions

A function of the formula language is called with values that are already computed. It is strict:
an error among its arguments is its result, and only without one does it look at them. What it
computes may again be an error, so bodies are written in `Except CellError`.
-/

namespace Spreadsheet

/-- What a function does with its arguments; the limits bound the texts it may build. A function is
called with the whole session, so it could also ask for the depth, for the number of evaluations or
for the cells on the way. None does, and the type leaves these out. -/
abbrev Implementation := Limits → List Value → Value

/-- The kinds of arguments that a description may name. -/
inductive ParamType where
  | any
  | number
  | logical
  | text
  | range
deriving DecidableEq, Repr

/-- The kinds of results that a description may name. -/
inductive ReturnType where
  | any
  | number
  | logical
  | text
deriving DecidableEq, Repr

/-- A function with what is known about it. Only the argument counts are ever checked. -/
structure FunctionDef where
  minArgs : Nat
  /-- No maximum when absent. -/
  maxArgs : Option Nat
  params : List ParamType
  /-- The kind of all arguments of a function without a maximum. -/
  variadic : Option ParamType
  returns : ReturnType
  description : String
  argNames : List String
  implementation : Implementation

namespace FunctionDef

/-- A function of exactly the given parameters. -/
def fixed (params : List ParamType) (returns : ReturnType) (f : Implementation) : FunctionDef :=
  ⟨params.length, some params.length, params, none, returns, "", [], f⟩

/-- A function of any number of arguments from a least one on. -/
def atLeast (least : Nat) (param : ParamType) (returns : ReturnType) (f : Implementation) :
    FunctionDef :=
  ⟨least, none, [], some param, returns, "", [], f⟩

/-- A function whose last parameters may be left out. -/
def between (least most : Nat) (params : List ParamType) (returns : ReturnType)
    (f : Implementation) : FunctionDef :=
  ⟨least, some most, params, none, returns, "", [], f⟩

/-- Adds a description and the names of the arguments. -/
def describe (d : FunctionDef) (description : String) (argNames : List String) : FunctionDef :=
  { d with description, argNames }

/-- Whether a call may have that many arguments. -/
def accepts (d : FunctionDef) (count : Nat) : Bool :=
  d.minArgs ≤ count && d.maxArgs.all (count ≤ ·)

/-- The call as a user would write it: what may be left out stands in brackets, and dots end a list
without a maximum. -/
def signature (d : FunctionDef) (name : String) : String :=
  let shown := d.argNames.zipIdx.map fun (arg, i) =>
    if i < d.minArgs || d.maxArgs.isNone then arg else "[" ++ arg ++ "]"
  let all := if d.maxArgs.isNone then shown ++ ["..."] else shown
  name ++ "(" ++ ", ".intercalate all ++ ")"

end FunctionDef

namespace Builtin

/-- A strict function: the first error among the arguments, or else what the body gives. -/
def strict (body : Limits → List Value → Except CellError Value) : Implementation :=
  fun limits args =>
    match Value.firstError? args with
    | some e => .error e
    | none => .ofExcept (body limits args)

/-- The argument with an index; one that is left out is empty. -/
def arg (args : List Value) (i : Nat) : Value :=
  args[i]?.getD .empty

end Builtin

end Spreadsheet
