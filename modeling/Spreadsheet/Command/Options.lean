import Spreadsheet.Number.Whole

/-!
# Command options

What the arguments of the command say. They are taken from left to right, and the first that is
wrong, or that asks for help or the version, decides. An option takes its value from the same
argument, or else from the next one, which must not start with a dash.
-/

namespace Spreadsheet.Command

open Number

inductive OutputFormat where
  | table
  | json
deriving DecidableEq, Repr

/-- What the arguments say. -/
structure Options where
  file : Option String := none
  formula : Option String := none
  format : Option OutputFormat := none
  config : Option String := none
  maxRangeCells : Option Nat := none
  maxDepth : Option Nat := none
  maxEvaluations : Option Nat := none
  maxNesting : Option Nat := none
  functions : Bool := false
  verbose : Bool := false

/-- Options that take a value. -/
inductive ValueOption where
  | formula
  | format
  | config
  | maxRangeCells
  | maxDepth
  | maxEvaluations
  | maxNesting
deriving DecidableEq, Repr

/-- Options that stand alone. -/
inductive Switch where
  | functions
  | verbose
  | help
  | version
deriving DecidableEq, Repr

/-- Why the arguments are not taken further. -/
inductive Stop where
  | usage
  | help
  | version
deriving DecidableEq, Repr

def longOption? : String → Option (ValueOption ⊕ Switch)
  | "eval" => some (.inl .formula)
  | "format" => some (.inl .format)
  | "config" => some (.inl .config)
  | "max-range-cells" => some (.inl .maxRangeCells)
  | "max-depth" => some (.inl .maxDepth)
  | "max-evaluations" => some (.inl .maxEvaluations)
  | "max-nesting" => some (.inl .maxNesting)
  | "functions" => some (.inr .functions)
  | "verbose" => some (.inr .verbose)
  | "help" => some (.inr .help)
  | "version" => some (.inr .version)
  | _ => none

def shortOption? : Char → Option (ValueOption ⊕ Switch)
  | 'e' => some (.inl .formula)
  | 'f' => some (.inl .format)
  | 'v' => some (.inr .verbose)
  | 'h' => some (.inr .help)
  | 'V' => some (.inr .version)
  | _ => none

/-- Sets a value that must not be set twice. -/
def once {α : Type} (old : Option α) (new : Option α) : Except Stop (Option α) :=
  match old, new with
  | none, some x => .ok (some x)
  | _, _ => .error .usage

/-- A path; it must not be empty. -/
def path? (text : String) : Option String :=
  if text.isEmpty then none else some text

def format? : String → Option OutputFormat
  | "table" => some .table
  | "json" => some .json
  | _ => none

def count? (text : String) : Option Nat :=
  readWord? text.toList

/-- Gives an option its value. -/
def Options.set (o : Options) (option : ValueOption) (text : String) : Except Stop Options :=
  match option with
  | .formula => return { o with formula := ← once o.formula (some text) }
  | .format => return { o with format := ← once o.format (format? text) }
  | .config => return { o with config := ← once o.config (path? text) }
  | .maxRangeCells => return { o with maxRangeCells := ← once o.maxRangeCells (count? text) }
  | .maxDepth => return { o with maxDepth := ← once o.maxDepth (count? text) }
  | .maxEvaluations => return { o with maxEvaluations := ← once o.maxEvaluations (count? text) }
  | .maxNesting => return { o with maxNesting := ← once o.maxNesting (count? text) }

/-- Turns a switch on, which must not be done twice. -/
def Options.turnOn (o : Options) : Switch → Except Stop Options
  | .functions => if o.functions then .error .usage else .ok { o with functions := true }
  | .verbose => if o.verbose then .error .usage else .ok { o with verbose := true }
  | .help => .error .help
  | .version => .error .version

/-- Takes the one argument that is no option. -/
def Options.setFile (o : Options) (text : String) : Except Stop Options :=
  return { o with file := ← once o.file (path? text) }

/-- What is known after some of the arguments. -/
structure Progress where
  options : Options := {}
  /-- An option whose value is the next argument. -/
  pending : Option ValueOption := none
  /-- Whether a double dash has ended the options. -/
  ended : Bool := false

/-- Refuses to go on while an option waits for its value. -/
def Progress.settle (p : Progress) : Except Stop Unit :=
  if p.pending.isSome then .error .usage else .ok ()

/-- Takes an option with the value written behind it, if there is one. -/
def Progress.option (p : Progress) (option : ValueOption) (value : Option String) :
    Except Stop Progress := do
  p.settle
  match value with
  | some text => return { p with options := ← p.options.set option text }
  | none => return { p with pending := some option }

def Progress.switch (p : Progress) (switch : Switch) : Except Stop Progress := do
  p.settle
  return { p with options := ← p.options.turnOn switch }

/-- An argument behind two dashes, with an optional value behind an equals sign. -/
def Progress.long (p : Progress) (cs : List Char) : Except Stop Progress :=
  let name := String.ofList (cs.takeWhile (· != '='))
  let value := match cs.dropWhile (· != '=') with
    | [] => none
    | _ :: rest => some (String.ofList rest)
  match longOption? name, value with
  | some (.inl option), value => p.option option value
  | some (.inr switch), none => p.switch switch
  | _, _ => .error .usage

/-- The letters behind one dash: switches, up to an option that takes the rest as its value. -/
def Progress.short (p : Progress) : List Char → Except Stop Progress
  | [] => .ok p
  | c :: cs =>
    match shortOption? c with
    | none => .error .usage
    | some (.inr switch) => do (← p.switch switch).short cs
    | some (.inl option) =>
      match cs with
      | [] => p.option option none
      | '=' :: rest => p.option option (some (String.ofList rest))
      | rest => p.option option (some (String.ofList rest))

/-- Takes one argument. -/
def Progress.step (p : Progress) (arg : String) : Except Stop Progress :=
  let plain : Except Stop Progress := do
    p.settle
    return { p with options := ← p.options.setFile arg }
  if p.ended then
    plain
  else
    match arg.toList with
    | ['-', '-'] => .ok { p with ended := true }
    | '-' :: '-' :: cs => p.long cs
    | '-' :: c :: cs => p.short (c :: cs)
    | _ =>
      match p.pending with
      | some option => return { p with options := ← p.options.set option arg, pending := none }
      | none => plain

/-- What a list of arguments says. -/
def Options.ofArgs (args : List String) : Except Stop Options := do
  let p ← args.foldlM Progress.step {}
  p.settle
  return p.options

end Spreadsheet.Command
