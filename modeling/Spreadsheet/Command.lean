import Spreadsheet.Command.Options
import Spreadsheet.Exchange.Limits
import Spreadsheet.Sheet.Document
import Spreadsheet.Sheet.Table

/-!
# The command

One command prints a recalculated sheet, a single formula or the list of functions. What a command
prints and how it exits is a function of its arguments and of the files it may read.
-/

namespace Spreadsheet.Command

/-- What a command leaves behind. -/
structure Outcome where
  code : UInt32 := 0
  output : String := ""
  errors : String := ""

/-- The files a command may read, by path; a path without text cannot be read. -/
abbrev Files := String → Option String

/-- A failure that a command reports in one line. -/
def failure (message : String) : Outcome :=
  { code := 1, errors := "Error: " ++ message ++ "\n" }

def usage : String :=
  "Recalculate spreadsheet grids

Usage: [OPTIONS] [FILE]

Arguments:
  [FILE]  Grid document (JSON with columns, data and styles)

Options:
  -e, --eval <FORMULA>         Evaluate a formula against the grid (or an empty grid)
  -f, --format <FORMAT>        Output format (table, json) [default: table]
      --config <PATH>          JSON file with engine limits
      --max-range-cells <N>    Largest range a formula may read
      --max-depth <N>          Deepest cell-to-cell dependency chain
      --max-evaluations <N>    Most formula cells evaluated per top-level call
      --max-nesting <N>        Deepest expression nesting within one formula
      --functions              List the available functions and exit
  -v, --verbose                Enable verbose output
  -h, --help                   Print help
  -V, --version                Print version
"

def version : String :=
  "0.1.0\n"

/-- The limits of the config file, if one is named. -/
def configuredLimits (files : Files) : Option String → Except Outcome Limits
  | none => .ok {}
  | some path =>
    match files path with
    | none => .error (failure ("Failed to read config: " ++ path))
    | some text =>
      match Limits.ofJsonText? text with
      | none => .error (failure ("Invalid limits config: " ++ path))
      | some limits => .ok limits

/-- The limits that hold: those of the options before those of the file. -/
def Options.limits (o : Options) (configured : Limits) : Limits :=
  { configured with
    maxRangeCells := o.maxRangeCells.getD configured.maxRangeCells
    maxDepth := o.maxDepth.getD configured.maxDepth
    maxEvaluations := o.maxEvaluations.getD configured.maxEvaluations
    maxNesting := o.maxNesting.getD configured.maxNesting }

/-- Ends each line. -/
def unlines (lines : List String) : String :=
  String.join (lines.map (· ++ "\n"))

/-- The functions with their descriptions, sorted by name. -/
def functionList (coloured : Bool) (r : Registry) : List String :=
  r.names.filterMap fun name =>
    (r.find? name).map fun d =>
      Table.paint coloured .yellow (d.signature name) ++ "  " ++ d.description

mutual

/-- A value as JSON: empty cells are null, and errors are the text they show. -/
def valueJson : Value → Json
  | .empty => .null
  | .bool b => .bool b
  | .int n => .int n.toInt
  | .float x => Json.ofFloat x
  | .text s => .text s
  | .error e => .text e.text
  | .array cells => .array (valuesJson cells)

def valuesJson : List Value → List Json
  | [] => []
  | v :: vs => valueJson v :: valuesJson vs

end

/-- The value of a formula that stands in no cell. -/
def printFormula (coloured : Bool) (format : OutputFormat) (s : Sheet) (formula : String) :
    String :=
  let v := s.evaluateFormula formula
  match format with
  | .json => (Json.object [("formula", .text formula), ("value", valueJson v)]).pretty ++ "\n"
  | .table => Table.highlight coloured v v.display ++ "\n"

/-- What is left behind when a table has no lines: the program stops before it prints any. -/
def stopped : Outcome :=
  { code := 101, errors := "Formatting argument out of range\n" }

/-- The values of a sheet. -/
def printSheet (coloured : Bool) (format : OutputFormat) (s : Sheet) : Outcome :=
  let values := s.recalculate
  match format with
  | .json =>
    let printed := Json.object [
      ("columns", .array (s.columns.toList.map .text)),
      ("values", .array (values.map fun row => .array (row.map valueJson)))]
    { output := printed.pretty ++ "\n" }
  | .table =>
    match Table.render? coloured s.columns.toList values (s.formatValues values) with
    | some lines => { output := unlines lines }
    | none => stopped

/-- The sheet of the file that is named, or an empty one. -/
def loadSheet (files : Files) : Option String → Except Outcome Sheet
  | none => .ok {}
  | some path =>
    match (files path).map Sheet.ofJsonText with
    | some (.ok s) => .ok s
    | _ => .error (failure ("Failed to load grid: " ++ path))

/-- Runs a command whose arguments were taken. -/
def execute (coloured : Bool) (files : Files) (o : Options) : Except Outcome Outcome := do
  let limits := o.limits (← configuredLimits files o.config)
  let engine : Engine := { limits }
  if o.functions then
    return { output := unlines (functionList coloured engine.functions) }
  let s := (← loadSheet files o.file).withEngine engine
  let format := o.format.getD .table
  match o.formula, o.file with
  | some formula, _ => return { output := printFormula coloured format s formula }
  | none, some _ => return printSheet coloured format s
  | none, none => return { output := usage }

/-- Runs a command. -/
def run (coloured : Bool) (files : Files) (args : List String) : Outcome :=
  match Options.ofArgs args with
  | .error .help => { output := usage }
  | .error .version => { output := version }
  | .error .usage => { code := 2, errors := "error: invalid arguments\n\n" ++ usage }
  | .ok options =>
    match execute coloured files options with
    | .ok outcome => outcome
    | .error outcome => outcome

end Spreadsheet.Command
