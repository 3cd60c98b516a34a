import Spreadsheet.Command

/-!
# The program

Reads the files that the arguments name, runs the command and prints what it leaves behind.
-/

namespace Spreadsheet.Main

open Command

/-- Whether output is coloured: on a terminal, unless the environment says otherwise. -/
def coloured : IO Bool := do
  let force ← IO.getEnv "CLICOLOR_FORCE"
  if force.isSome && force != some "0" then
    return true
  if (← IO.getEnv "NO_COLOR").isSome then
    return false
  if (← IO.getEnv "CLICOLOR") == some "0" then
    return false
  (← IO.getStdout).isTty

/-- The text of a file, if it can be read. -/
def readFile? (path : String) : IO (Option String) := do
  try
    return some (← IO.FS.readFile path)
  catch _ =>
    return none

/-- The files that options name. -/
def readFiles (o : Options) : IO Files := do
  let paths := o.config.toList ++ o.file.toList
  let texts ← paths.mapM readFile?
  return fun path => (paths.zip texts).lookup path |>.join

end Spreadsheet.Main

open Spreadsheet in
def main (args : List String) : IO UInt32 := do
  let files ← match Command.Options.ofArgs args with
    | .ok options => Main.readFiles options
    | .error _ => pure fun _ => none
  let outcome := Command.run (← Main.coloured) files args
  IO.print outcome.output
  IO.eprint outcome.errors
  return outcome.code
