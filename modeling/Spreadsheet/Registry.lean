import Spreadsheet.FunctionDef
import Spreadsheet.Text.Case

/-!
# Function tables

A table maps names to functions. Names are kept in upper case and asked for in any case; a name
that is entered again replaces the older function.
-/

namespace Spreadsheet

/-- Functions by name, each name once and in upper case. -/
structure Registry where
  entries : List (String × FunctionDef)

namespace Registry

def empty : Registry :=
  ⟨[]⟩

/-- The function under a name in any case. -/
def find? (r : Registry) (name : String) : Option FunctionDef :=
  r.entries.lookup (Text.toUpper name)

/-- Enters a function, in place of the one that has the name. -/
def register (r : Registry) (name : String) (d : FunctionDef) : Registry :=
  let key := Text.toUpper name
  ⟨r.entries.filter (·.1 ≠ key) ++ [(key, d)]⟩

def size (r : Registry) : Nat :=
  r.entries.length

/-- The names in the order of their code points. -/
def names (r : Registry) : List String :=
  (r.entries.map Prod.fst).mergeSort fun a b => a ≤ b

/-- How a function is called, if it is in the table. -/
def signature? (r : Registry) (name : String) : Option String :=
  (r.find? name).map fun d => d.signature (Text.toUpper name)

/-- A character between quotes in a summary. -/
def escape (c : Char) : List Char :=
  match c with
  | '"' => ['\\', '"']
  | '\\' => ['\\', '\\']
  | '\n' => ['\\', 'n']
  | '\r' => ['\\', 'r']
  | '\t' => ['\\', 't']
  | '\x00' => ['\\', '0']
  | c =>
    if c.toNat < 0x20 || (0x7F ≤ c.toNat && c.toNat < 0xA0) then
      "\\u\x7b".toList ++ Nat.toDigits 16 c.toNat ++ ['}']
    else
      [c]

/-- One line that lists the names, each in quotes. -/
def summary (r : Registry) : String :=
  let quoted := r.names.map fun name =>
    String.ofList ('"' :: name.toList.flatMap escape ++ ['"'])
  "FunctionRegistry \x7b functions: [" ++ ", ".intercalate quoted ++ "] \x7d"

end Registry

end Spreadsheet
