import Spreadsheet.Builtin.Aggregate
import Spreadsheet.Builtin.Logical
import Spreadsheet.Builtin.Math
import Spreadsheet.Registry
import Spreadsheet.Builtin.Text

/-!
# The standard functions

The table that formulas use unless they are given another one.
-/

namespace Spreadsheet

open Builtin

namespace FunctionDef

/-- A function of two numbers. -/
def ofNumbers (f : Implementation) (description : String) (argNames : List String) : FunctionDef :=
  (fixed [.number, .number] .number f).describe description argNames

/-- A function of all numbers in its arguments. -/
def ofValues (f : Implementation) (description : String) : FunctionDef :=
  (atLeast 1 .range .number f).describe description ["value"]

/-- A function of one number. -/
def ofOneNumber (f : Implementation) (description : String) : FunctionDef :=
  (fixed [.number] .number f).describe description ["number"]

/-- A function of a number and a second one that may be left out. -/
def ofNumberWith (second : String) (f : Implementation) (description : String) : FunctionDef :=
  (between 1 2 [.number, .number] .number f).describe description ["number", second]

/-- A function of one text. -/
def ofText (returns : ReturnType) (f : Implementation) (description : String) : FunctionDef :=
  (fixed [.text] returns f).describe description ["text"]

/-- A function that joins texts. -/
def joining : FunctionDef :=
  (atLeast 1 .any .text Builtin.concat).describe "Join values end to end" ["text"]

end FunctionDef

namespace Registry

open FunctionDef

/-- The standard functions by group: arithmetic, aggregates, mathematics, text, logic. -/
def standardEntries : List (String × FunctionDef) :=
  [
    ("ADD", ofNumbers (ofOperation add) "Sum of two numbers" ["number1", "number2"]),
    ("MINUS", ofNumbers (ofOperation subtract) "Difference of two numbers"
      ["number1", "number2"]),
    ("MULTIPLY", ofNumbers (ofOperation multiply) "Product of two numbers"
      ["number1", "number2"]),
    ("DIVIDE", ofNumbers (ofOperation divide) "Quotient of two numbers" ["dividend", "divisor"]),
    ("POW", ofNumbers (ofOperation Builtin.power) "Number raised to a power"
      ["base", "exponent"]),
    ("SUM", ofValues sum "Sum of the numeric arguments"),
    ("AVERAGE", ofValues average "Arithmetic mean of the numeric arguments"),
    ("COUNT", ofValues count "Number of numeric arguments"),
    ("COUNTA", ofValues counta "Number of non-empty arguments"),
    ("MIN", ofValues minimum "Smallest numeric argument"),
    ("MAX", ofValues maximum "Largest numeric argument"),
    ("PRODUCT", ofValues product "Product of the numeric arguments"),
    ("ABS", ofOneNumber absolute "Absolute value"),
    ("SQRT", ofOneNumber sqrt "Square root"),
    ("INT", ofOneNumber int "Round down to the nearest integer"),
    ("SIGN", ofOneNumber sign "Sign of a number"),
    ("EXP", ofOneNumber exp "e raised to a power"),
    ("LN", ofOneNumber ln "Natural logarithm"),
    ("LOG10", ofOneNumber log10 "Base-10 logarithm"),
    ("SIN", ofOneNumber sin "Sine of an angle in radians"),
    ("COS", ofOneNumber cos "Cosine of an angle in radians"),
    ("TAN", ofOneNumber tan "Tangent of an angle in radians"),
    ("ASIN", ofOneNumber asin "Arcsine in radians"),
    ("ACOS", ofOneNumber acos "Arccosine in radians"),
    ("ATAN", ofOneNumber atan "Arctangent in radians"),
    ("DEGREES", ofOneNumber degrees "Radians to degrees"),
    ("RADIANS", ofOneNumber radians "Degrees to radians"),
    ("FACT", ofOneNumber factorial "Factorial"),
    ("ROUND", ofNumberWith "digits" (rounded .nearest) "Round half away from zero"),
    ("ROUNDUP", ofNumberWith "digits" (rounded .awayFromZero) "Round away from zero"),
    ("ROUNDDOWN", ofNumberWith "digits" (rounded .towardZero) "Round toward zero"),
    ("TRUNC", ofNumberWith "digits" (rounded .towardZero) "Truncate toward zero"),
    ("FLOOR", ofNumberWith "significance" floor "Round down to a multiple of significance"),
    ("CEILING", ofNumberWith "significance" ceiling "Round up to a multiple of significance"),
    ("POWER", ofNumbers (ofOperation Builtin.power) "Number raised to a power"
      ["number", "power"]),
    ("MOD", ofNumbers remainder "Remainder with the sign of the divisor" ["number", "divisor"]),
    ("LOG", ofNumberWith "base" log "Logarithm to a base (default 10)"),
    ("ATAN2", ofNumbers atan2 "Arctangent of the point (x, y)" ["x", "y"]),
    ("PI", (fixed [] .number pi).describe "The constant pi" []),
    ("LEN", ofText .number Builtin.length "Number of characters"),
    ("LEFT", (between 1 2 [.text, .number] .text left).describe "Leading characters"
      ["text", "count"]),
    ("RIGHT", (between 1 2 [.text, .number] .text right).describe "Trailing characters"
      ["text", "count"]),
    ("MID", (fixed [.text, .number, .number] .text middle).describe
      "Characters from a 1-based position" ["text", "start", "count"]),
    ("REPLACE", (fixed [.text, .number, .number, .text] .text Builtin.replace).describe
      "Replace characters at a 1-based position" ["text", "start", "count", "new_text"]),
    ("SUBSTITUTE", (between 3 4 [.text, .text, .text, .number] .text substitute).describe
      "Replace occurrences of a substring" ["text", "old_text", "new_text", "instance"]),
    ("UPPER", ofText .text upper "Convert to uppercase"),
    ("LOWER", ofText .text lower "Convert to lowercase"),
    ("TRIM", ofText .text trimmed "Strip surrounding spaces and collapse inner runs"),
    ("REPT", (fixed [.text, .number] .text repeated).describe "Repeat text a number of times"
      ["text", "times"]),
    ("CONCAT", joining),
    ("CONCATENATE", joining),
    ("TEXTJOIN", (atLeast 3 .any .text joinTexts).describe "Join values with a delimiter"
      ["delimiter", "ignore_empty", "text"]),
    ("IF", (between 2 3 [.logical, .any, .any] .any choose).describe "Choose between two values"
      ["condition", "value_if_true", "value_if_false"]),
    ("AND", (atLeast 1 .logical .logical allTrue).describe "TRUE when every argument is true"
      ["logical"]),
    ("OR", (atLeast 1 .logical .logical anyTrue).describe "TRUE when any argument is true"
      ["logical"]),
    ("NOT", (fixed [.logical] .logical negation).describe "Logical negation" ["logical"])
  ]

/-- The standard functions. -/
def standard : Registry :=
  ⟨standardEntries⟩

end Registry

end Spreadsheet
