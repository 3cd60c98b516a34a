import Spreadsheet.Address

/-!
# Faults of formula text

Each way in which a text fails to be a formula, with the place where it shows. Positions count
characters from the start of the text that is scanned.
-/

namespace Spreadsheet.Formula

/-- A text that does not fall into tokens. -/
inductive LexCause where
  | strayChar (c : Char)
  | openString
  /-- A power of ten without digits. -/
  | badNumber (text : String)
  /-- A reference with a colon behind it and no reference behind that. -/
  | halfRange
  /-- A dollar sign that starts no reference. -/
  | loneMark
  /-- A reference to a cell no grid can have. -/
  | badReference (text : String) (cause : AddressError)
  | unknownName (name : String)
deriving DecidableEq, Repr

def LexCause.message : LexCause → String
  | .strayChar c => "Unexpected character '" ++ c.toString ++ "'"
  | .openString => "Unterminated string literal"
  | .badNumber text => "Invalid number literal '" ++ text ++ "'"
  | .halfRange => "Expected cell reference after ':'"
  | .loneMark => "Invalid cell reference"
  | .badReference text cause => "Invalid cell reference '" ++ text ++ "': " ++ cause.message
  | .unknownName name => "Unrecognized name '" ++ name ++ "'"

/-- A text that is no formula. -/
inductive FormulaError where
  | lexical (pos : Nat) (cause : LexCause)
  /-- There is nothing behind the equals sign. -/
  | empty
  /-- More levels than the limit allows. -/
  | tooDeep
  | unexpectedEnd
  | unexpected (text : String) (pos : Nat)
  | openParen
  | expectedParen (text : String) (pos : Nat)
  | openArguments
  | badArguments
  /-- A name that is neither called nor a truth value. -/
  | loneName (name : String)
deriving DecidableEq, Repr

def FormulaError.message : FormulaError → String
  | .lexical pos cause => cause.message ++ " at position " ++ toString pos
  | .empty => "Empty formula"
  | .tooDeep => "Formula nested too deeply"
  | .unexpectedEnd => "Unexpected end of input"
  | .unexpected text pos => "Unexpected '" ++ text ++ "' at position " ++ toString pos
  | .openParen => "Missing ')'"
  | .expectedParen text pos =>
    "Expected ')' at position " ++ toString pos ++ ", got '" ++ text ++ "'"
  | .openArguments => "Missing ')' after argument list"
  | .badArguments => "Expected ',' or ')' in argument list"
  | .loneName name => "Unexpected identifier '" ++ name ++ "'"

end Spreadsheet.Formula
