import Spreadsheet.Formula.Error
import Spreadsheet.Reference

/-!
# Tokens

The words of a formula. A token keeps its text and the position of that text, so the tokens of a
formula tile it: between two of them there is nothing but blanks.
-/

namespace Spreadsheet.Formula

inductive Operator where
  | plus
  | minus
  | star
  | slash
  | caret
  | ampersand
  | equal
  | notEqual
  | less
  | lessEqual
  | greater
  | greaterEqual
deriving DecidableEq, Repr

/-- What a token is. -/
inductive TokenKind where
  /-- A number; `int` is there when it is an integer that fits a word. -/
  | number (value : Float) (int : Option Int64)
  /-- A string literal, by the text it stands for. -/
  | text (s : String)
  /-- The name of a function or of a truth value, as written. -/
  | name (s : String)
  | cell (r : Reference)
  /-- A range by its corners, in the order they were written. -/
  | range (a b : Reference)
  | op (o : Operator)
  | leftParen
  | rightParen
  | comma
  /-- The end of the text. -/
  | eof
deriving DecidableEq

structure Token where
  kind : TokenKind
  text : String
  pos : Nat
deriving DecidableEq

end Spreadsheet.Formula
