import Spreadsheet.Formula.Expr
import Spreadsheet.Formula.Lexer
import Spreadsheet.Text.Case

/-!
# Reading formulas

From loosest to tightest the operators are comparison, `&`, `+ -`, `* /`, all grouping to the
left, then `^`, grouping to the right, then the signs. A sign binds tighter than `^`, so `-2^2` is
the square of `-2`.

Two things are limited by one number. Parentheses, calls, signs and exponents each open a level,
and no more levels may be open at once than the limit; and the tree may be no taller than the
limit, where a flat chain of operators is as tall as it is long. The reader recurses only where a
level opens, so the levels still allowed bound the recursion.
-/

namespace Spreadsheet.Formula

open Text

/-- An expression with the height of its tree. -/
structure Node where
  expr : Expr
  height : Nat

/-- A reader of a `Node` from the front of a token list. -/
abbrev Reader := List Token → Except FormulaError (Node × List Token)

/-- What can be asked for one level down. -/
inductive Goal where
  | expression
  | power
  | unary
deriving DecidableEq, Repr

namespace Node

def leaf (e : Expr) : Node :=
  ⟨e, 0⟩

/-- A node that must not be too tall. -/
def bounded (limit : Nat) (n : Node) : Except FormulaError Node :=
  if n.height ≤ limit then .ok n else .error .tooDeep

def binary (limit : Nat) (op : BinaryOp) (l r : Node) : Except FormulaError Node :=
  bounded limit ⟨.binary op l.expr r.expr, max l.height r.height + 1⟩

def unary (limit : Nat) (op : UnaryOp) (n : Node) : Except FormulaError Node :=
  bounded limit ⟨.unary op n.expr, n.height + 1⟩

def call (limit : Nat) (name : String) (args : List Node) : Except FormulaError Node :=
  bounded limit ⟨.call name (args.map expr), (args.map height).foldl max 0 + 1⟩

end Node

namespace Parser

/-- The operator at the front. -/
def operator? : List Token → Option Operator
  | ⟨.op o, _, _⟩ :: _ => some o
  | _ => none

def comparison? : Operator → Option BinaryOp
  | .equal => some .equal
  | .notEqual => some .notEqual
  | .less => some .lessThan
  | .lessEqual => some .lessOrEqual
  | .greater => some .greaterThan
  | .greaterEqual => some .greaterOrEqual
  | _ => none

def concat? : Operator → Option BinaryOp
  | .ampersand => some .concat
  | _ => none

def sum? : Operator → Option BinaryOp
  | .plus => some .add
  | .minus => some .subtract
  | _ => none

def product? : Operator → Option BinaryOp
  | .star => some .multiply
  | .slash => some .divide
  | _ => none

def sign? : Operator → Option UnaryOp
  | .minus => some .negate
  | .plus => some .plus
  | _ => none

/-- The rest of a chain that groups to the left. Each link takes at least its operator, so a list
as long as the tokens at hand counts the links. -/
def links (limit : Nat) (op? : Operator → Option BinaryOp) (operand : Reader) :
    List Token → Node → Reader
  | [], left, ts => .ok (left, ts)
  | _ :: fuel, left, ts =>
    match (operator? ts).bind op? with
    | none => .ok (left, ts)
    | some op => do
      let (right, ts) ← operand ts.tail
      let node ← Node.binary limit op left right
      links limit op? operand fuel node ts

/-- Operands with operators between them, grouped to the left. -/
def chain (limit : Nat) (op? : Operator → Option BinaryOp) (operand : Reader) : Reader :=
  fun ts => do
    let (left, ts) ← operand ts
    links limit op? operand ts left ts

/-- A reader one level down, if a level is left. -/
def deeper (inner : Option (Goal → Reader)) (goal : Goal) : Reader :=
  match inner with
  | none => fun _ => .error .tooDeep
  | some read => read goal

/-- The arguments behind the first one, up to the closing parenthesis. Each takes at least its
comma, so a list as long as the tokens at hand counts them. -/
def moreArguments (argument : Reader) :
    List Token → List Token → Except FormulaError (List Node × List Token)
  | [], _ => .error .openArguments
  | _ :: fuel, ts =>
    match ts with
    | ⟨.comma, _, _⟩ :: ts => do
      let (arg, ts) ← argument ts
      let (args, ts) ← moreArguments argument fuel ts
      return (arg :: args, ts)
    | ⟨.rightParen, _, _⟩ :: ts => .ok ([], ts)
    | [] | ⟨.eof, _, _⟩ :: _ => .error .openArguments
    | _ => .error .badArguments

/-- The arguments of a call, behind the opening parenthesis. -/
def arguments (argument : Reader) (ts : List Token) :
    Except FormulaError (List Node × List Token) :=
  match ts with
  | ⟨.rightParen, _, _⟩ :: ts => .ok ([], ts)
  | ts => do
    let (arg, ts) ← argument ts
    let (args, ts) ← moreArguments argument ts ts
    return (arg :: args, ts)

/-- The closing parenthesis of a group. -/
def closing : List Token → Except FormulaError (List Token)
  | ⟨.rightParen, _, _⟩ :: ts => .ok ts
  | [] | ⟨.eof, _, _⟩ :: _ => .error .openParen
  | ⟨_, text, pos⟩ :: _ => .error (.expectedParen text pos)

/-- A name: a call, or a truth value. -/
def named (limit : Nat) (inner : Option (Goal → Reader)) (name : String) : Reader
  | ⟨.leftParen, _, _⟩ :: ts =>
    match inner with
    | none => .error .tooDeep
    | some read => do
      let (args, ts) ← arguments (read .expression) ts
      let node ← Node.call limit name args
      return (node, ts)
  | ts =>
    if toUpper name = "TRUE" then .ok (.leaf (.literal (.bool true)), ts)
    else if toUpper name = "FALSE" then .ok (.leaf (.literal (.bool false)), ts)
    else .error (.loneName name)

/-- A literal, a reference, a name or a group. -/
def primary (limit : Nat) (inner : Option (Goal → Reader)) : Reader
  | ⟨.number _ (some n), _, _⟩ :: ts => .ok (.leaf (.literal (.int n)), ts)
  | ⟨.number x none, _, _⟩ :: ts => .ok (.leaf (.literal (.float x)), ts)
  | ⟨.text s, _, _⟩ :: ts => .ok (.leaf (.literal (.text s)), ts)
  | ⟨.cell r, _, _⟩ :: ts => .ok (.leaf (.cell r), ts)
  | ⟨.range a b, _, _⟩ :: ts => .ok (.leaf (.range (.ofCorners a b)), ts)
  | ⟨.name s, _, _⟩ :: ts => named limit inner s ts
  | ⟨.leftParen, _, _⟩ :: ts => do
    let (node, ts) ← deeper inner .expression ts
    let ts ← closing ts
    return (node, ts)
  | [] | ⟨.eof, _, _⟩ :: _ => .error .unexpectedEnd
  | ⟨_, text, pos⟩ :: _ => .error (.unexpected text pos)

/-- A primary behind any number of signs. -/
def unary (limit : Nat) (inner : Option (Goal → Reader)) : Reader := fun ts =>
  match (operator? ts).bind sign? with
  | none => primary limit inner ts
  | some op => do
    let (operand, ts) ← deeper inner .unary ts.tail
    let node ← Node.unary limit op operand
    return (node, ts)

/-- A power, its exponent being a power again. -/
def power (limit : Nat) (inner : Option (Goal → Reader)) : Reader := fun ts => do
  let (base, ts) ← unary limit inner ts
  if operator? ts = some .caret then
    let (exponent, ts) ← deeper inner .power ts.tail
    let node ← Node.binary limit .power base exponent
    return (node, ts)
  else
    return (base, ts)

/-- A whole expression: the chains around powers, the loosest outermost. -/
def expression (limit : Nat) (inner : Option (Goal → Reader)) : Reader :=
  chain limit comparison? <| chain limit concat? <| chain limit sum? <| chain limit product? <|
    power limit inner

/-- The reader of a goal, given the readers one level down. -/
def level (limit : Nat) (inner : Option (Goal → Reader)) : Goal → Reader
  | .expression => expression limit inner
  | .power => power limit inner
  | .unary => unary limit inner

/-- The reader of a goal when `room` more levels may be opened. -/
def read (limit : Nat) : (room : Nat) → Goal → Reader
  | 0 => level limit none
  | room + 1 => level limit (some (read limit room))

end Parser

/-- Reads a list of tokens as one expression. -/
def Expr.ofTokens (limit : Nat) (ts : List Token) : Except FormulaError Expr := do
  let (node, rest) ← Parser.read limit limit .expression ts
  match rest with
  | [] | ⟨.eof, _, _⟩ :: _ => return node.expr
  | ⟨_, text, pos⟩ :: _ => throw (.unexpected text pos)

/-- The part of a formula text behind the equals sign, which may be missing. -/
def body (text : String) : List Char :=
  match trimStart text.toList with
  | '=' :: cs => cs
  | cs => cs

/-- Reads the text of a formula. -/
def Expr.ofText (limit : Nat) (text : String) : Except FormulaError Expr := do
  let cs := body text
  if trim cs = [] then
    throw .empty
  Expr.ofTokens limit (← tokensFrom 0 cs)

end Spreadsheet.Formula
