import Spreadsheet.Proofs.Accepting
import Spreadsheet.Proofs.Origins
import Spreadsheet.Proofs.Tiling

/-!
# The leaves of a formula

A formula names just the cells and ranges that its text names, in the order of the text and as
often as there. The tree of an expression groups the operands, it drops none, moves none and takes
none twice. So its leaves, read off the tree from left to right, are the tokens that stand for a
reference or a value by themselves, read off the text from left to right.

Only a name takes a second look. `TRUE` is a value, but before an opening parenthesis it is the name
of a function like any other, and then no leaf.

Results:
1. `Phrase.references_eq`: the references of a phrase are those of its tokens;
2. `Phrase.literalsIn_kinds`: so are its literals, given what stands behind the phrase;
3. `Expr.derives_of_ofText`: what is read from a text is a phrase of all of its tokens;
4. `dependencies_are_reference_tokens`: both at once for whole texts.
-/

namespace Spreadsheet.Formula

open Text Formula.Parser

/-! ## Tokens that are leaves -/

namespace TokenKind

/-- The place in the grid that a token names, the corners of a range in order. -/
def dependency? : TokenKind → Option Dependency
  | .cell r => some (.cell r)
  | .range a b => some (.range (.ofCorners a b))
  | _ => none

/-- The truth value that a name is in any case. -/
def keyword? (name : String) : Option Value :=
  if toUpper name = "TRUE" then some (.bool true)
  else if toUpper name = "FALSE" then some (.bool false)
  else none

/-- The value that a token stands for, given the kind of the token behind it: a name before an
opening parenthesis is that of a function. -/
def literal? (next : Option TokenKind) : TokenKind → Option Value
  | .number _ (some n) => some (.int n)
  | .number x none => some (.float x)
  | .text s => some (.text s)
  | .name s => if next = some .leftParen then none else keyword? s
  | _ => none

/-- The values that tokens stand for, from left to right. -/
def literalsIn : List TokenKind → List Value
  | [] => []
  | kind :: kinds => (kind.literal? kinds.head?).toList ++ literalsIn kinds

@[simp] theorem literalsIn_op (o : Operator) (kinds : List TokenKind) :
    literalsIn (.op o :: kinds) = literalsIn kinds := rfl

@[simp] theorem literalsIn_leftParen (kinds : List TokenKind) :
    literalsIn (.leftParen :: kinds) = literalsIn kinds := rfl

@[simp] theorem literalsIn_rightParen (kinds : List TokenKind) :
    literalsIn (.rightParen :: kinds) = literalsIn kinds := rfl

@[simp] theorem literalsIn_comma (kinds : List TokenKind) :
    literalsIn (.comma :: kinds) = literalsIn kinds := rfl

@[simp] theorem literalsIn_called (name : String) (kinds : List TokenKind) :
    literalsIn (.name name :: .leftParen :: kinds) = literalsIn kinds := by
  simp [literalsIn, literal?]

end TokenKind

open TokenKind (dependency? keyword? literal? literalsIn literalsIn_op literalsIn_leftParen
  literalsIn_rightParen literalsIn_comma literalsIn_called)

namespace Leaf

variable {kind : TokenKind} {e : Expr}

theorem references_eq (h : Leaf kind e) : e.references = [kind].filterMap dependency? := by
  cases h <;> rfl

theorem literals_eq (h : Leaf kind e) {next : Option TokenKind} (hnext : next ≠ some .leftParen) :
    e.literals = (kind.literal? next).toList := by
  cases h with
  | isTrue h => simp [literal?, keyword?, hnext, h, Expr.literals]
  | isFalse h => simp [literal?, keyword?, hnext, h, Expr.literals]
  | _ => rfl

end Leaf

/-! ## References -/

mutual

/-- The references of a phrase are those of its tokens. -/
theorem Phrase.references_eq {b : Binding} :
    (d : Phrase b) → d.expr.references = d.kinds.filterMap dependency?
  | .chain first more => by
    rw [Phrase.expr, Phrase.kinds, more.references_eq, first.references_eq, List.filterMap_append]
  | .base p => p.references_eq
  | .power base exponent => by
    rw [Phrase.expr, Phrase.kinds, Expr.references, base.references_eq, exponent.references_eq,
      List.filterMap_append]
    rfl
  | .sign _ _ _ operand => operand.references_eq
  | .plain p => p.references_eq
  | .leaf _ _ h => h.references_eq
  | .constant _ => rfl
  | .call _ first more => by
    simp only [Phrase.expr, Phrase.kinds, Expr.references, Expr.referencesOf, first.references_eq,
      more.references_eq, List.filterMap_cons, List.filterMap_append, List.filterMap_nil,
      List.append_nil, dependency?]
  | .group inner => by
    simp only [Phrase.expr, Phrase.kinds, inner.references_eq, List.filterMap_cons,
      List.filterMap_append, List.filterMap_nil, List.append_nil, dependency?]

theorem Links.references_eq {c : Chain} (left : Expr) : (l : Links c) →
    (l.expr left).references = left.references ++ l.kinds.filterMap dependency?
  | .done => (List.append_nil _).symm
  | .link o op _ operand more => by
    rw [Links.expr, Links.kinds, more.references_eq, Expr.references, operand.references_eq,
      List.append_assoc, ← List.filterMap_append]
    rfl

theorem Arguments.references_eq :
    (a : Arguments) → Expr.referencesOf a.exprs = a.kinds.filterMap dependency?
  | .done => rfl
  | .next argument more => by
    rw [Arguments.exprs, Arguments.kinds, Expr.referencesOf, argument.references_eq,
      more.references_eq, ← List.filterMap_append]
    rfl

end

/-! ## Literals -/

mutual

/-- The literals of a phrase are those of its tokens. What stands behind is looked at once: an
opening parenthesis there would make a call of a truth value. -/
theorem Phrase.literalsIn_kinds {b : Binding} {rest : List TokenKind} : (d : Phrase b) →
    Stops b rest → literalsIn (d.kinds ++ rest) = d.expr.literals ++ literalsIn rest
  | .chain first more, hrest => by
    rw [Phrase.kinds, Phrase.expr, List.append_assoc, first.literalsIn_kinds (hrest.links more),
      more.literalsIn_kinds first.expr hrest]
  | .base p, hrest => p.literalsIn_kinds hrest.base
  | .power base exponent, hrest => by
    rw [Phrase.kinds, Phrase.expr, Expr.literals, List.append_assoc, List.cons_append,
      base.literalsIn_kinds .caret, literalsIn_op, exponent.literalsIn_kinds hrest,
      List.append_assoc]
  | .sign _ _ _ operand, hrest => operand.literalsIn_kinds hrest
  | .plain p, hrest => p.literalsIn_kinds hrest
  | .leaf kind e h, hrest => by
    have hnext : rest.head? ≠ some .leftParen := fun hparen => hrest _ hparen trivial
    rw [Phrase.kinds, Phrase.expr, h.literals_eq hnext]
    rfl
  | .constant name, _ => literalsIn_called name _
  | .call name first more, hrest => by
    simp only [Phrase.kinds, Phrase.expr, Expr.literals, Expr.literalsOf, List.cons_append,
      List.append_assoc, List.nil_append, literalsIn_called]
    rw [first.literalsIn_kinds (.arguments more), more.literalsIn_kinds, literalsIn_rightParen]
  | .group inner, hrest => by
    simp only [Phrase.kinds, Phrase.expr, List.cons_append, List.append_assoc, List.nil_append,
      literalsIn_leftParen]
    rw [inner.literalsIn_kinds .rightParen, literalsIn_rightParen]

theorem Links.literalsIn_kinds {c : Chain} {rest : List TokenKind} (left : Expr) :
    (l : Links c) → Stops (.chain c) rest →
      left.literals ++ literalsIn (l.kinds ++ rest) = (l.expr left).literals ++ literalsIn rest
  | .done, _ => rfl
  | .link _ _ _ operand more, hrest => by
    rw [Links.kinds, Links.expr, List.cons_append, List.append_assoc, literalsIn_op,
      operand.literalsIn_kinds (hrest.links more), ← more.literalsIn_kinds _ hrest, Expr.literals,
      List.append_assoc]

theorem Arguments.literalsIn_kinds {rest : List TokenKind} : (a : Arguments) →
    literalsIn (a.kinds ++ .rightParen :: rest)
      = Expr.literalsOf a.exprs ++ literalsIn (.rightParen :: rest)
  | .done => rfl
  | .next argument more => by
    rw [Arguments.kinds, Arguments.exprs, Expr.literalsOf, List.cons_append, List.append_assoc,
      literalsIn_comma, argument.literalsIn_kinds (.arguments more), more.literalsIn_kinds,
      List.append_assoc]

end

/-! ## Texts -/

/-- The tokens of a text end with the only end token. -/
theorem ended_of_tokensFrom {pos : Nat} {cs : List Char} {ts : List Token}
    (h : tokensFrom pos cs = .ok ts) : Ended ts := by
  have htiled := tokensFrom_tiled pos cs
  rw [h] at htiled
  obtain ⟨tokens, place, hts, htokens⟩ := Tiles.end_token htiled
  exact ⟨tokens, _, hts, rfl, fun t ht => (htokens t ht).1⟩

namespace Expr

variable {limit : Nat} {text : String} {e : Expr}

/-- What is read from a text is a phrase of all of its tokens. -/
theorem derives_of_ofText (h : ofText limit text = .ok e) :
    ∃ ts d, tokensFrom 0 (body text) = .ok ts ∧ Derives limit d ts e := by
  obtain ⟨-, ts, hts, he⟩ := exists_tokens_of_ofText h
  obtain ⟨d, hd⟩ := derives_of_ofTokens (ended_of_tokensFrom hts) he
  exact ⟨ts, d, hts, hd⟩

end Expr

theorem Derives.references_eq {limit : Nat} {d : Phrase .expression} {ts : List Token} {e : Expr}
    (h : Derives limit d ts e) : e.references = (ts.map Token.kind).filterMap dependency? := by
  rw [h.kinds, List.filterMap_append, ← d.references_eq, h.expr]
  exact (List.append_nil _).symm

theorem Derives.literals_eq {limit : Nat} {d : Phrase .expression} {ts : List Token} {e : Expr}
    (h : Derives limit d ts e) : e.literals = literalsIn (ts.map Token.kind) := by
  rw [h.kinds, d.literalsIn_kinds .eof, h.expr]
  exact (List.append_nil _).symm

/-- A text that is read, under whatever limit, falls into tokens, and the leaves of its expression
are just these from left to right: it names the cells and ranges of the tokens for references, with
the corners of each range in order, and its literals are the numbers, the texts and the truth
values among the tokens. An engine compiles just the texts that are read, and what it lists as the
dependencies of a formula are the references of the tokens. -/
theorem dependencies_are_reference_tokens :
    (∀ limit text e, Expr.ofText limit text = .ok e →
      ∃ ts, tokensFrom 0 (body text) = .ok ts ∧
        e.references = (ts.map Token.kind).filterMap dependency? ∧
        e.literals = literalsIn (ts.map Token.kind)) ∧
    ∀ (engine : Engine) text,
      (engine.compile text).map Compiled.expr = Expr.ofText engine.limits.maxNesting text ∧
      ∀ compiled, engine.compile text = .ok compiled →
        ∃ ts, tokensFrom 0 (body text) = .ok ts ∧
          compiled.dependencies = (ts.map Token.kind).filterMap dependency? := by
  refine ⟨fun limit text e h => ?_, fun engine text => ⟨?_, fun compiled h => ?_⟩⟩
  · obtain ⟨ts, d, hts, hd⟩ := Expr.derives_of_ofText h
    exact ⟨ts, hts, hd.references_eq, hd.literals_eq⟩
  · rw [Engine.compile]
    cases Expr.ofText engine.limits.maxNesting text <;> rfl
  · obtain ⟨e, he, h⟩ := ok_of_bind h
    cases h
    obtain ⟨ts, d, hts, hd⟩ := Expr.derives_of_ofText he
    exact ⟨ts, hts, hd.references_eq⟩

/-- Of two names that are the same in upper case, the first is a value and the second is called. -/
theorem dependencies_are_reference_tokens_called_keyword :
    let e : Expr := .binary .concat (.literal (.bool true)) (.call "TRUE"
      [.range (.ofCorners ⟨⟨1, 1⟩, false, false⟩ ⟨⟨0, 0⟩, true, false⟩),
        .unary .negate (.cell ⟨⟨0, 0⟩, false, false⟩)])
    Expr.ofText 3 "=true&TRUE(B2:A$1,-A1)" = .ok e ∧ e.literals = [.bool true] ∧
      (Engine.compile {} "=true&TRUE(B2:A$1,-A1)").map Compiled.dependencies
        = .ok [.range ⟨⟨⟨0, 0⟩, true, false⟩, ⟨⟨1, 1⟩, false, false⟩⟩,
          .cell ⟨⟨0, 0⟩, false, false⟩] := by
  intro e
  obtain ⟨hliterals, hdependencies⟩ := dependencies_are_reference_tokens
  have htokens : tokensFrom 0 (body "=true&TRUE(B2:A$1,-A1)") = .ok
      [⟨.name "true", "true", 0⟩, ⟨.op .ampersand, "&", 4⟩, ⟨.name "TRUE", "TRUE", 5⟩,
        ⟨.leftParen, "(", 9⟩,
        ⟨.range ⟨⟨1, 1⟩, false, false⟩ ⟨⟨0, 0⟩, true, false⟩, "B2:A$1", 10⟩, ⟨.comma, ",", 16⟩,
        ⟨.op .minus, "-", 17⟩, ⟨.cell ⟨⟨0, 0⟩, false, false⟩, "A1", 18⟩,
        ⟨.rightParen, ")", 20⟩, ⟨.eof, "", 21⟩] := by decide +kernel
  have hread (limit : Nat) (h : Expr.ofTokens limit _ = .ok e) :
      Expr.ofText limit "=true&TRUE(B2:A$1,-A1)" = .ok e :=
    Expr.ofText_of_tokens _ (by decide +kernel) htokens h
  obtain ⟨ts, hts, -, hvalues⟩ := hliterals 3 _ e (hread 3 rfl)
  cases htokens.symm.trans hts
  have hcompile : Engine.compile {} "=true&TRUE(B2:A$1,-A1)"
      = .ok ⟨"=true&TRUE(B2:A$1,-A1)", e, e.references⟩ := by
    rw [Engine.compile, hread 128 rfl]
    rfl
  obtain ⟨ts', hts', hplaces⟩ := (hdependencies {} _).2 _ hcompile
  cases hts.symm.trans hts'
  have htrue : keyword? "true" = some (.bool true) := if_pos (by decide +kernel)
  refine ⟨hread 3 rfl, hvalues.trans ?_, ?_⟩
  · simp [literalsIn, literal?, htrue]
  · rw [hcompile]
    exact congrArg Except.ok hplaces

end Spreadsheet.Formula
