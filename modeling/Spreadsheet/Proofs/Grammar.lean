import Spreadsheet.Formula.Parser

/-!
# The grammar of formulas

The language of formulas as a grammar, with no reader in sight. A derivation is a tree of phrases,
one for each nonterminal. Its leaves are the kinds of tokens it stands for, and the expression, the
number of levels that are open at once and the tokens are all read off the tree.

The grammar is unambiguous. What may stand behind a phrase never goes on with it, so of two
derivations of the same tokens no phrase can end before the other.

Results:
1. `Phrase`, `Links`, `Arguments`: the rules;
2. `Phrase.namesApart`: a truth value never stands before an opening parenthesis;
3. `Phrase.unique`: two phrases with the same tokens, and the same behind them, are the same.
-/

namespace Spreadsheet.Formula

open Text Formula.Parser

/-! ## Rules -/

/-- The operators that group to the left, from loose to tight. -/
inductive Chain where
  | comparison
  | concat
  | sum
  | product
deriving DecidableEq, Repr

/-- What a phrase may be, from loose to tight. -/
inductive Binding where
  | chain (c : Chain)
  | power
  | unary
  | primary
deriving DecidableEq, Repr

/-- A whole expression. -/
abbrev Binding.expression : Binding :=
  .chain .comparison

namespace Chain

/-- The operators between the operands. -/
def op? : Chain → Operator → Option BinaryOp
  | .comparison => comparison?
  | .concat => concat?
  | .sum => sum?
  | .product => product?

/-- The operands bind one step tighter. -/
def operand : Chain → Binding
  | .comparison => .chain .concat
  | .concat => .chain .sum
  | .sum => .chain .product
  | .product => .power

end Chain

/-- A phrase of one token. -/
inductive Leaf : TokenKind → Expr → Prop where
  | int (x : Float) (n : Int64) : Leaf (.number x (some n)) (.literal (.int n))
  | float (x : Float) : Leaf (.number x none) (.literal (.float x))
  | text (s : String) : Leaf (.text s) (.literal (.text s))
  | cell (r : Reference) : Leaf (.cell r) (.cell r)
  | range (a b : Reference) : Leaf (.range a b) (.range (.ofCorners a b))
  | isTrue {name : String} (h : toUpper name = "TRUE") :
      Leaf (.name name) (.literal (.bool true))
  | isFalse {name : String} (h : toUpper name = "FALSE") :
      Leaf (.name name) (.literal (.bool false))

mutual

/-- A derivation of a phrase. -/
inductive Phrase : Binding → Type where
  /-- Operands with operators between them. -/
  | chain {c : Chain} (first : Phrase c.operand) (more : Links c) : Phrase (.chain c)
  | base (p : Phrase .unary) : Phrase .power
  | power (base : Phrase .unary) (exponent : Phrase .power) : Phrase .power
  | sign (o : Operator) (op : UnaryOp) (h : sign? o = some op) (operand : Phrase .unary) :
      Phrase .unary
  | plain (p : Phrase .primary) : Phrase .unary
  | leaf (kind : TokenKind) (e : Expr) (h : Leaf kind e) : Phrase .primary
  /-- A call without arguments. -/
  | constant (name : String) : Phrase .primary
  | call (name : String) (first : Phrase .expression) (more : Arguments) : Phrase .primary
  | group (inner : Phrase .expression) : Phrase .primary

/-- The operators of a chain, each with the operand behind it. -/
inductive Links : Chain → Type where
  | done {c : Chain} : Links c
  | link {c : Chain} (o : Operator) (op : BinaryOp) (h : c.op? o = some op)
      (operand : Phrase c.operand) (more : Links c) : Links c

/-- The arguments of a call behind the first, each with the comma before it. -/
inductive Arguments : Type where
  | done : Arguments
  | next (argument : Phrase .expression) (more : Arguments) : Arguments

end

/-! ## What a derivation stands for -/

mutual

/-- The tokens of a phrase, by their kinds. -/
def Phrase.kinds : {b : Binding} → Phrase b → List TokenKind
  | _, .chain first more => first.kinds ++ more.kinds
  | _, .base p => p.kinds
  | _, .power base exponent => base.kinds ++ .op .caret :: exponent.kinds
  | _, .sign o _ _ operand => .op o :: operand.kinds
  | _, .plain p => p.kinds
  | _, .leaf kind _ _ => [kind]
  | _, .constant name => [.name name, .leftParen, .rightParen]
  | _, .call name first more =>
    .name name :: .leftParen :: (first.kinds ++ (more.kinds ++ [.rightParen]))
  | _, .group inner => .leftParen :: (inner.kinds ++ [.rightParen])

def Links.kinds : {c : Chain} → Links c → List TokenKind
  | _, .done => []
  | _, .link o _ _ operand more => .op o :: (operand.kinds ++ more.kinds)

def Arguments.kinds : Arguments → List TokenKind
  | .done => []
  | .next argument more => .comma :: (argument.kinds ++ more.kinds)

end

mutual

/-- The expression of a phrase. -/
def Phrase.expr : {b : Binding} → Phrase b → Expr
  | _, .chain first more => more.expr first.expr
  | _, .base p => p.expr
  | _, .power base exponent => .binary .power base.expr exponent.expr
  | _, .sign _ op _ operand => .unary op operand.expr
  | _, .plain p => p.expr
  | _, .leaf _ e _ => e
  | _, .constant name => .call name []
  | _, .call name first more => .call name (first.expr :: more.exprs)
  | _, .group inner => inner.expr

/-- The expression of a chain, given that of all in front of these links: they group to the left. -/
def Links.expr : {c : Chain} → Links c → Expr → Expr
  | _, .done, left => left
  | _, .link _ op _ operand more, left => more.expr (.binary op left operand.expr)

def Arguments.exprs : Arguments → List Expr
  | .done => []
  | .next argument more => argument.expr :: more.exprs

end

mutual

/-- The largest number of groups, calls, signs and exponents that are open at a token of the
phrase. -/
def Phrase.opens : {b : Binding} → Phrase b → Nat
  | _, .chain first more => max first.opens more.opens
  | _, .base p => p.opens
  | _, .power base exponent => max base.opens (exponent.opens + 1)
  | _, .sign _ _ _ operand => operand.opens + 1
  | _, .plain p => p.opens
  | _, .leaf _ _ _ => 0
  | _, .constant _ => 1
  | _, .call _ first more => max first.opens more.opens + 1
  | _, .group inner => inner.opens + 1

def Links.opens : {c : Chain} → Links c → Nat
  | _, .done => 0
  | _, .link _ _ _ operand more => max operand.opens more.opens

def Arguments.opens : Arguments → Nat
  | .done => 0
  | .next argument more => max argument.opens more.opens

end

mutual

/-- No name that is a phrase of its own stands right before an opening parenthesis, given the kinds
of the tokens behind. -/
def Phrase.NamesApart : {b : Binding} → Phrase b → List TokenKind → Prop
  | _, .chain first more, rest => first.NamesApart (more.kinds ++ rest) ∧ more.NamesApart rest
  | _, .base p, rest => p.NamesApart rest
  | _, .power base exponent, rest =>
    base.NamesApart (.op .caret :: exponent.kinds ++ rest) ∧ exponent.NamesApart rest
  | _, .sign _ _ _ operand, rest => operand.NamesApart rest
  | _, .plain p, rest => p.NamesApart rest
  | _, .leaf kind _ _, rest => (∃ name, kind = .name name) → rest.head? ≠ some .leftParen
  | _, .constant _, _ => True
  | _, .call _ first more, rest =>
    first.NamesApart (more.kinds ++ .rightParen :: rest) ∧ more.NamesApart (.rightParen :: rest)
  | _, .group inner, rest => inner.NamesApart (.rightParen :: rest)

def Links.NamesApart : {c : Chain} → Links c → List TokenKind → Prop
  | _, .done, _ => True
  | _, .link _ _ _ operand more, rest =>
    operand.NamesApart (more.kinds ++ rest) ∧ more.NamesApart rest

def Arguments.NamesApart : Arguments → List TokenKind → Prop
  | .done, _ => True
  | .next argument more, rest => argument.NamesApart (more.kinds ++ rest) ∧ more.NamesApart rest

end

/-! ## What may stand behind -/

/-- How tight an operator binds. -/
def Operator.rank : Operator → Nat
  | .equal | .notEqual | .less | .lessEqual | .greater | .greaterEqual => 0
  | .ampersand => 1
  | .plus | .minus => 2
  | .star | .slash => 3
  | .caret => 4

/-- How tight the operators of a chain bind. -/
def Chain.rank : Chain → Nat
  | .comparison => 0
  | .concat => 1
  | .sum => 2
  | .product => 3

/-- How tight a phrase is bound: an operator that binds at least as tight goes on with it. -/
def Binding.rank : Binding → Nat
  | .chain c => c.rank
  | .power => 4
  | .unary | .primary => 5

theorem Chain.rank_of_op? {c : Chain} {o : Operator} {op : BinaryOp} (h : c.op? o = some op) :
    o.rank = c.rank := by
  cases c <;> cases o <;> first | rfl | exact nomatch h

theorem Chain.operand_rank (c : Chain) : c.operand.rank = c.rank + 1 := by
  cases c <;> rfl

/-- A token that would go on with a phrase: an operator that binds at least as tight, or the
parenthesis that makes a call of a name. -/
def Binding.Continues (b : Binding) : TokenKind → Prop
  | .op o => b.rank ≤ o.rank
  | .leftParen => True
  | _ => False

theorem Chain.continues {c : Chain} {o : Operator} {op : BinaryOp} (h : c.op? o = some op) :
    (Binding.chain c).Continues (.op o) :=
  Nat.le_of_eq (Chain.rank_of_op? h).symm

/-- What stands behind does not go on with the phrase. -/
def Stops (b : Binding) (rest : List TokenKind) : Prop :=
  ∀ k ∈ rest.head?, ¬ b.Continues k

namespace Stops

variable {b b' : Binding} {rest : List TokenKind}

theorem cons {k : TokenKind} (h : ¬ b.Continues k) : Stops b (k :: rest) := by
  intro k' hk
  cases hk
  exact h

theorem ne_cons {k : TokenKind} (h : Stops b rest) (hk : b.Continues k) (ks : List TokenKind) :
    rest ≠ k :: ks := by
  rintro rfl
  exact h k rfl hk

theorem ne_leftParen (h : Stops b rest) (ks : List TokenKind) : rest ≠ .leftParen :: ks :=
  h.ne_cons (k := .leftParen) trivial ks

/-- What stops a phrase stops a tighter one. -/
theorem tighter (h : Stops b rest) (hb : b.rank ≤ b'.rank) : Stops b' rest := by
  intro k hk hcontinues
  refine h k hk ?_
  cases k with
  | op o => exact Nat.le_trans hb hcontinues
  | _ => exact hcontinues

/-- What stops a chain stops its operands. -/
theorem operand {c : Chain} (h : Stops (.chain c) rest) : Stops c.operand rest :=
  h.tighter (by rw [c.operand_rank]; exact Nat.le_succ _)

/-- What stops a power stops its base. -/
theorem base (h : Stops .power rest) : Stops .unary rest :=
  h.tighter (by decide)

/-- An operator of a chain stops the operand before it. -/
theorem op {c : Chain} {o : Operator} {op : BinaryOp} (h : c.op? o = some op) :
    Stops c.operand (.op o :: rest) := by
  refine cons fun hle => ?_
  have hrank := Chain.rank_of_op? h
  have hoperand := c.operand_rank
  simp only [Binding.Continues] at hle
  omega

theorem caret : Stops .unary (.op .caret :: rest) :=
  cons (by simp [Binding.Continues, Binding.rank, Operator.rank])

theorem rightParen : Stops b (.rightParen :: rest) :=
  cons id

theorem comma : Stops b (.comma :: rest) :=
  cons id

theorem eof : Stops b (.eof :: rest) :=
  cons id

/-- What stops a chain stops the operand before its links. -/
theorem links {c : Chain} (more : Links c) (h : Stops (.chain c) rest) :
    Stops c.operand (more.kinds ++ rest) := by
  cases more with
  | done => exact h.operand
  | link o op hop operand more => exact Stops.op hop

/-- An argument ends before the next one, or before the end of the call. -/
theorem arguments (more : Arguments) : Stops b (more.kinds ++ .rightParen :: rest) := by
  cases more with
  | done => exact rightParen
  | next argument more => exact comma

end Stops

/-! ## The first token -/

/-- A token that a phrase may begin with; only for an operator does the binding matter. -/
def Binding.Begins (b : Binding) : TokenKind → Prop
  | .op _ => b ≠ .primary
  | .rightParen | .comma | .eof => False
  | _ => True

theorem Binding.Begins.looser {b b' : Binding} {k : TokenKind} (h : b.Begins k)
    (hb : b' ≠ .primary) : b'.Begins k := by
  cases k <;> first | exact h | exact hb

theorem Leaf.begins {kind : TokenKind} {e : Expr} (h : Leaf kind e) (b : Binding) :
    b.Begins kind := by
  cases h <;> trivial

theorem Phrase.begins {b : Binding} :
    (d : Phrase b) → ∃ k ks, d.kinds = k :: ks ∧ b.Begins k
  | .chain first more => by
    obtain ⟨k, ks, hkinds, hbegins⟩ := first.begins
    exact ⟨k, ks ++ more.kinds, by simp [kinds, hkinds], hbegins.looser nofun⟩
  | .base p => by
    obtain ⟨k, ks, hkinds, hbegins⟩ := p.begins
    exact ⟨k, ks, hkinds, hbegins.looser nofun⟩
  | .power left exponent => by
    obtain ⟨k, ks, hkinds, hbegins⟩ := left.begins
    exact ⟨k, ks ++ .op .caret :: exponent.kinds, by simp [kinds, hkinds], hbegins.looser nofun⟩
  | .sign o _ _ operand => ⟨.op o, operand.kinds, rfl, nofun⟩
  | .plain p => by
    obtain ⟨k, ks, hkinds, hbegins⟩ := p.begins
    exact ⟨k, ks, hkinds, hbegins.looser nofun⟩
  | .leaf kind _ h => ⟨kind, [], rfl, h.begins _⟩
  | .constant name => ⟨.name name, _, rfl, trivial⟩
  | .call name _ _ => ⟨.name name, _, rfl, trivial⟩
  | .group _ => ⟨.leftParen, _, rfl, trivial⟩

/-- A primary begins with no operator. -/
theorem Phrase.primary_ne_op (d : Phrase .primary) (o : Operator) (rest ks : List TokenKind) :
    d.kinds ++ rest ≠ .op o :: ks := by
  obtain ⟨k, ks', hkinds, hbegins⟩ := d.begins
  intro h
  rw [hkinds] at h
  cases h
  exact hbegins rfl

/-- No phrase begins with a closing parenthesis. -/
theorem Phrase.ne_rightParen {b : Binding} (d : Phrase b) (rest ks : List TokenKind) :
    d.kinds ++ rest ≠ .rightParen :: ks := by
  obtain ⟨k, ks', hkinds, hbegins⟩ := d.begins
  intro h
  rw [hkinds] at h
  cases h
  exact hbegins

/-! ## Truth values -/

mutual

/-- Within a phrase, no truth value stands before an opening parenthesis; so it does nowhere if what
stands behind the phrase is none. -/
theorem Phrase.namesApart {b : Binding} {rest : List TokenKind} :
    (d : Phrase b) → Stops b rest → d.NamesApart rest
  | .chain first more, hrest => ⟨first.namesApart (hrest.links more), more.namesApart hrest⟩
  | .base p, hrest => p.namesApart hrest.base
  | .power left exponent, hrest => ⟨left.namesApart .caret, exponent.namesApart hrest⟩
  | .sign _ _ _ operand, hrest => operand.namesApart hrest
  | .plain p, hrest => p.namesApart hrest
  | .leaf _ _ _, hrest => fun _ hparen => hrest _ hparen trivial
  | .constant _, _ => trivial
  | .call _ first more, _ => ⟨first.namesApart (.arguments more), more.namesApart⟩
  | .group inner, _ => inner.namesApart .rightParen

theorem Links.namesApart {c : Chain} {rest : List TokenKind} :
    (l : Links c) → Stops (.chain c) rest → l.NamesApart rest
  | .done, _ => trivial
  | .link _ _ _ operand more, hrest =>
    ⟨operand.namesApart (hrest.links more), more.namesApart hrest⟩

theorem Arguments.namesApart {rest : List TokenKind} :
    (a : Arguments) → a.NamesApart (.rightParen :: rest)
  | .done => trivial
  | .next argument more => ⟨argument.namesApart (.arguments more), more.namesApart⟩

end

/-! ## One derivation -/

theorem Leaf.unique {kind : TokenKind} {e e' : Expr} (h : Leaf kind e) (h' : Leaf kind e') :
    e = e' := by
  cases h <;> cases h' <;> simp_all

mutual

/-- Two phrases of the same tokens are the same, if what stands behind stops both. -/
theorem Phrase.unique {b : Binding} {rest rest' : List TokenKind} :
    (d d' : Phrase b) → d.kinds ++ rest = d'.kinds ++ rest' → Stops b rest → Stops b rest' →
      d = d' ∧ rest = rest'
  | .chain first more, .chain first' more', h, hrest, hrest' => by
    simp only [Phrase.kinds, List.append_assoc] at h
    obtain ⟨rfl, htail⟩ := first.unique first' h (hrest.links more) (hrest'.links more')
    obtain ⟨rfl, hbehind⟩ := more.unique more' htail hrest hrest'
    exact ⟨rfl, hbehind⟩
  | .base p, .base p', h, hrest, hrest' => by
    obtain ⟨rfl, hbehind⟩ := p.unique p' h hrest.base hrest'.base
    exact ⟨rfl, hbehind⟩
  | .base p, .power left' _, h, hrest, _ => by
    simp only [Phrase.kinds, List.append_assoc, List.cons_append] at h
    exact absurd (p.unique left' h hrest.base .caret).2 (hrest.ne_cons (Nat.le_refl _) _)
  | .power left _, .base p', h, _, hrest' => by
    simp only [Phrase.kinds, List.append_assoc, List.cons_append] at h
    exact absurd (left.unique p' h .caret hrest'.base).2.symm (hrest'.ne_cons (Nat.le_refl _) _)
  | .power left exponent, .power left' exponent', h, hrest, hrest' => by
    simp only [Phrase.kinds, List.append_assoc, List.cons_append] at h
    obtain ⟨rfl, htail⟩ := left.unique left' h .caret .caret
    obtain ⟨rfl, hbehind⟩ := exponent.unique exponent' (List.cons.inj htail).2 hrest hrest'
    exact ⟨rfl, hbehind⟩
  | .sign o op hop operand, .sign o' op' hop' operand', h, hrest, hrest' => by
    obtain ⟨ho, htail⟩ := List.cons.inj h
    cases ho
    cases hop.symm.trans hop'
    obtain ⟨rfl, hbehind⟩ := operand.unique operand' htail hrest hrest'
    exact ⟨rfl, hbehind⟩
  | .sign _ _ _ _, .plain p', h, _, _ => absurd h.symm (p'.primary_ne_op _ _ _)
  | .plain p, .sign _ _ _ _, h, _, _ => absurd h (p.primary_ne_op _ _ _)
  | .plain p, .plain p', h, hrest, hrest' => by
    obtain ⟨rfl, hbehind⟩ := p.unique p' h hrest hrest'
    exact ⟨rfl, hbehind⟩
  | .leaf kind e he, .leaf kind' e' he', h, _, _ => by
    obtain ⟨hkind, hbehind⟩ := List.cons.inj h
    cases hkind
    cases he.unique he'
    exact ⟨rfl, hbehind⟩
  | .constant name, .constant name', h, _, _ => by
    cases h
    exact ⟨rfl, rfl⟩
  | .call name first more, .call name' first' more', h, hrest, hrest' => by
    simp only [Phrase.kinds, List.append_assoc, List.cons_append, List.nil_append,
      List.cons.injEq, TokenKind.name.injEq, true_and] at h
    obtain ⟨rfl, h⟩ := h
    obtain ⟨rfl, htail⟩ := first.unique first' h (.arguments more) (.arguments more')
    obtain ⟨rfl, hbehind⟩ := more.unique more' htail
    exact ⟨rfl, hbehind⟩
  | .group inner, .group inner', h, _, _ => by
    simp only [Phrase.kinds, List.append_assoc, List.cons_append, List.nil_append,
      List.cons.injEq, true_and] at h
    obtain ⟨rfl, htail⟩ := inner.unique inner' h .rightParen .rightParen
    exact ⟨rfl, (List.cons.inj htail).2⟩
  -- A name that is a phrase of its own would be called.
  | .leaf _ _ _, .constant _, h, hrest, _ =>
    absurd (List.cons.inj h).2 (hrest.ne_leftParen _)
  | .leaf _ _ _, .call _ _ _, h, hrest, _ =>
    absurd (List.cons.inj h).2 (hrest.ne_leftParen _)
  | .constant _, .leaf _ _ _, h, _, hrest' =>
    absurd (List.cons.inj h).2.symm (hrest'.ne_leftParen _)
  | .call _ _ _, .leaf _ _ _, h, _, hrest' =>
    absurd (List.cons.inj h).2.symm (hrest'.ne_leftParen _)
  -- The first argument would begin with the closing parenthesis.
  | .constant _, .call _ first' _, h, _, _ => by
    simp only [Phrase.kinds, List.append_assoc, List.cons_append, List.cons.injEq] at h
    exact absurd h.2.2.symm (first'.ne_rightParen _ _)
  | .call _ first _, .constant _, h, _, _ => by
    simp only [Phrase.kinds, List.append_assoc, List.cons_append, List.cons.injEq] at h
    exact absurd h.2.2 (first.ne_rightParen _ _)
  -- Only a group begins with a parenthesis.
  | .leaf _ _ he, .group _, h, _, _ => by
    cases (List.cons.inj h).1
    exact nomatch he
  | .group _, .leaf _ _ he, h, _, _ => by
    cases (List.cons.inj h).1
    exact nomatch he
  | .constant _, .group _, h, _, _ => nomatch (List.cons.inj h).1
  | .call _ _ _, .group _, h, _, _ => nomatch (List.cons.inj h).1
  | .group _, .constant _, h, _, _ => nomatch (List.cons.inj h).1
  | .group _, .call _ _ _, h, _, _ => nomatch (List.cons.inj h).1

theorem Links.unique {c : Chain} {rest rest' : List TokenKind} :
    (l l' : Links c) → l.kinds ++ rest = l'.kinds ++ rest' → Stops (.chain c) rest →
      Stops (.chain c) rest' → l = l' ∧ rest = rest'
  | .done, .done, h, _, _ => ⟨rfl, h⟩
  | .done, .link _ _ hop _ _, h, hrest, _ => absurd h (hrest.ne_cons (Chain.continues hop) _)
  | .link _ _ hop _ _, .done, h, _, hrest' =>
    absurd h.symm (hrest'.ne_cons (Chain.continues hop) _)
  | .link o op hop operand more, .link o' op' hop' operand' more', h, hrest, hrest' => by
    simp only [Links.kinds, List.append_assoc, List.cons_append, List.cons.injEq,
      TokenKind.op.injEq] at h
    obtain ⟨rfl, h⟩ := h
    cases hop.symm.trans hop'
    obtain ⟨rfl, htail⟩ := operand.unique operand' h (hrest.links more) (hrest'.links more')
    obtain ⟨rfl, hbehind⟩ := more.unique more' htail hrest hrest'
    exact ⟨rfl, hbehind⟩

theorem Arguments.unique {rest rest' : List TokenKind} :
    (a a' : Arguments) → a.kinds ++ .rightParen :: rest = a'.kinds ++ .rightParen :: rest' →
      a = a' ∧ rest = rest'
  | .done, .done, h => ⟨rfl, (List.cons.inj h).2⟩
  | .done, .next _ _, h => nomatch (List.cons.inj h).1
  | .next _ _, .done, h => nomatch (List.cons.inj h).1
  | .next argument more, .next argument' more', h => by
    simp only [Arguments.kinds, List.append_assoc, List.cons_append, List.cons.injEq,
      true_and] at h
    obtain ⟨rfl, htail⟩ := argument.unique argument' h (.arguments more) (.arguments more')
    obtain ⟨rfl, hbehind⟩ := more.unique more' htail
    exact ⟨rfl, hbehind⟩

end

end Spreadsheet.Formula
