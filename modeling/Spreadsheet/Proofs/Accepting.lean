import Mathlib.Data.List.Basic
import Spreadsheet.Proofs.EndToken
import Spreadsheet.Proofs.Grammar

/-!
# The reader and the grammar

The reader of formulas accepts exactly the phrases of the grammar that keep to the limit, and gives
their expressions. What it reads is a phrase: each reader puts together the phrases of the readers
below it. A phrase is read: each reader stops where its phrase ends, since what stands behind does
not go on with it.

The limit counts twice. The levels that a phrase opens are the levels the reader opens, and the
height that a `Node` carries is the height of its expression, so no phrase is refused for another
reason than its own.

Results:
1. `Parser.sound_read`: what is read is a phrase within the limit;
2. `Phrase.reads`: a phrase within the limit is read;
3. `Expr.height_le_of_ofText`: no expression that is read is taller than the limit;
4. `reader_accepts_exactly_the_grammar`: both at once for whole lists of tokens.
-/

namespace Spreadsheet.Formula

open Text

/-! ## Nodes -/

namespace Node

variable {limit : Nat}

/-- An expression with its own height. -/
def of (e : Expr) : Node :=
  ⟨e, e.height⟩

theorem bounded_eq_ok {n m : Node} : bounded limit n = .ok m ↔ n.height ≤ limit ∧ m = n := by
  unfold bounded
  split
  · next h => simp [h, eq_comm]
  · next h => simp [h]

theorem bounded_of {e : Expr} (h : e.height ≤ limit) : bounded limit (of e) = .ok (of e) :=
  if_pos h

theorem binary_of (op : BinaryOp) (l r : Expr) :
    binary limit op (of l) (of r) = bounded limit (of (.binary op l r)) := by
  rw [binary, of, of, of, Expr.height]

theorem unary_of (op : UnaryOp) (e : Expr) :
    unary limit op (of e) = bounded limit (of (.unary op e)) := by
  rw [unary, of, of, Expr.height]

theorem foldl_max_heights (es : List Expr) (n : Nat) :
    ((es.map of).map height).foldl max n = max n (Expr.heightOf es) := by
  induction es generalizing n with
  | nil => simp [Expr.heightOf]
  | cons e es ih =>
    rw [Expr.heightOf, ← Nat.max_assoc]
    exact ih (max n e.height)

theorem call_of (name : String) (es : List Expr) :
    call limit name (es.map of) = bounded limit (of (.call name es)) := by
  have hexprs : (es.map of).map expr = es := by simp [of, Function.comp_def]
  rw [call, foldl_max_heights, hexprs, Nat.zero_max, of, Expr.height]

end Node

/-! ## The tokens of a phrase -/

/-- The tokens in front of `rest` are of these kinds. -/
inductive Spans : List TokenKind → List Token → List Token → Prop where
  | nil (rest : List Token) : Spans [] rest rest
  | cons (kind : TokenKind) (text : String) (pos : Nat) {kinds : List TokenKind}
      {ts rest : List Token} (h : Spans kinds ts rest) :
      Spans (kind :: kinds) (⟨kind, text, pos⟩ :: ts) rest

namespace Spans

variable {kinds kinds' : List TokenKind} {ts mid rest : List Token}

theorem append (h : Spans kinds ts mid) (h' : Spans kinds' mid rest) :
    Spans (kinds ++ kinds') ts rest := by
  induction h with
  | nil => exact h'
  | cons kind text pos _ ih => exact .cons kind text pos (ih h')

theorem of_append (h : Spans (kinds ++ kinds') ts rest) :
    ∃ mid, Spans kinds ts mid ∧ Spans kinds' mid rest := by
  induction kinds generalizing ts with
  | nil => exact ⟨ts, .nil ts, h⟩
  | cons kind kinds ih =>
    cases h with
    | cons _ text pos h =>
      obtain ⟨mid, hfront, hback⟩ := ih h
      exact ⟨mid, .cons kind text pos hfront, hback⟩

theorem map_eq (h : Spans kinds ts rest) :
    ts.map Token.kind = kinds ++ rest.map Token.kind := by
  induction h with
  | nil => rfl
  | cons kind text pos _ ih => rw [List.map_cons, ih, List.cons_append]

theorem of_map_eq (h : ts.map Token.kind = kinds ++ kinds') :
    ∃ rest, Spans kinds ts rest ∧ rest.map Token.kind = kinds' := by
  induction kinds generalizing ts with
  | nil => exact ⟨ts, .nil ts, h⟩
  | cons kind kinds ih =>
    obtain ⟨⟨_, text, pos⟩, ts, rfl, rfl, htail⟩ := List.map_eq_cons_iff.mp h
    obtain ⟨rest, hrest, hkinds⟩ := ih htail
    exact ⟨rest, .cons _ text pos hrest, hkinds⟩

theorem length_le (h : Spans kinds ts rest) : rest.length ≤ ts.length := by
  induction h with
  | nil => exact Nat.le_refl _
  | cons _ _ _ _ ih => exact Nat.le_succ_of_le ih

theorem isSuffix (h : Spans kinds ts rest) : rest <:+ ts := by
  induction h with
  | nil => exact List.suffix_refl _
  | cons _ _ _ _ ih => exact ih.trans (List.suffix_cons _ _)

end Spans

/-! ## Readers by what they read -/

namespace Parser

/-- The reader of a phrase, given the readers one level down. -/
def reader (limit : Nat) (inner : Option (Goal → Reader)) : Binding → Reader
  | .chain .comparison => expression limit inner
  | .chain .concat =>
    chain limit concat? <| chain limit sum? <| chain limit product? <| power limit inner
  | .chain .sum => chain limit sum? <| chain limit product? <| power limit inner
  | .chain .product => chain limit product? <| power limit inner
  | .power => power limit inner
  | .unary => unary limit inner
  | .primary => primary limit inner

/-- The readers one level down when `room` more levels may be opened. -/
def below (limit : Nat) : (room : Nat) → Option (Goal → Reader)
  | 0 => none
  | room + 1 => some (read limit room)

end Parser

/-- What is asked for one level down. -/
def Goal.binding : Goal → Binding
  | .expression => .expression
  | .power => .power
  | .unary => .unary

namespace Parser

variable {limit room : Nat} {inner : Option (Goal → Reader)}

theorem reader_chain (c : Chain) :
    reader limit inner (.chain c) = chain limit c.op? (reader limit inner c.operand) := by
  cases c <;> rfl

theorem reader_primary : reader limit inner .primary = primary limit inner := rfl

theorem read_eq_reader (goal : Goal) :
    read limit room goal = reader limit (below limit room) goal.binding := by
  cases room <;> cases goal <;> rfl

/-! ## What is read is a phrase -/

theorem ok_bind {ε α β : Type} (a : α) (f : α → Except ε β) : (.ok a >>= f) = f a := rfl

theorem ok_of_bind {ε α β : Type} {x : Except ε α} {f : α → Except ε β} {b : β}
    (h : x >>= f = .ok b) : ∃ a, x = .ok a ∧ f a = .ok b := by
  cases x with
  | ok a => exact ⟨a, rfl, h⟩
  | error e => exact nomatch h

/-- The node is that of a phrase within the limits, which the tokens in front of `rest` make up. -/
structure Reading (limit room : Nat) {b : Binding} (d : Phrase b) (ts : List Token) (n : Node)
    (rest : List Token) : Prop where
  spans : Spans d.kinds ts rest
  node : n = .of d.expr
  opens : d.opens ≤ room
  height : d.expr.height ≤ limit

/-- What the reader reads is a phrase within the limits. -/
def Sound (limit room : Nat) (b : Binding) (r : Reader) : Prop :=
  ∀ ⦃ts : List Token⦄ ⦃n : Node⦄ ⦃rest : List Token⦄, r ts = .ok (n, rest) →
    ∃ d : Phrase b, Reading limit room d ts n rest

/-- The readers one level down read phrases that open one level less. -/
def SoundBelow (limit room : Nat) (inner : Option (Goal → Reader)) : Prop :=
  ∀ read, inner = some read → ∃ m, room = m + 1 ∧ ∀ goal, Sound limit m goal.binding (read goal)

theorem spans_operator {ts : List Token} {o : Operator} (h : operator? ts = some o) :
    Spans [.op o] ts ts.tail := by
  cases ts with
  | nil => exact nomatch h
  | cons t ts =>
    obtain ⟨kind, text, pos⟩ := t
    rw [operator?_cons] at h
    cases kind with
    | op o' =>
      cases h
      exact .cons _ text pos (.nil ts)
    | _ => exact nomatch h

theorem sound_links {c : Chain} {operand : Reader} (hoperand : Sound limit room c.operand operand)
    {fuel ts : List Token} {left : Expr} {n : Node} {rest : List Token}
    (hleft : left.height ≤ limit)
    (h : links limit c.op? operand fuel (.of left) ts = .ok (n, rest)) :
    ∃ l : Links c, Spans l.kinds ts rest ∧ n = .of (l.expr left) ∧ l.opens ≤ room ∧
      (l.expr left).height ≤ limit := by
  induction fuel generalizing left ts with
  | nil =>
    cases h
    exact ⟨.done, .nil _, rfl, Nat.zero_le _, hleft⟩
  | cons t fuel ih =>
    cases hop : (operator? ts).bind c.op? with
    | none =>
      rw [links_eq_of_none hop] at h
      cases h
      exact ⟨.done, .nil _, rfl, Nat.zero_le _, hleft⟩
    | some op =>
      rw [links_eq_of_some hop] at h
      obtain ⟨o, ho, hop⟩ := Option.bind_eq_some_iff.mp hop
      obtain ⟨⟨right, mid⟩, hright, h⟩ := ok_of_bind h
      obtain ⟨d, hd⟩ := hoperand hright
      obtain ⟨node, hnode, h⟩ := ok_of_bind h
      rw [hd.node, Node.binary_of] at hnode
      obtain ⟨hheight, rfl⟩ := Node.bounded_eq_ok.mp hnode
      obtain ⟨l, hspans, hn, hopens, hlimit⟩ := ih hheight h
      refine ⟨.link o op hop d l, ?_, hn, Nat.max_le.mpr ⟨hd.opens, hopens⟩, hlimit⟩
      exact (spans_operator ho).append (hd.spans.append hspans)

theorem sound_chain {c : Chain} {operand : Reader}
    (hoperand : Sound limit room c.operand operand) :
    Sound limit room (.chain c) (chain limit c.op? operand) := by
  intro ts n rest h
  obtain ⟨⟨left, mid⟩, hleft, h⟩ := ok_of_bind h
  obtain ⟨d, hd⟩ := hoperand hleft
  dsimp only at h
  rw [hd.node] at h
  obtain ⟨l, hspans, hn, hopens, hheight⟩ := sound_links hoperand hd.height h
  exact ⟨.chain d l, hd.spans.append hspans, hn, Nat.max_le.mpr ⟨hd.opens, hopens⟩, hheight⟩

theorem sound_deeper (hinner : SoundBelow limit room inner) {goal : Goal} {ts : List Token}
    {n : Node} {rest : List Token} (h : deeper inner goal ts = .ok (n, rest)) :
    ∃ m, room = m + 1 ∧ ∃ d : Phrase goal.binding, Reading limit m d ts n rest := by
  cases hread : inner with
  | none =>
    rw [hread] at h
    exact nomatch h
  | some read =>
    rw [hread] at h
    obtain ⟨m, hroom, hsound⟩ := hinner read hread
    exact ⟨m, hroom, hsound goal h⟩

theorem sound_moreArguments {argument : Reader} (hargument : Sound limit room .expression argument)
    {fuel ts : List Token} {ns : List Node} {rest : List Token}
    (h : moreArguments argument fuel ts = .ok (ns, rest)) :
    ∃ a : Arguments, Spans (a.kinds ++ [.rightParen]) ts rest ∧ ns = a.exprs.map .of ∧
      a.opens ≤ room := by
  induction fuel generalizing ts ns with
  | nil => exact nomatch h
  | cons t fuel ih =>
    unfold moreArguments at h
    split at h
    · next text pos ts =>
      obtain ⟨⟨arg, mid⟩, harg, h⟩ := ok_of_bind h
      obtain ⟨d, hd⟩ := hargument harg
      obtain ⟨⟨args, rest'⟩, hargs, h⟩ := ok_of_bind h
      cases h
      obtain ⟨a, hspans, rfl, hopens⟩ := ih hargs
      refine ⟨.next d a, ?_, ?_, Nat.max_le.mpr ⟨hd.opens, hopens⟩⟩
      · simp only [Arguments.kinds, List.cons_append, List.append_assoc]
        exact .cons _ text pos (hd.spans.append hspans)
      · rw [hd.node, Arguments.exprs, List.map_cons]
    · next text pos ts =>
      cases h
      exact ⟨.done, .cons _ text pos (.nil _), rfl, Nat.zero_le _⟩
    · exact nomatch h
    · exact nomatch h
    · exact nomatch h

/-- A call is closed at once, or has a first argument and others behind it. -/
theorem sound_arguments {argument : Reader} (hargument : Sound limit room .expression argument)
    {ts : List Token} {ns : List Node} {rest : List Token}
    (h : arguments argument ts = .ok (ns, rest)) :
    (ns = [] ∧ Spans [.rightParen] ts rest) ∨
      ∃ (d : Phrase .expression) (a : Arguments),
        Spans (d.kinds ++ (a.kinds ++ [.rightParen])) ts rest ∧
          ns = (d.expr :: a.exprs).map .of ∧ max d.opens a.opens ≤ room := by
  unfold arguments at h
  split at h
  · next text pos ts =>
    cases h
    exact .inl ⟨rfl, .cons _ text pos (.nil _)⟩
  · obtain ⟨⟨arg, mid⟩, harg, h⟩ := ok_of_bind h
    obtain ⟨d, hd⟩ := hargument harg
    obtain ⟨⟨args, rest'⟩, hargs, h⟩ := ok_of_bind h
    cases h
    obtain ⟨a, hspans, rfl, hopens⟩ := sound_moreArguments hargument hargs
    refine .inr ⟨d, a, hd.spans.append hspans, ?_, Nat.max_le.mpr ⟨hd.opens, hopens⟩⟩
    rw [hd.node, List.map_cons]

theorem sound_lone {name : String} {n : Node} (h : lone name = .ok n) :
    ∃ e, Leaf (.name name) e ∧ n = .of e := by
  unfold lone at h
  split at h
  · next htrue =>
    cases h
    exact ⟨_, .isTrue htrue, rfl⟩
  · split at h
    · next hfalse =>
      cases h
      exact ⟨_, .isFalse hfalse, rfl⟩
    · exact nomatch h

theorem reading_leaf {kind : TokenKind} {e : Expr} (h : Leaf kind e) (text : String) (pos : Nat)
    (rest : List Token) :
    Reading limit room (.leaf kind e h) (⟨kind, text, pos⟩ :: rest) (.of e) rest where
  spans := .cons kind text pos (.nil rest)
  node := rfl
  opens := Nat.zero_le room
  height := by cases h <;> exact Nat.zero_le limit

theorem sound_named (hinner : SoundBelow limit room inner) {name : String} {ts : List Token}
    {n : Node} {rest : List Token} (h : named limit inner name ts = .ok (n, rest))
    (text : String) (pos : Nat) :
    ∃ d : Phrase .primary, Reading limit room d (⟨.name name, text, pos⟩ :: ts) n rest := by
  by_cases hcall : (ts.map Token.kind).head? = some .leftParen
  · obtain ⟨⟨_, text', pos'⟩, ts, rfl⟩ : ∃ t ts', ts = t :: ts' := by
      cases ts with
      | nil => exact nomatch hcall
      | cons t ts => exact ⟨t, ts, rfl⟩
    cases hcall
    cases hread : inner with
    | none =>
      rw [hread] at h
      exact nomatch h
    | some read =>
      rw [hread] at h
      obtain ⟨m, rfl, hsound⟩ := hinner read hread
      obtain ⟨⟨args, mid⟩, hargs, h⟩ := ok_of_bind h
      obtain ⟨node, hnode, h⟩ := ok_of_bind h
      cases h
      obtain ⟨rfl, hspans⟩ | ⟨d, a, hspans, rfl, hopens⟩ :=
        sound_arguments (hsound .expression) hargs
      · rw [← List.map_nil (f := Node.of), Node.call_of] at hnode
        obtain ⟨hheight, rfl⟩ := Node.bounded_eq_ok.mp hnode
        refine ⟨.constant name, ?_, rfl, Nat.le_add_left 1 m, hheight⟩
        exact .cons _ text pos (.cons _ text' pos' hspans)
      · rw [Node.call_of] at hnode
        obtain ⟨hheight, rfl⟩ := Node.bounded_eq_ok.mp hnode
        refine ⟨.call name d a, ?_, rfl, Nat.succ_le_succ hopens, hheight⟩
        exact .cons _ text pos (.cons _ text' pos' hspans)
  · rw [named_eq_lone hcall] at h
    obtain ⟨n, hlone, h⟩ := ok_of_bind h
    cases h
    obtain ⟨e, he, rfl⟩ := sound_lone hlone
    exact ⟨_, reading_leaf he text pos ts⟩

theorem sound_closing {ts rest : List Token} (h : closing ts = .ok rest) :
    Spans [.rightParen] ts rest := by
  unfold closing at h
  split at h
  · next text pos ts =>
    cases h
    exact .cons _ text pos (.nil _)
  · exact nomatch h
  · exact nomatch h
  · exact nomatch h

theorem sound_primary (hinner : SoundBelow limit room inner) :
    Sound limit room .primary (primary limit inner) := by
  intro ts n rest h
  unfold primary at h
  split at h
  · cases h
    exact ⟨_, reading_leaf (.int _ _) _ _ _⟩
  · cases h
    exact ⟨_, reading_leaf (.float _) _ _ _⟩
  · cases h
    exact ⟨_, reading_leaf (.text _) _ _ _⟩
  · cases h
    exact ⟨_, reading_leaf (.cell _) _ _ _⟩
  · cases h
    exact ⟨_, reading_leaf (.range _ _) _ _ _⟩
  · exact sound_named hinner h _ _
  · next text pos ts =>
    obtain ⟨⟨node, mid⟩, hnode, h⟩ := ok_of_bind h
    obtain ⟨rest', hclosing, h⟩ := ok_of_bind h
    cases h
    obtain ⟨m, rfl, d, hd⟩ := sound_deeper hinner hnode
    refine ⟨.group d, ?_, hd.node, Nat.succ_le_succ hd.opens, hd.height⟩
    exact .cons _ text pos (hd.spans.append (sound_closing hclosing))
  · exact nomatch h
  · exact nomatch h
  · exact nomatch h

theorem sound_unary (hinner : SoundBelow limit room inner) :
    Sound limit room .unary (unary limit inner) := by
  intro ts n rest h
  unfold unary at h
  split at h
  · obtain ⟨d, hd⟩ := sound_primary hinner h
    exact ⟨.plain d, hd.spans, hd.node, hd.opens, hd.height⟩
  · next op hop =>
    obtain ⟨o, ho, hop⟩ := Option.bind_eq_some_iff.mp hop
    obtain ⟨⟨operand, mid⟩, hoperand, h⟩ := ok_of_bind h
    obtain ⟨node, hnode, h⟩ := ok_of_bind h
    cases h
    obtain ⟨m, rfl, d, hd⟩ := sound_deeper hinner hoperand
    rw [hd.node, Node.unary_of] at hnode
    obtain ⟨hheight, rfl⟩ := Node.bounded_eq_ok.mp hnode
    refine ⟨.sign o op hop d, ?_, rfl, Nat.succ_le_succ hd.opens, hheight⟩
    exact (spans_operator ho).append hd.spans

theorem sound_power (hinner : SoundBelow limit room inner) :
    Sound limit room .power (power limit inner) := by
  intro ts n rest h
  obtain ⟨⟨base, mid⟩, hbase, h⟩ := ok_of_bind h
  obtain ⟨d, hd⟩ := sound_unary hinner hbase
  dsimp only at h
  split at h
  · next ho =>
    obtain ⟨⟨exponent, mid'⟩, hexponent, h⟩ := ok_of_bind h
    obtain ⟨node, hnode, h⟩ := ok_of_bind h
    cases h
    obtain ⟨m, rfl, d', hd'⟩ := sound_deeper hinner hexponent
    rw [hd.node, hd'.node, Node.binary_of] at hnode
    obtain ⟨hheight, rfl⟩ := Node.bounded_eq_ok.mp hnode
    refine ⟨.power d d', ?_, rfl, Nat.max_le.mpr ⟨hd.opens, Nat.succ_le_succ hd'.opens⟩, hheight⟩
    exact hd.spans.append ((spans_operator ho).append hd'.spans)
  · cases h
    exact ⟨.base d, hd.spans, hd.node, hd.opens, hd.height⟩

theorem sound_reader (hinner : SoundBelow limit room inner) (b : Binding) :
    Sound limit room b (reader limit inner b) := by
  have hproduct := sound_chain (c := .product) (sound_power hinner)
  have hsum := sound_chain (c := .sum) hproduct
  have hconcat := sound_chain (c := .concat) hsum
  match b with
  | .chain .comparison => exact sound_chain (c := .comparison) hconcat
  | .chain .concat => exact hconcat
  | .chain .sum => exact hsum
  | .chain .product => exact hproduct
  | .power => exact sound_power hinner
  | .unary => exact sound_unary hinner
  | .primary => exact sound_primary hinner

/-- What is read is a phrase that opens no more levels than there is room for. -/
theorem sound_read (goal : Goal) : Sound limit room goal.binding (read limit room goal) := by
  induction room generalizing goal with
  | zero =>
    have hnone : SoundBelow limit 0 (below limit 0) := fun _ hread => nomatch hread
    rw [read_eq_reader]
    exact sound_reader hnone _
  | succ room ih =>
    rw [read_eq_reader]
    refine sound_reader (fun read hread => ?_) _
    cases hread
    exact ⟨room, rfl, ih⟩

/-! ## A phrase is read -/

/-- An operator that goes on with a chain does not stand behind it. -/
theorem bind_op?_of_stops {c : Chain} {ts : List Token}
    (h : Stops (.chain c) (ts.map Token.kind)) : (operator? ts).bind c.op? = none := by
  cases hop : (operator? ts).bind c.op? with
  | none => rfl
  | some op =>
    obtain ⟨o, ho, hop⟩ := Option.bind_eq_some_iff.mp hop
    exact absurd (spans_operator ho).map_eq (h.ne_cons (Chain.continues hop) _)

theorem head?_ne_leftParen_of_stops {b : Binding} {ts : List Token}
    (h : Stops b (ts.map Token.kind)) : (ts.map Token.kind).head? ≠ some .leftParen :=
  fun hparen => h _ hparen trivial

theorem deeper_below (goal : Goal) :
    deeper (below limit (room + 1)) goal = reader limit (below limit room) goal.binding := by
  rw [← read_eq_reader]
  rfl

theorem primary_of_leaf {kind : TokenKind} {e : Expr} (h : Leaf kind e) (text : String) (pos : Nat)
    {rest : List Token} (hstops : Stops .primary (rest.map Token.kind)) :
    primary limit inner (⟨kind, text, pos⟩ :: rest) = .ok (.of e, rest) := by
  have hparen := head?_ne_leftParen_of_stops hstops
  cases h with
  | int x n => rfl
  | float x => rfl
  | text s => rfl
  | cell r => rfl
  | range a b => rfl
  | isTrue htrue =>
    rw [primary, named_eq_lone hparen, lone, if_pos htrue]
    rfl
  | isFalse hfalse =>
    rw [primary, named_eq_lone hparen, lone, if_neg (by simp [hfalse]), if_pos hfalse]
    rfl

theorem primary_of_call {read : Goal → Reader} {name : String} {ts rest : List Token}
    (es : List Expr) (text text' : String) (pos pos' : Nat)
    (hargs : arguments (read .expression) ts = .ok (es.map .of, rest))
    (hheight : (Expr.call name es).height ≤ limit) :
    primary limit (some read) (⟨.name name, text, pos⟩ :: ⟨.leftParen, text', pos'⟩ :: ts) =
      .ok (.of (.call name es), rest) := by
  rw [primary, named]
  dsimp only
  rw [hargs, ok_bind, Node.call_of, Node.bounded_of hheight]
  rfl

theorem primary_of_group {text text' : String} {pos pos' : Nat} {ts rest : List Token} {n : Node}
    (hinner : deeper inner .expression ts = .ok (n, ⟨.rightParen, text', pos'⟩ :: rest)) :
    primary limit inner (⟨.leftParen, text, pos⟩ :: ts) = .ok (n, rest) := by
  rw [primary, hinner]
  rfl

theorem unary_of_sign {ts rest : List Token} {op : UnaryOp} {e : Expr}
    (h : (operator? ts).bind sign? = some op)
    (hoperand : deeper inner .unary ts.tail = .ok (.of e, rest))
    (hheight : (Expr.unary op e).height ≤ limit) :
    unary limit inner ts = .ok (.of (.unary op e), rest) := by
  rw [unary, h]
  dsimp only
  rw [hoperand, ok_bind, Node.unary_of, Node.bounded_of hheight]
  rfl

theorem unary_of_primary {ts : List Token} (h : ∀ o, operator? ts ≠ some o) :
    unary limit inner ts = primary limit inner ts := by
  rw [unary, Option.eq_none_iff_forall_ne_some.mpr h]
  rfl

theorem power_of_caret {ts mid rest : List Token} {e e' : Expr}
    (hbase : unary limit inner ts = .ok (.of e, mid)) (h : operator? mid = some .caret)
    (hexponent : deeper inner .power mid.tail = .ok (.of e', rest))
    (hheight : (Expr.binary .power e e').height ≤ limit) :
    power limit inner ts = .ok (.of (.binary .power e e'), rest) := by
  rw [power, hbase, ok_bind]
  dsimp only
  rw [if_pos h, hexponent, ok_bind, Node.binary_of, Node.bounded_of hheight]
  rfl

theorem power_of_base {ts rest : List Token} {n : Node}
    (hbase : unary limit inner ts = .ok (n, rest)) (h : operator? rest ≠ some .caret) :
    power limit inner ts = .ok (n, rest) := by
  rw [power, hbase, ok_bind]
  exact if_neg h

theorem links_of_operand {op? : Operator → Option BinaryOp} {operand : Reader} {op : BinaryOp}
    {ts mid fuel : List Token} {left e : Expr} (t : Token)
    (h : (operator? ts).bind op? = some op) (hoperand : operand ts.tail = .ok (.of e, mid))
    (hheight : (Expr.binary op left e).height ≤ limit) :
    links limit op? operand (t :: fuel) (.of left) ts =
      links limit op? operand fuel (.of (.binary op left e)) mid := by
  rw [links_eq_of_some h, hoperand, ok_bind]
  dsimp only
  rw [Node.binary_of, Node.bounded_of hheight, ok_bind]

theorem moreArguments_of_argument {argument : Reader} {text : String} {pos : Nat}
    {ts mid rest fuel : List Token} {n : Node} {ns : List Node} (t : Token)
    (hargument : argument ts = .ok (n, mid))
    (hmore : moreArguments argument fuel mid = .ok (ns, rest)) :
    moreArguments argument (t :: fuel) (⟨.comma, text, pos⟩ :: ts) = .ok (n :: ns, rest) := by
  rw [moreArguments]
  dsimp only
  rw [hargument, ok_bind]
  dsimp only
  rw [hmore]
  rfl

theorem arguments_of_argument {argument : Reader} {ts mid rest : List Token} {n : Node}
    {ns : List Node} (h : (ts.map Token.kind).head? ≠ some .rightParen)
    (hargument : argument ts = .ok (n, mid))
    (hmore : moreArguments argument mid mid = .ok (ns, rest)) :
    arguments argument ts = .ok (n :: ns, rest) := by
  rw [arguments_eq h, hargument, ok_bind]
  dsimp only
  rw [hmore]
  rfl

end Parser

/-- A chain is no shorter than what it begins with. -/
theorem Links.height_le {c : Chain} (l : Links c) (left : Expr) :
    left.height ≤ (l.expr left).height := by
  match l with
  | .done => exact Nat.le_refl _
  | .link o op _ operand more =>
    calc left.height
      _ ≤ (Expr.binary op left operand.expr).height := by
        rw [Expr.height]
        omega
      _ ≤ (more.expr (.binary op left operand.expr)).height := more.height_le _

open Formula.Parser

mutual

/-- A phrase within the limits is read, up to where it ends. -/
theorem Phrase.reads {limit : Nat} {b : Binding} : (d : Phrase b) → {room : Nat} →
    {ts rest : List Token} → Spans d.kinds ts rest → Stops b (rest.map Token.kind) →
    d.opens ≤ room → d.expr.height ≤ limit →
    reader limit (below limit room) b ts = .ok (.of d.expr, rest)
  | .chain (c := c) first more, room, ts, rest, hspans, hstops, hopens, hheight => by
    obtain ⟨hopens, hmoreopens⟩ := Nat.max_le.mp hopens
    obtain ⟨mid, hfirst, hmore⟩ := Spans.of_append hspans
    have hmid : Stops c.operand (mid.map Token.kind) := by
      rw [hmore.map_eq]
      exact hstops.links more
    have hleft := first.reads hfirst hmid hopens (Nat.le_trans (more.height_le _) hheight)
    rw [reader_chain, Parser.chain, hleft]
    exact more.reads hmore hstops (Nat.le_refl _) hmoreopens hheight
  | .base p, room, ts, rest, hspans, hstops, hopens, hheight => by
    have hcaret : operator? rest ≠ some .caret := fun ho =>
      hstops.ne_cons (Nat.le_refl _) _ (spans_operator ho).map_eq
    exact power_of_base (p.reads hspans hstops.base hopens hheight) hcaret
  | .power left exponent, 0, ts, rest, hspans, hstops, hopens, hheight => by
    exact absurd (Nat.max_le.mp hopens).2 (Nat.not_succ_le_zero _)
  | .power left exponent, room + 1, ts, rest, hspans, hstops, hopens, hheight => by
    obtain ⟨hopens, hexponentopens⟩ := Nat.max_le.mp hopens
    obtain ⟨hleftheight, hexponentheight⟩ := Nat.max_le.mp (Nat.le_of_succ_le hheight)
    obtain ⟨mid, hleft, hspans⟩ := Spans.of_append hspans
    cases hspans with
    | @cons _ text pos _ mid _ hexponent =>
      have hbase := left.reads hleft .caret hopens hleftheight
      have hexponent := exponent.reads hexponent hstops (Nat.le_of_succ_le_succ hexponentopens)
        hexponentheight
      exact power_of_caret hbase rfl ((congrFun (deeper_below .power) mid).trans hexponent) hheight
  | .sign o op hop operand, 0, ts, rest, hspans, hstops, hopens, hheight => nomatch hopens
  | .sign o op hop operand, room + 1, ts, rest, hspans, hstops, hopens, hheight => by
    cases hspans with
    | @cons _ text pos _ ts _ hspans =>
      have hoperand := operand.reads hspans hstops (Nat.le_of_succ_le_succ hopens)
        (Nat.le_of_succ_le hheight)
      exact unary_of_sign hop ((congrFun (deeper_below .unary) ts).trans hoperand) hheight
  | .plain p, room, ts, rest, hspans, hstops, hopens, hheight => by
    have hop : ∀ o, operator? ts ≠ some o := fun o ho =>
      p.primary_ne_op o _ _ (hspans.map_eq.symm.trans (spans_operator ho).map_eq)
    exact (unary_of_primary hop).trans (p.reads hspans hstops hopens hheight)
  | .leaf kind e he, room, ts, rest, hspans, hstops, hopens, hheight => by
    cases hspans with
    | cons _ text pos hspans =>
      cases hspans
      exact primary_of_leaf he text pos hstops
  | .constant name, 0, ts, rest, hspans, hstops, hopens, hheight => nomatch hopens
  | .constant name, room + 1, ts, rest, hspans, hstops, hopens, hheight => by
    cases hspans with
    | cons _ text pos hspans =>
      cases hspans with
      | cons _ text' pos' hspans =>
        cases hspans with
        | cons _ text'' pos'' hspans =>
          cases hspans
          exact primary_of_call [] text text' pos pos' rfl hheight
  | .call name first more, 0, ts, rest, hspans, hstops, hopens, hheight => nomatch hopens
  | .call name first more, room + 1, ts, rest, hspans, hstops, hopens, hheight => by
    obtain ⟨hopens, hmoreopens⟩ := Nat.max_le.mp (Nat.le_of_succ_le_succ hopens)
    obtain ⟨hfirstheight, hmoreheight⟩ := Nat.max_le.mp (Nat.le_of_succ_le hheight)
    cases hspans with
    | cons _ text pos hspans =>
      cases hspans with
      | @cons _ text' pos' _ ts _ hspans =>
        obtain ⟨mid, hfirst, hmore⟩ := hspans.of_append
        have hmid : Stops .expression (mid.map Token.kind) := by
          rw [hmore.map_eq, List.append_assoc]
          exact .arguments more
        have hparen : (ts.map Token.kind).head? ≠ some .rightParen := by
          intro hhead
          obtain ⟨ks, hks⟩ := List.head?_eq_some_iff.mp hhead
          exact first.ne_rightParen _ _ (hfirst.map_eq.symm.trans hks)
        have hfirst := first.reads hfirst hmid hopens hfirstheight
        have hmore := more.reads hmore (Nat.le_refl _) hmoreopens hmoreheight
        refine primary_of_call (first.expr :: more.exprs) text text' pos pos' ?_ hheight
        rw [read_eq_reader]
        exact arguments_of_argument hparen hfirst hmore
  | .group inner, 0, ts, rest, hspans, hstops, hopens, hheight => nomatch hopens
  | .group inner, room + 1, ts, rest, hspans, hstops, hopens, hheight => by
    cases hspans with
    | @cons _ text pos _ ts _ hspans =>
      obtain ⟨mid, hinner, hclosing⟩ := hspans.of_append
      cases hclosing with
      | cons _ text' pos' hclosing =>
        cases hclosing
        have hinner := inner.reads hinner .rightParen (Nat.le_of_succ_le_succ hopens) hheight
        rw [reader_primary]
        exact primary_of_group ((congrFun (deeper_below .expression) ts).trans hinner)

theorem Links.reads {limit : Nat} {c : Chain} : (l : Links c) → {room : Nat} →
    {ts rest : List Token} → {fuel : List Token} → {left : Expr} → Spans l.kinds ts rest →
    Stops (.chain c) (rest.map Token.kind) → ts.length ≤ fuel.length → l.opens ≤ room →
    (l.expr left).height ≤ limit →
    links limit c.op? (reader limit (below limit room) c.operand) fuel (.of left) ts =
      .ok (.of (l.expr left), rest)
  | .done, room, ts, rest, fuel, left, hspans, hstops, hfuel, hopens, hheight => by
    cases hspans
    exact links_eq_of_none (bind_op?_of_stops hstops) fuel
  | .link o op hop operand more, room, ts, rest, fuel, left, hspans, hstops, hfuel, hopens,
      hheight => by
    obtain ⟨hopens, hmoreopens⟩ := Nat.max_le.mp hopens
    have hnode := Nat.le_trans (more.height_le (.binary op left operand.expr)) hheight
    cases hspans with
    | @cons _ text pos _ ts _ hspans =>
      obtain ⟨t, fuel, rfl⟩ := List.exists_cons_of_length_pos (Nat.zero_lt_of_lt hfuel)
      obtain ⟨mid, hoperand, hmore⟩ := hspans.of_append
      have hmid : Stops c.operand (mid.map Token.kind) := by
        rw [hmore.map_eq]
        exact hstops.links more
      have hright := operand.reads hoperand hmid hopens
        (Nat.le_trans (Nat.le_max_right _ _) (Nat.le_of_succ_le hnode))
      have hlength := Nat.le_trans hoperand.length_le (Nat.le_of_succ_le_succ hfuel)
      have hlink : (operator? (⟨.op o, text, pos⟩ :: ts)).bind c.op? = some op := hop
      rw [links_of_operand t hlink hright hnode]
      exact more.reads hmore hstops hlength hmoreopens hheight

theorem Arguments.reads {limit : Nat} : (a : Arguments) → {room : Nat} →
    {ts rest : List Token} → {fuel : List Token} → Spans (a.kinds ++ [.rightParen]) ts rest →
    ts.length ≤ fuel.length → a.opens ≤ room → Expr.heightOf a.exprs ≤ limit →
    moreArguments (reader limit (below limit room) .expression) fuel ts =
      .ok (a.exprs.map .of, rest)
  | .done, room, ts, rest, fuel, hspans, hfuel, hopens, hheight => by
    cases hspans with
    | cons _ text pos hspans =>
      cases hspans
      obtain ⟨t, fuel, rfl⟩ := List.exists_cons_of_length_pos (Nat.zero_lt_of_lt hfuel)
      rfl
  | .next argument more, room, ts, rest, fuel, hspans, hfuel, hopens, hheight => by
    obtain ⟨hopens, hmoreopens⟩ := Nat.max_le.mp hopens
    obtain ⟨hargumentheight, hmoreheight⟩ := Nat.max_le.mp hheight
    rw [Arguments.kinds, List.cons_append, List.append_assoc] at hspans
    cases hspans with
    | @cons _ text pos _ ts _ hspans =>
      obtain ⟨t, fuel, rfl⟩ := List.exists_cons_of_length_pos (Nat.zero_lt_of_lt hfuel)
      obtain ⟨mid, hargument, hmore⟩ := hspans.of_append
      have hmid : Stops .expression (mid.map Token.kind) := by
        rw [hmore.map_eq, List.append_assoc]
        exact .arguments more
      have hlength := Nat.le_trans hargument.length_le (Nat.le_of_succ_le_succ hfuel)
      have hargument := argument.reads hargument hmid hopens hargumentheight
      exact moreArguments_of_argument t hargument
        (more.reads hmore hlength hmoreopens hmoreheight)

end

/-! ## Whole lists of tokens -/

/-- The end token stands at the end of the list, and nowhere else. -/
def Ended (ts : List Token) : Prop :=
  ∃ (body : List Token) (last : Token), ts = body ++ [last] ∧ last.kind = .eof ∧
    ∀ t ∈ body, t.kind ≠ .eof

/-- The phrase derives the expression from the whole list of tokens, within the limit. -/
structure Derives (limit : Nat) (d : Phrase .expression) (ts : List Token) (e : Expr) : Prop where
  kinds : ts.map Token.kind = d.kinds ++ [.eof]
  namesApart : d.NamesApart [.eof]
  expr : d.expr = e
  opens : d.opens ≤ limit
  height : e.height ≤ limit

variable {limit : Nat} {ts : List Token} {e : Expr}

theorem Ended.upToEnd (h : Ended ts) : ∃ n, UpToEnd n ts ts := by
  obtain ⟨body, last, rfl, hlast, -⟩ := h
  have hsame := UpToEnd.append hlast body []
  rw [List.append_nil] at hsame
  exact ⟨body.length, hsame⟩

/-- An end token in the list is the last token. -/
theorem Ended.nothing_behind (h : Ended ts) {kinds rest : List TokenKind}
    (heq : ts.map Token.kind = kinds ++ .eof :: rest) : rest = [] := by
  obtain ⟨body, last, rfl, hlast, hbody⟩ := h
  have hnotMem : .eof ∉ body.map Token.kind := by
    intro hmem
    obtain ⟨t, ht, hkind⟩ := List.mem_map.mp hmem
    exact hbody t ht hkind
  rw [List.map_append, List.map_singleton, hlast] at heq
  exact ((List.append_cons_inj_of_notMem hnotMem List.not_mem_nil).mp heq).2.2.symm

namespace Expr

/-- What a reader reads as a whole is a phrase up to the end. -/
theorem derives_of_ofTokens (hended : Ended ts) (h : ofTokens limit ts = .ok e) :
    ∃ d, Derives limit d ts e := by
  obtain ⟨⟨node, rest⟩, hread, h⟩ := ok_of_bind h
  obtain ⟨n, hsame⟩ := hended.upToEnd
  obtain ⟨d, hd⟩ := sound_read .expression hread
  have hagree := local_read limit limit .expression hsame
  rw [hread] at hagree
  cases hagree with
  | ok _ hm hrest =>
    cases rest with
    | nil => exact absurd rfl hrest.ne_nil
    | cons t rest =>
      obtain ⟨kind, text, pos⟩ := t
      cases kind with
      | eof =>
        cases h
        have hkinds : ts.map Token.kind = d.kinds ++ .eof :: rest.map Token.kind := hd.spans.map_eq
        have hnil := hended.nothing_behind hkinds
        rw [hnil] at hkinds
        have hexpr : d.expr = node.expr := by rw [hd.node, Node.of]
        exact ⟨d, hkinds, d.namesApart .eof, hexpr, hd.opens, hexpr ▸ hd.height⟩
      | _ => exact nomatch h

/-- A phrase up to the end is read as a whole. -/
theorem ofTokens_of_derives {d : Phrase .expression} (h : Derives limit d ts e) :
    ofTokens limit ts = .ok e := by
  obtain ⟨rest, hspans, hrest⟩ := Spans.of_map_eq h.kinds
  have hstops : Stops .expression (rest.map Token.kind) := by
    rw [hrest]
    exact .eof
  have hread := d.reads hspans hstops h.opens (h.expr ▸ h.height)
  obtain ⟨⟨kind, text, pos⟩, rest, rfl, rfl, -⟩ := List.map_eq_cons_iff.mp hrest
  rw [ofTokens, read_eq_reader, Goal.binding, hread, ok_bind, Node.of]
  exact congrArg Except.ok h.expr

/-- The expression of a formula is no taller than the limit, whatever its text. -/
theorem height_le_of_ofTokens (h : ofTokens limit ts = .ok e) : e.height ≤ limit := by
  obtain ⟨⟨node, rest⟩, hread, h⟩ := ok_of_bind h
  obtain ⟨d, hd⟩ := sound_read .expression hread
  have hexpr : d.expr = node.expr := by rw [hd.node, Node.of]
  have hheight := hd.height
  rw [hexpr] at hheight
  dsimp only at h
  split at h
  · cases h
    exact hheight
  · cases h
    exact hheight
  · exact nomatch h

theorem height_le_of_ofText {text : String} (h : ofText limit text = .ok e) :
    e.height ≤ limit := by
  unfold ofText at h
  dsimp only at h
  split at h
  · exact nomatch h
  · obtain ⟨ts, -, h⟩ := ok_of_bind h
    exact height_le_of_ofTokens h

end Expr

/-- Of the lists that end with their only end token, the reader accepts those that a phrase of the
grammar derives within the limit, and gives the expression of that phrase, of which there is only
one. The reading of no phrase goes beyond the end token: some of the list is always left over, and
what would stand behind it makes no difference. -/
theorem reader_accepts_exactly_the_grammar (limit : Nat) (ts : List Token) (h : Ended ts) :
    (∀ e, Expr.ofTokens limit ts = .ok e ↔ ∃ d, Derives limit d ts e) ∧
    (∀ d d' : Phrase .expression, ts.map Token.kind = d.kinds ++ [.eof] →
      ts.map Token.kind = d'.kinds ++ [.eof] → d = d') ∧
    (∀ room goal n rest, read limit room goal ts = .ok (n, rest) → rest ≠ [] ∧ rest <:+ ts) ∧
    ∀ extra, Expr.ofTokens limit (ts ++ extra) = Expr.ofTokens limit ts := by
  refine ⟨fun e => ⟨Expr.derives_of_ofTokens h, ?_⟩, ?_, ?_, ?_⟩
  · rintro ⟨d, hd⟩
    exact Expr.ofTokens_of_derives hd
  · intro d d' hd hd'
    exact (d.unique d' (hd.symm.trans hd') .eof .eof).1
  · intro room goal n rest hread
    obtain ⟨m, hsame⟩ := h.upToEnd
    obtain ⟨d, hd⟩ := sound_read goal hread
    have hagree := local_read limit room goal hsame
    rw [hread] at hagree
    cases hagree with
    | ok _ _ hrest => exact ⟨hrest.ne_nil, hd.spans.isSuffix⟩
  · intro extra
    obtain ⟨body, last, rfl, hlast, -⟩ := h
    exact Expr.ofTokens_append hlast body extra

/-- A sign binds tighter than a power. One level fewer is too few for the height, though no two
levels are open at once. -/
theorem reader_accepts_exactly_the_grammar_signed_square :
    let two : Token := ⟨.number 2 (some 2), "2", 1⟩
    let ts := [⟨.op .minus, "-", 0⟩, two, ⟨.op .caret, "^", 2⟩, two, ⟨.eof, "", 4⟩]
    let e : Expr := .binary .power (.unary .negate (.literal (.int 2))) (.literal (.int 2))
    Ended ts ∧ (∃ d, Derives 2 d ts e) ∧ ¬ ∃ d, Derives 1 d ts e := by
  intro two ts e
  have hended : Ended ts := ⟨ts.dropLast, ⟨.eof, "", 4⟩, rfl, rfl, by simp [ts, two]⟩
  obtain ⟨htwo, -⟩ := reader_accepts_exactly_the_grammar 2 ts hended
  obtain ⟨hone, -⟩ := reader_accepts_exactly_the_grammar 1 ts hended
  refine ⟨hended, (htwo e).mp rfl, fun hd => ?_⟩
  have hread : Expr.ofTokens 1 ts = .ok e := (hone e).mpr hd
  exact nomatch hread

end Spreadsheet.Formula
