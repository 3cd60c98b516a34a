import Spreadsheet.Formula.Parser
import Spreadsheet.Proofs.Strict

/-!
# What a formula reads as

The limit on levels decides whether a text is read, never as what: a reader with a larger limit
reads whatever one with a smaller limit reads, and as the same expression. What is read holds no
error as a literal, since no token stands for one.

Both are said at once, since both follow the reader step by step: `Follows Q x y` says that `y`
gives whatever `x` gives, and that this has `Q`.

Results:
1. `Parser.reads_links` to `Parser.reads_expression`: the readers of each level of binding;
2. `Parser.reads_read`: a reader with more levels follows one with fewer;
3. `Expr.ofText_of_le`, `Expr.clean_of_ofText`: the same for texts.
-/

namespace Spreadsheet

/-! ## One computation after another -/

/-- Whatever the first computation gives has `Q`, and the second one gives it too. -/
def Follows {ε α : Type} (Q : α → Prop) (x y : Except ε α) : Prop :=
  ∀ a, x = .ok a → y = .ok a ∧ Q a

namespace Follows

variable {ε α β : Type} {Q : α → Prop} {R : β → Prop} {x y : Except ε α}

theorem refl (x : Except ε α) : Follows (fun _ => True) x x :=
  fun _ hx => ⟨hx, trivial⟩

theorem ok {a : α} (h : Q a) : Follows Q (.ok a : Except ε α) (.ok a) := by
  intro b hb
  cases hb
  exact ⟨rfl, h⟩

theorem error (e : ε) : Follows Q (.error e) y := nofun

theorem bind {f g : α → Except ε β} (hx : Follows Q x y)
    (hf : ∀ a, Q a → Follows R (f a) (g a)) : Follows R (x >>= f) (y >>= g) := by
  intro b hb
  cases hxa : x with
  | error e =>
    rw [hxa] at hb
    exact nomatch hb
  | ok a =>
    obtain ⟨hya, ha⟩ := hx a hxa
    rw [hxa] at hb
    rw [hya]
    exact hf a ha b hb

end Follows

namespace Formula

open Value

/-! ## Expressions without errors -/

/-- No literal in the expression holds an error. -/
inductive Expr.Clean : Expr → Prop where
  | literal {v : Value} (h : v.fault? = none) : Clean (.literal v)
  | cell (r : Reference) : Clean (.cell r)
  | range (r : RangeRef) : Clean (.range r)
  | unary (op : UnaryOp) {e : Expr} (h : Clean e) : Clean (.unary op e)
  | binary (op : BinaryOp) {l r : Expr} (hl : Clean l) (hr : Clean r) : Clean (.binary op l r)
  | call (name : String) {args : List Expr} (h : ∀ e ∈ args, Clean e) : Clean (.call name args)

/-- No literal in the expression of the node holds an error. -/
def Node.Clean (n : Node) : Prop :=
  n.expr.Clean

/-! ## The steps of a reader -/

/-- A reader that follows another one, step by step on the same tokens. -/
def Reads (r r' : Reader) : Prop :=
  ∀ ts, Follows (fun p => p.1.Clean) (r ts) (r' ts)

variable {limit limit' : Nat}

namespace Node

theorem follows_bounded (h : limit ≤ limit') {n : Node} (hn : n.Clean) :
    Follows Clean (bounded limit n) (bounded limit' n) := by
  unfold bounded
  split
  · next hlt =>
    rw [if_pos (Nat.le_trans hlt h)]
    exact .ok hn
  · exact .error _

theorem follows_binary (h : limit ≤ limit') (op : BinaryOp) {l r : Node} (hl : l.Clean)
    (hr : r.Clean) : Follows Clean (binary limit op l r) (binary limit' op l r) :=
  follows_bounded h (.binary op hl hr)

theorem follows_unary (h : limit ≤ limit') (op : UnaryOp) {n : Node} (hn : n.Clean) :
    Follows Clean (unary limit op n) (unary limit' op n) :=
  follows_bounded h (.unary op hn)

theorem follows_call (h : limit ≤ limit') (name : String) {args : List Node}
    (hargs : ∀ n ∈ args, n.Clean) :
    Follows Clean (call limit name args) (call limit' name args) := by
  refine follows_bounded h (.call name fun e he => ?_)
  obtain ⟨n, hn, rfl⟩ := List.mem_map.mp he
  exact hargs n hn

end Node

namespace Parser

/-- Readers one level down that follow those of another limit, if these have a level left. -/
def Deeper (inner inner' : Option (Goal → Reader)) : Prop :=
  ∀ read, inner = some read → ∃ read', inner' = some read' ∧ ∀ goal, Reads (read goal) (read' goal)

variable {operand operand' : Reader} {inner inner' : Option (Goal → Reader)}

theorem reads_links (h : limit ≤ limit') (op? : Operator → Option BinaryOp)
    (hoperand : Reads operand operand') (fuel : List Token) {left : Node} (hleft : left.Clean) :
    Reads (links limit op? operand fuel left) (links limit' op? operand' fuel left) := by
  intro ts
  induction fuel generalizing left ts with
  | nil => exact .ok hleft
  | cons _ fuel ih =>
    unfold links
    split
    · exact .ok hleft
    · next op _ =>
      refine (hoperand ts.tail).bind fun ⟨right, ts⟩ hright => ?_
      refine (Node.follows_binary h op hleft hright).bind fun node hnode => ?_
      exact ih hnode ts

theorem reads_chain (h : limit ≤ limit') (op? : Operator → Option BinaryOp)
    (hoperand : Reads operand operand') :
    Reads (chain limit op? operand) (chain limit' op? operand') :=
  fun ts => (hoperand ts).bind fun ⟨_, rest⟩ hleft => reads_links h op? hoperand rest hleft rest

theorem reads_deeper (hinner : Deeper inner inner') (goal : Goal) :
    Reads (deeper inner goal) (deeper inner' goal) := by
  intro ts
  cases hread : inner with
  | none => exact .error _
  | some read =>
    obtain ⟨read', hread', hreads⟩ := hinner read hread
    rw [hread']
    exact hreads goal ts

theorem follows_moreArguments {argument argument' : Reader} (h : Reads argument argument')
    (fuel ts : List Token) :
    Follows (fun p => ∀ n ∈ p.1, n.Clean) (moreArguments argument fuel ts)
      (moreArguments argument' fuel ts) := by
  induction fuel generalizing ts with
  | nil => exact .error _
  | cons _ fuel ih =>
    unfold moreArguments
    split
    · next ts =>
      refine (h ts).bind fun ⟨arg, ts⟩ harg => ?_
      refine (ih ts).bind fun ⟨args, ts⟩ hargs => ?_
      exact .ok (List.forall_mem_cons.mpr ⟨harg, hargs⟩)
    · exact .ok (by simp)
    · exact .error _
    · exact .error _
    · exact .error _

theorem follows_arguments {argument argument' : Reader} (h : Reads argument argument')
    (ts : List Token) :
    Follows (fun p => ∀ n ∈ p.1, n.Clean) (arguments argument ts) (arguments argument' ts) := by
  unfold arguments
  split
  · exact .ok (by simp)
  · refine (h ts).bind fun ⟨arg, ts⟩ harg => ?_
    refine (follows_moreArguments h ts ts).bind fun ⟨args, ts⟩ hargs => ?_
    exact .ok (List.forall_mem_cons.mpr ⟨harg, hargs⟩)

theorem reads_named (h : limit ≤ limit') (hinner : Deeper inner inner') (name : String) :
    Reads (named limit inner name) (named limit' inner' name) := by
  intro ts
  unfold named
  split
  · next ts =>
    cases hread : inner with
    | none => exact .error _
    | some read =>
      obtain ⟨read', hread', hreads⟩ := hinner read hread
      rw [hread']
      refine (follows_arguments (hreads .expression) ts).bind fun ⟨args, ts⟩ hargs => ?_
      refine (Node.follows_call h name hargs).bind fun node hnode => ?_
      exact .ok hnode
  · split
    · exact .ok (.literal rfl)
    · split
      · exact .ok (.literal rfl)
      · exact .error _

theorem reads_primary (h : limit ≤ limit') (hinner : Deeper inner inner') :
    Reads (primary limit inner) (primary limit' inner') := by
  intro ts
  unfold primary
  split
  · exact .ok (.literal rfl)
  · exact .ok (.literal rfl)
  · exact .ok (.literal rfl)
  · exact .ok (.cell _)
  · exact .ok (.range _)
  · next s _ _ ts => exact reads_named h hinner s ts
  · next ts =>
    refine (reads_deeper hinner .expression ts).bind fun ⟨node, ts⟩ hnode => ?_
    exact (Follows.refl (closing ts)).bind fun _ _ => .ok hnode
  · exact .error _
  · exact .error _
  · exact .error _

theorem reads_unary (h : limit ≤ limit') (hinner : Deeper inner inner') :
    Reads (unary limit inner) (unary limit' inner') := by
  intro ts
  unfold unary
  split
  · exact reads_primary h hinner ts
  · next op _ =>
    refine (reads_deeper hinner .unary ts.tail).bind fun ⟨operand, ts⟩ hoperand => ?_
    refine (Node.follows_unary h op hoperand).bind fun node hnode => ?_
    exact .ok hnode

theorem reads_power (h : limit ≤ limit') (hinner : Deeper inner inner') :
    Reads (power limit inner) (power limit' inner') := by
  intro ts
  refine (reads_unary h hinner ts).bind fun ⟨base, ts⟩ hbase => ?_
  dsimp only
  split
  · refine (reads_deeper hinner .power ts.tail).bind fun ⟨exponent, ts⟩ hexponent => ?_
    refine (Node.follows_binary h .power hbase hexponent).bind fun node hnode => ?_
    exact .ok hnode
  · exact .ok hbase

theorem reads_expression (h : limit ≤ limit') (hinner : Deeper inner inner') :
    Reads (expression limit inner) (expression limit' inner') :=
  reads_chain h _ <| reads_chain h _ <| reads_chain h _ <| reads_chain h _ <| reads_power h hinner

theorem reads_level (h : limit ≤ limit') (hinner : Deeper inner inner') (goal : Goal) :
    Reads (level limit inner goal) (level limit' inner' goal) := by
  cases goal with
  | expression => exact reads_expression h hinner
  | power => exact reads_power h hinner
  | unary => exact reads_unary h hinner

/-- A reader that may open more levels, and build taller trees, follows one that may not. -/
theorem reads_read (h : limit ≤ limit') {room room' : Nat} (hroom : room ≤ room') (goal : Goal) :
    Reads (read limit room goal) (read limit' room' goal) := by
  induction room generalizing room' goal with
  | zero =>
    have hnone : ∀ inner', Deeper none inner' := fun _ _ hread => nomatch hread
    cases room' with
    | zero => exact reads_level h (hnone _) goal
    | succ room' => exact reads_level h (hnone _) goal
  | succ room ih =>
    obtain ⟨room', rfl⟩ : ∃ n, room' = n + 1 := ⟨room' - 1, by omega⟩
    refine reads_level h (fun read hread => ?_) goal
    cases hread
    exact ⟨_, rfl, fun goal => ih (Nat.le_of_succ_le_succ hroom) goal⟩

end Parser

/-! ## Texts -/

namespace Expr

theorem follows_ofTokens (h : limit ≤ limit') (ts : List Token) :
    Follows Clean (ofTokens limit ts) (ofTokens limit' ts) := by
  unfold ofTokens
  refine (Parser.reads_read h h .expression ts).bind fun ⟨node, rest⟩ hnode => ?_
  dsimp only
  split
  · exact .ok hnode
  · exact .ok hnode
  · exact .error _

theorem follows_ofText (h : limit ≤ limit') (text : String) :
    Follows Clean (ofText limit text) (ofText limit' text) := by
  unfold ofText
  dsimp only
  split
  · exact .error _
  · exact (Follows.refl (tokensFrom 0 (body text))).bind fun ts _ => follows_ofTokens h ts

/-- A text that is read under a limit is read as the same expression under a larger one. -/
theorem ofText_of_le (h : limit ≤ limit') {text : String} {e : Expr}
    (he : ofText limit text = .ok e) : ofText limit' text = .ok e :=
  (follows_ofText h text e he).1

/-- No text reads as an expression with an error in it. -/
theorem clean_of_ofText {text : String} {e : Expr} (he : ofText limit text = .ok e) : e.Clean :=
  (follows_ofText (Nat.le_refl limit) text e he).2

end Expr

end Formula

end Spreadsheet
