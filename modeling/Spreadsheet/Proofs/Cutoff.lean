import Spreadsheet.Proofs.Names

/-!
# What the limit on levels decides

The limit on levels stops a reading, and does nothing else. Two readers with different limits take
the same tokens in the same order. The one with the smaller limit may refuse a level or a tree that
the other one lets pass; up to there both have done the same, so the error of the one is then that
of depth, and the other may find anything at all. If the smaller limit refuses nothing, whatever
comes of the text comes of it under every larger limit: the same expression, or the same fault at
the same place.

`CutsOff x y` says this of two results, and the readers keep it one by one.

Results:
1. `CutsOff.bind`: what is read in turn is cut off where a part of it is;
2. `Parser.cutsOff_links` to `Parser.cutsOff_expression`: the readers of each level of binding;
3. `Parser.cutsOff_read`: a reader with fewer levels against one with more;
4. `limit_only_cuts_off`: the same for texts.
-/

namespace Spreadsheet.Formula

/-! ## Results that are cut off -/

/-- The first result is the error of depth, or the second one is the same. -/
def CutsOff {α : Type} (x y : Except FormulaError α) : Prop :=
  x = .error .tooDeep ∨ y = x

namespace CutsOff

variable {α β : Type} {x y : Except FormulaError α}

theorem refl (x : Except FormulaError α) : CutsOff x x :=
  .inr rfl

theorem tooDeep (y : Except FormulaError α) : CutsOff (.error .tooDeep) y :=
  .inl rfl

theorem bind {f g : α → Except FormulaError β} (h : CutsOff x y)
    (hfg : ∀ a, CutsOff (f a) (g a)) : CutsOff (x >>= f) (y >>= g) := by
  rcases h with rfl | rfl
  · exact tooDeep _
  · cases y with
    | error e => exact refl _
    | ok a => exact hfg a

end CutsOff

/-! ## The steps of a reader -/

/-- On the same tokens, the first reader cuts off the second. -/
def Reader.CutsOff (r r' : Reader) : Prop :=
  ∀ ts, Formula.CutsOff (r ts) (r' ts)

variable {limit limit' : Nat}

theorem Node.cutsOff_bounded (h : limit ≤ limit') (n : Node) :
    CutsOff (bounded limit n) (bounded limit' n) := by
  unfold bounded
  split
  · next hlt =>
    rw [if_pos (Nat.le_trans hlt h)]
    exact .refl _
  · exact .tooDeep _

namespace Parser

/-- The readers one level down are cut off by others, or by there being no level left. -/
def BelowCutsOff (inner inner' : Option (Goal → Reader)) : Prop :=
  ∀ read, inner = some read →
    ∃ read', inner' = some read' ∧ ∀ goal, (read goal).CutsOff (read' goal)

variable {operand operand' argument argument' : Reader} {inner inner' : Option (Goal → Reader)}

theorem cutsOff_links (h : limit ≤ limit') (op? : Operator → Option BinaryOp)
    (hoperand : operand.CutsOff operand') (fuel : List Token) (left : Node) :
    (links limit op? operand fuel left).CutsOff (links limit' op? operand' fuel left) := by
  intro ts
  induction fuel generalizing left ts with
  | nil => exact .refl _
  | cons _ fuel ih =>
    unfold links
    split
    · exact .refl _
    · next op _ =>
      refine (hoperand ts.tail).bind fun ⟨right, ts⟩ => ?_
      refine (Node.cutsOff_bounded h _).bind fun node => ?_
      exact ih node ts

theorem cutsOff_chain (h : limit ≤ limit') (op? : Operator → Option BinaryOp)
    (hoperand : operand.CutsOff operand') :
    (chain limit op? operand).CutsOff (chain limit' op? operand') :=
  fun ts => (hoperand ts).bind fun ⟨left, rest⟩ => cutsOff_links h op? hoperand rest left rest

theorem cutsOff_deeper (hinner : BelowCutsOff inner inner') (goal : Goal) :
    (deeper inner goal).CutsOff (deeper inner' goal) := by
  intro ts
  cases hread : inner with
  | none => exact .tooDeep _
  | some read =>
    obtain ⟨read', rfl, hreads⟩ := hinner read hread
    exact hreads goal ts

theorem cutsOff_moreArguments (hargument : argument.CutsOff argument') (fuel ts : List Token) :
    CutsOff (moreArguments argument fuel ts) (moreArguments argument' fuel ts) := by
  induction fuel generalizing ts with
  | nil => exact .refl _
  | cons _ fuel ih =>
    unfold moreArguments
    split
    · next ts =>
      refine (hargument ts).bind fun ⟨arg, ts⟩ => ?_
      exact (ih ts).bind fun _ => .refl _
    all_goals exact .refl _

theorem cutsOff_arguments (hargument : argument.CutsOff argument') (ts : List Token) :
    CutsOff (arguments argument ts) (arguments argument' ts) := by
  unfold arguments
  split
  · exact .refl _
  · refine (hargument ts).bind fun ⟨arg, ts⟩ => ?_
    exact (cutsOff_moreArguments hargument ts ts).bind fun _ => .refl _

theorem cutsOff_named (h : limit ≤ limit') (hinner : BelowCutsOff inner inner')
    (name : String) : (named limit inner name).CutsOff (named limit' inner' name) := by
  intro ts
  unfold named
  split
  · next ts =>
    cases hread : inner with
    | none => exact .tooDeep _
    | some read =>
      obtain ⟨read', rfl, hreads⟩ := hinner read hread
      refine (cutsOff_arguments (hreads .expression) ts).bind fun ⟨args, ts⟩ => ?_
      exact (Node.cutsOff_bounded h _).bind fun _ => .refl _
  · exact .refl _

theorem cutsOff_primary (h : limit ≤ limit') (hinner : BelowCutsOff inner inner') :
    (primary limit inner).CutsOff (primary limit' inner') := by
  intro ts
  unfold primary
  split
  case h_6 ts => exact cutsOff_named h hinner _ ts
  case h_7 ts => exact (cutsOff_deeper hinner .expression ts).bind fun _ => .refl _
  all_goals exact .refl _

theorem cutsOff_unary (h : limit ≤ limit') (hinner : BelowCutsOff inner inner') :
    (unary limit inner).CutsOff (unary limit' inner') := by
  intro ts
  unfold unary
  split
  · exact cutsOff_primary h hinner ts
  · refine (cutsOff_deeper hinner .unary ts.tail).bind fun ⟨operand, ts⟩ => ?_
    exact (Node.cutsOff_bounded h _).bind fun _ => .refl _

theorem cutsOff_power (h : limit ≤ limit') (hinner : BelowCutsOff inner inner') :
    (power limit inner).CutsOff (power limit' inner') := by
  intro ts
  refine (cutsOff_unary h hinner ts).bind fun ⟨base, ts⟩ => ?_
  dsimp only
  split
  · refine (cutsOff_deeper hinner .power ts.tail).bind fun ⟨exponent, ts⟩ => ?_
    exact (Node.cutsOff_bounded h _).bind fun _ => .refl _
  · exact .refl _

theorem cutsOff_expression (h : limit ≤ limit') (hinner : BelowCutsOff inner inner') :
    (expression limit inner).CutsOff (expression limit' inner') :=
  cutsOff_chain h _ <| cutsOff_chain h _ <| cutsOff_chain h _ <| cutsOff_chain h _ <|
    cutsOff_power h hinner

theorem cutsOff_level (h : limit ≤ limit') (hinner : BelowCutsOff inner inner') (goal : Goal) :
    (level limit inner goal).CutsOff (level limit' inner' goal) := by
  cases goal with
  | expression => exact cutsOff_expression h hinner
  | power => exact cutsOff_power h hinner
  | unary => exact cutsOff_unary h hinner

/-- A reader that may open fewer levels, and build less tall trees, cuts off one that may do
more. -/
theorem cutsOff_read (h : limit ≤ limit') {room room' : Nat} (hroom : room ≤ room')
    (goal : Goal) : (read limit room goal).CutsOff (read limit' room' goal) := by
  induction room generalizing room' goal with
  | zero =>
    have hnone : ∀ inner', BelowCutsOff none inner' := fun _ _ hread => nomatch hread
    cases room' with
    | zero => exact cutsOff_level h (hnone _) goal
    | succ room' => exact cutsOff_level h (hnone _) goal
  | succ room ih =>
    obtain ⟨room', rfl⟩ := Nat.exists_eq_add_of_lt hroom
    refine cutsOff_level h (fun read hread => ?_) goal
    cases hread
    exact ⟨_, rfl, fun goal => ih (Nat.le_add_right room room') goal⟩

end Parser

/-! ## Texts -/

namespace Expr

theorem cutsOff_ofTokens (h : limit ≤ limit') (ts : List Token) :
    CutsOff (ofTokens limit ts) (ofTokens limit' ts) :=
  (Parser.cutsOff_read h h .expression ts).bind fun _ => .refl _

theorem cutsOff_ofText (h : limit ≤ limit') (text : String) :
    CutsOff (ofText limit text) (ofText limit' text) := by
  unfold ofText
  dsimp only
  split
  · exact .refl _
  · exact (CutsOff.refl _).bind fun ts => cutsOff_ofTokens h ts

end Expr

/-- Unless a text is nested too deeply for a limit, it comes to the same under every larger one: to
the same expression, or to the same fault of its characters or of its tokens, which names the same
place. -/
theorem limit_only_cuts_off (h : limit ≤ limit') (text : String)
    (hdeep : Expr.ofText limit text ≠ .error .tooDeep) :
    Expr.ofText limit' text = Expr.ofText limit text :=
  (Expr.cutsOff_ofText h text).resolve_left hdeep

/-- The missing parenthesis is found under any limit that lets the call pass. Without a level for
the call, nothing behind its name is looked at. -/
theorem limit_only_cuts_off_open_call :
    Expr.ofText 1 "=SUM(1,2" = .error .openArguments ∧
      Expr.ofText 128 "=SUM(1,2" = .error .openArguments ∧
      Expr.ofText 0 "=SUM(1,2" = .error .tooDeep := by
  have hopen (limit : Nat) (x : FormulaError)
      (hx : Expr.ofTokens limit [⟨.name "SUM", "SUM", 0⟩, ⟨.leftParen, "(", 3⟩,
        ⟨.number 1 (some 1), "1", 4⟩, ⟨.comma, ",", 5⟩, ⟨.number 2 (some 2), "2", 6⟩,
        ⟨.eof, "", 7⟩] = .error x) : Expr.ofText limit "=SUM(1,2" = .error x :=
    (Expr.ofText_eq_ofTokens (by decide +kernel) (by decide +kernel)).trans hx
  have hone : Expr.ofText 1 "=SUM(1,2" = .error .openArguments := hopen 1 _ rfl
  have hzero : Expr.ofText 0 "=SUM(1,2" = .error .tooDeep := hopen 0 _ rfl
  have hdeep : Expr.ofText 1 "=SUM(1,2" ≠ .error .tooDeep := by
    rw [hone]
    exact nofun
  exact ⟨hone, (limit_only_cuts_off (by decide) _ hdeep).trans hone, hzero⟩

end Spreadsheet.Formula
