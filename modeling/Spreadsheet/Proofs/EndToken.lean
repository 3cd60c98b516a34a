import Spreadsheet.Formula.Parser

/-!
# Reading up to the end token

No reader looks behind the token that ends the text. Two lists of tokens that are the same up to
an end token are read alike, be it as the same expression or with the same error, and what is left
of them is again the same up to that token. So a reader never runs out of tokens, and what it
leaves over is never empty.

Results:
1. `UpToEnd`, `Agree`: lists of tokens and results that agree;
2. `Parser.local_links` to `Parser.local_expression`: the readers of each level of binding;
3. `Parser.local_read`, `Expr.ofTokens_append`: the whole reader.
-/

namespace Spreadsheet.Formula

open Text

/-! ## The first token -/

namespace Parser

theorem operator?_cons (t : Token) (ts : List Token) :
    operator? (t :: ts) = match t.kind with | .op o => some o | _ => none := by
  obtain ⟨kind, text, pos⟩ := t
  cases kind <;> rfl

variable {limit : Nat} {op? : Operator → Option BinaryOp} {operand : Reader} {left : Node}
  {inner : Option (Goal → Reader)} {ts : List Token}

/-- A chain ends where no operator of it stands, however many links are counted. -/
theorem links_eq_of_none (h : (operator? ts).bind op? = none) (fuel : List Token) :
    links limit op? operand fuel left ts = .ok (left, ts) := by
  cases fuel with
  | nil => rfl
  | cons _ fuel => rw [links, h]

theorem links_eq_of_some {op : BinaryOp} (h : (operator? ts).bind op? = some op) (t : Token)
    (fuel : List Token) :
    links limit op? operand (t :: fuel) left ts =
      (do
        let (right, ts) ← operand ts.tail
        let node ← Node.binary limit op left right
        links limit op? operand fuel node ts) := by
  rw [links, h]

/-- A call has a first argument unless it is closed at once. -/
theorem arguments_eq {argument : Reader} (h : (ts.map Token.kind).head? ≠ some .rightParen) :
    arguments argument ts =
      (do
        let (arg, ts) ← argument ts
        let (args, ts) ← moreArguments argument ts ts
        return (arg :: args, ts)) := by
  unfold arguments
  split
  · exact absurd rfl h
  · rfl

/-- A name that is not called: a truth value. -/
def lone (name : String) : Except FormulaError Node :=
  if toUpper name = "TRUE" then .ok (.leaf (.literal (.bool true)))
  else if toUpper name = "FALSE" then .ok (.leaf (.literal (.bool false)))
  else .error (.loneName name)

theorem named_eq_lone {name : String} (h : (ts.map Token.kind).head? ≠ some .leftParen) :
    named limit inner name ts = (do return (← lone name, ts)) := by
  unfold named lone
  split
  · exact absurd rfl h
  · split
    · rfl
    · split <;> rfl

end Parser

/-! ## Agreement -/

/-- The lists are the same up to an end token, and so many tokens stand before it. -/
inductive UpToEnd : Nat → List Token → List Token → Prop where
  | ended (text : String) (pos : Nat) (ts ts' : List Token) :
      UpToEnd 0 (⟨.eof, text, pos⟩ :: ts) (⟨.eof, text, pos⟩ :: ts')
  | cons (t : Token) {n : Nat} {ts ts' : List Token} (h : UpToEnd n ts ts') :
      UpToEnd (n + 1) (t :: ts) (t :: ts')

/-- Both give the same, with tokens left over that agree, or fail with the same error. -/
inductive Agree {α : Type} (n : Nat) :
    Except FormulaError (α × List Token) → Except FormulaError (α × List Token) → Prop where
  | ok (a : α) {m : Nat} {ts ts' : List Token} (hm : m ≤ n) (h : UpToEnd m ts ts') :
      Agree n (.ok (a, ts)) (.ok (a, ts'))
  | error (e : FormulaError) : Agree n (.error e) (.error e)

/-- A reader that looks no further than the end token. -/
def Local (r : Reader) : Prop :=
  ∀ ⦃n : Nat⦄ ⦃ts ts' : List Token⦄, UpToEnd n ts ts' → Agree n (r ts) (r ts')

namespace UpToEnd

variable {n : Nat} {ts ts' : List Token}

theorem append {t : Token} (h : t.kind = .eof) (body extra : List Token) :
    UpToEnd body.length (body ++ [t]) (body ++ [t] ++ extra) := by
  induction body with
  | nil =>
    obtain ⟨kind, text, pos⟩ := t
    cases h
    exact .ended text pos [] extra
  | cons t body ih => exact .cons t ih

theorem ne_nil (h : UpToEnd n ts ts') : ts ≠ [] := by
  cases h <;> exact List.cons_ne_nil _ _

theorem head?_eq (h : UpToEnd n ts ts') :
    (ts'.map Token.kind).head? = (ts.map Token.kind).head? := by
  cases h <;> rfl

theorem symm (h : UpToEnd n ts ts') : UpToEnd n ts' ts := by
  induction h with
  | ended text pos ts ts' => exact .ended text pos ts' ts
  | cons t _ ih => exact .cons t ih

theorem length_le (h : UpToEnd n ts ts') : n ≤ ts.length := by
  induction h with
  | ended => exact Nat.zero_le _
  | cons t _ ih => exact Nat.succ_le_succ ih

/-- An operator is no end token, so both lists go on behind it. -/
theorem tail {o : Operator} (h : UpToEnd n ts ts') (ho : Parser.operator? ts = some o) :
    ∃ m, n = m + 1 ∧ UpToEnd m ts.tail ts'.tail := by
  cases h with
  | ended => exact nomatch ho
  | cons t h => exact ⟨_, rfl, h⟩

theorem operator?_eq (h : UpToEnd n ts ts') : Parser.operator? ts' = Parser.operator? ts := by
  cases h with
  | ended => rfl
  | cons t h => rw [Parser.operator?_cons, Parser.operator?_cons]

end UpToEnd

namespace Agree

variable {α β : Type} {m n : Nat} {x y : Except FormulaError (α × List Token)}

theorem mono (h : Agree m x y) (hmn : m ≤ n) : Agree n x y := by
  cases h with
  | ok a hm h => exact .ok a (Nat.le_trans hm hmn) h
  | error e => exact .error e

theorem bind {f g : α × List Token → Except FormulaError (β × List Token)} (h : Agree n x y)
    (hf : ∀ a {m : Nat} {ts ts' : List Token}, m ≤ n → UpToEnd m ts ts' →
      Agree n (f (a, ts)) (g (a, ts'))) :
    Agree n (x >>= f) (y >>= g) := by
  cases h with
  | ok a hm h => exact hf a hm h
  | error e => exact .error e

/-- A step that reads no tokens. -/
theorem bind_same {f g : α → Except FormulaError (β × List Token)} (x : Except FormulaError α)
    (hf : ∀ a, Agree n (f a) (g a)) : Agree n (x >>= f) (x >>= g) := by
  cases x with
  | ok a => exact hf a
  | error e => exact .error e

end Agree

/-! ## The steps of a reader -/

namespace Parser

variable {limit : Nat} {operand : Reader} {inner : Option (Goal → Reader)}

/-- Any two lists that are long enough count the links alike. -/
theorem local_links (op? : Operator → Option BinaryOp) (hoperand : Local operand) {n : Nat}
    {ts ts' : List Token} (h : UpToEnd n ts ts') {fuel fuel' : List Token} (left : Node)
    (hfuel : n ≤ fuel.length) (hfuel' : n ≤ fuel'.length) :
    Agree n (links limit op? operand fuel left ts) (links limit op? operand fuel' left ts') := by
  induction n using Nat.strongRecOn generalizing ts ts' fuel fuel' left with
  | _ n ih =>
    cases hop : (operator? ts).bind op? with
    | none =>
      rw [links_eq_of_none hop, links_eq_of_none (h.operator?_eq ▸ hop)]
      exact .ok left (Nat.le_refl n) h
    | some op =>
      obtain ⟨o, ho, -⟩ := Option.bind_eq_some_iff.mp hop
      obtain ⟨m, rfl, htail⟩ := h.tail ho
      obtain ⟨t, fuel, rfl⟩ := List.exists_cons_of_length_pos (Nat.zero_lt_of_lt hfuel)
      obtain ⟨t', fuel', rfl⟩ := List.exists_cons_of_length_pos (Nat.zero_lt_of_lt hfuel')
      rw [links_eq_of_some hop, links_eq_of_some (h.operator?_eq ▸ hop)]
      have hlength : m ≤ fuel.length := Nat.le_of_succ_le_succ hfuel
      have hlength' : m ≤ fuel'.length := Nat.le_of_succ_le_succ hfuel'
      refine ((hoperand htail).bind fun right {k rest rest'} hk hrest => ?_).mono (Nat.le_succ m)
      refine Agree.bind_same _ fun node => ?_
      refine (ih k (by omega) hrest node ?_ ?_).mono hk
      · exact Nat.le_trans hk hlength
      · exact Nat.le_trans hk hlength'

theorem local_chain (op? : Operator → Option BinaryOp) (hoperand : Local operand) :
    Local (chain limit op? operand) := by
  intro n ts ts' h
  refine (hoperand h).bind fun left {m rest rest'} hm hrest => ?_
  exact (local_links op? hoperand hrest left hrest.length_le hrest.symm.length_le).mono hm

/-- Readers one level down that look no further than the end token. -/
def LocalBelow (inner : Option (Goal → Reader)) : Prop :=
  ∀ read, inner = some read → ∀ goal, Local (read goal)

theorem local_deeper (hinner : LocalBelow inner) (goal : Goal) : Local (deeper inner goal) := by
  intro n ts ts' h
  cases hread : inner with
  | none => exact .error _
  | some read => exact hinner read hread goal h

theorem agree_moreArguments {argument : Reader} (hargument : Local argument) {n : Nat}
    {ts ts' : List Token} (h : UpToEnd n ts ts') {fuel fuel' : List Token}
    (hfuel : n ≤ fuel.length) (hfuel' : n ≤ fuel'.length) :
    Agree n (moreArguments argument fuel ts) (moreArguments argument fuel' ts') := by
  induction n using Nat.strongRecOn generalizing ts ts' fuel fuel' with
  | _ n ih =>
    cases h with
    | ended =>
      cases fuel <;> cases fuel' <;> exact .error .openArguments
    | @cons t m rest rest' h =>
      obtain ⟨u, fuel, rfl⟩ := List.exists_cons_of_length_pos (Nat.zero_lt_of_lt hfuel)
      obtain ⟨u', fuel', rfl⟩ := List.exists_cons_of_length_pos (Nat.zero_lt_of_lt hfuel')
      have hlength : m ≤ fuel.length := Nat.le_of_succ_le_succ hfuel
      have hlength' : m ≤ fuel'.length := Nat.le_of_succ_le_succ hfuel'
      obtain ⟨kind, text, pos⟩ := t
      cases kind with
      | comma =>
        refine ((hargument h).bind fun arg {k rest rest'} hk hrest => ?_).mono (Nat.le_succ m)
        have hmore := ih k (by omega) hrest (Nat.le_trans hk hlength) (Nat.le_trans hk hlength')
        exact (hmore.bind fun args {j _ _} hj hleft => .ok (arg :: args) hj hleft).mono hk
      | rightParen => exact .ok [] (Nat.le_succ m) h
      | eof => exact .error .openArguments
      | _ => exact .error .badArguments

theorem agree_arguments {argument : Reader} (hargument : Local argument) {n : Nat}
    {ts ts' : List Token} (h : UpToEnd n ts ts') :
    Agree n (arguments argument ts) (arguments argument ts') := by
  by_cases hnone : (ts.map Token.kind).head? = some .rightParen
  · cases h with
    | ended => exact nomatch hnone
    | @cons t m rest rest' h =>
      obtain ⟨kind, text, pos⟩ := t
      cases hnone
      exact .ok [] (Nat.le_succ m) h
  · rw [arguments_eq hnone, arguments_eq (h.head?_eq ▸ hnone)]
    refine (hargument h).bind fun arg {k rest rest'} hk hrest => ?_
    have hmore := agree_moreArguments hargument hrest hrest.length_le hrest.symm.length_le
    exact (hmore.bind fun args {j _ _} hj hleft => .ok (arg :: args) hj hleft).mono hk

theorem agree_closing {n : Nat} {ts ts' : List Token} (h : UpToEnd n ts ts') (node : Node) :
    Agree n (do return (node, ← closing ts)) (do return (node, ← closing ts')) := by
  cases h with
  | ended => exact .error .openParen
  | @cons t m rest rest' h =>
    obtain ⟨kind, text, pos⟩ := t
    cases kind with
    | rightParen => exact .ok node (Nat.le_succ m) h
    | _ => exact .error _

theorem local_named (hinner : LocalBelow inner) (name : String) :
    Local (named limit inner name) := by
  intro n ts ts' h
  by_cases hcall : (ts.map Token.kind).head? = some .leftParen
  · cases h with
    | ended => exact nomatch hcall
    | @cons t m rest rest' h =>
      obtain ⟨kind, text, pos⟩ := t
      cases hcall
      cases hread : inner with
      | none => exact .error _
      | some read =>
        refine ((agree_arguments (hinner read hread .expression) h).bind
          fun args {k _ _} hk hleft => ?_).mono (Nat.le_succ m)
        exact Agree.bind_same _ fun node => .ok node hk hleft
  · rw [named_eq_lone hcall, named_eq_lone (h.head?_eq ▸ hcall)]
    exact Agree.bind_same _ fun node => .ok node (Nat.le_refl n) h

theorem local_primary (hinner : LocalBelow inner) : Local (primary limit inner) := by
  intro n ts ts' h
  cases h with
  | ended => exact .error .unexpectedEnd
  | @cons t m rest rest' h =>
    obtain ⟨kind, text, pos⟩ := t
    cases kind with
    | number x int => cases int <;> exact .ok _ (Nat.le_succ m) h
    | text s => exact .ok _ (Nat.le_succ m) h
    | cell r => exact .ok _ (Nat.le_succ m) h
    | range a b => exact .ok _ (Nat.le_succ m) h
    | name s => exact (local_named hinner s h).mono (Nat.le_succ m)
    | leftParen =>
      refine ((local_deeper hinner .expression h).bind
        fun node {k _ _} hk hrest => ?_).mono (Nat.le_succ m)
      exact (agree_closing hrest node).mono hk
    | eof => exact .error .unexpectedEnd
    | _ => exact .error _

theorem local_unary (hinner : LocalBelow inner) : Local (unary limit inner) := by
  intro n ts ts' h
  unfold unary
  rw [h.operator?_eq]
  cases hop : (operator? ts).bind sign? with
  | none => exact local_primary hinner h
  | some op =>
    obtain ⟨o, ho, -⟩ := Option.bind_eq_some_iff.mp hop
    obtain ⟨m, rfl, htail⟩ := h.tail ho
    refine ((local_deeper hinner .unary htail).bind
      fun operand {k _ _} hk hrest => ?_).mono (Nat.le_succ m)
    exact Agree.bind_same _ fun node => .ok node hk hrest

theorem local_power (hinner : LocalBelow inner) : Local (power limit inner) := by
  intro n ts ts' h
  refine (local_unary hinner h).bind fun base {m rest rest'} hm hrest => ?_
  dsimp only
  rw [hrest.operator?_eq]
  split
  · next ho =>
    obtain ⟨k, rfl, htail⟩ := hrest.tail ho
    refine ((local_deeper hinner .power htail).bind
      fun exponent {j _ _} hj hleft => ?_).mono (by omega)
    exact Agree.bind_same _ fun node => .ok node hj hleft
  · exact .ok base hm hrest

theorem local_expression (hinner : LocalBelow inner) : Local (expression limit inner) :=
  local_chain _ <| local_chain _ <| local_chain _ <| local_chain _ <| local_power hinner

theorem local_level (hinner : LocalBelow inner) (goal : Goal) :
    Local (level limit inner goal) := by
  cases goal with
  | expression => exact local_expression hinner
  | power => exact local_power hinner
  | unary => exact local_unary hinner

theorem local_read (limit room : Nat) (goal : Goal) : Local (read limit room goal) := by
  induction room generalizing goal with
  | zero =>
    have hnone : LocalBelow none := fun _ hread => nomatch hread
    exact local_level hnone goal
  | succ room ih =>
    refine local_level (fun read hread => ?_) goal
    cases hread
    exact ih

end Parser

/-! ## Whole texts -/

/-- What stands behind the end token is not looked at. -/
theorem Expr.ofTokens_append {limit : Nat} {t : Token} (h : t.kind = .eof)
    (body extra : List Token) :
    ofTokens limit (body ++ [t] ++ extra) = ofTokens limit (body ++ [t]) := by
  unfold ofTokens
  have hread := Parser.local_read limit limit .expression (.append h body extra)
  generalize Parser.read limit limit .expression (body ++ [t]) = x at hread
  generalize Parser.read limit limit .expression (body ++ [t] ++ extra) = y at hread
  cases hread with
  | error e => rfl
  | ok node hm h =>
    cases h with
    | ended => rfl
    | @cons t m rest rest' h =>
      obtain ⟨kind, text, pos⟩ := t
      cases kind <;> rfl

end Spreadsheet.Formula
