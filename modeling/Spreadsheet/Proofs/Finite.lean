import Spreadsheet.Proofs.Origins
import Spreadsheet.Proofs.Texts

/-!
# Finite results

Every operation checks the double that it computes, and what is no finite number becomes `#NUM!`.
A cell's own number is checked as well when it is typed. The one number that nobody checks is a
literal in a formula: digits that are too many for a double are read as infinity, and a formula that
only hands its literal on is worth infinity.

So no result is infinite where no literal is, and that includes the literals of all formulas in the
grid. Without that condition it fails for the shortest formula there is.

Results:
1. `finiteRule`: the functions that make texts make no numbers;
2. `results_are_finite`: no formula and no cell is worth an infinity or NaN, if no literal is;
3. `large_literal_is_infinite`: the formula `=1e999` is worth infinity.
-/

namespace Spreadsheet

open Formula Value Builtin

/-- The value is no infinity and no NaN. -/
def Value.IsFinite (v : Value) : Prop :=
  ∀ x, v = .float x → x.isFinite = true

theorem Value.IsBasic.isFinite {v : Value} (h : v.IsBasic) : v.IsFinite := by
  rintro x rfl
  cases h with
  | float hx => exact hx

/-- Texts and their characters are of no concern to numbers. -/
theorem finiteRule (limits : Limits) :
    TextRule Value.IsFinite (fun _ => True) (fun _ => True) limits where
  basic _ h := h.isFinite
  text _ _ := nofun
  display _ _ _ _ := trivial
  chars _ _ _ _ := trivial
  sublist _ _ _ _ := trivial
  bounded _ _ _ := trivial

/-- No function of the standard table makes an infinity or NaN out of finite numbers. -/
theorem standard_preserves_finite (limits : Limits) {name : String} {d : FunctionDef}
    (h : Registry.standard.find? name = some d) :
    Preserves Value.IsFinite limits d.implementation :=
  have hrule := finiteRule limits
  Registry.standardEntries_preserve (fun _ => True) hrule.basic hrule.textFunctions_preserve
    (fun _ => hrule.preserves_changed fun _ _ => nofun)
    (fun _ => hrule.preserves_changed fun _ _ => nofun) _ (Registry.mem_of_find? h) trivial

/-- All numbers among the literals of the expression are finite. -/
def Formula.Expr.FiniteLiterals (e : Expr) : Prop :=
  ∀ v ∈ e.literals, v.All Value.IsFinite

/-- No formula that is seen from the cell has an infinite literal. -/
def Setting.FiniteFrom (w : Setting) (a : Address) : Prop :=
  ∀ b e, w.Sees a b → w.Holds b e → e.FiniteLiterals

/-- No formula and no cell is ever worth an infinity or NaN where none is stored in a cell, as long
as no literal is infinite, neither in the formula itself nor in a formula that it leads to. -/
theorem results_are_finite (limits : Limits) (g : Grid)
    (hstored : ∀ a v, g a = some (.literal v) → v.All Value.IsFinite) :
    let w := (Engine.standard limits).setting g
    (∀ text, (∀ e, Expr.ofText limits.maxNesting text = .ok e →
        e.FiniteLiterals ∧ ∀ a ∈ e.cells, w.FiniteFrom a) →
      ∀ x, (Engine.standard limits).evaluateFormula g text = .float x → x.isFinite = true) ∧
    ∀ a, w.FiniteFrom a →
      ∀ x, (Engine.standard limits).evaluateCell g a = .float x → x.isFinite = true := by
  intro w
  have hw : w.Carries Value.IsFinite :=
    ⟨(finiteRule limits).basic, fun _ _ ha hb => (finiteRule limits).all_joined ha hb⟩
  have hbrings : ∀ e : Expr, e.FiniteLiterals → e.Brings w Value.IsFinite :=
    fun _ he => ⟨he, fun _ _ _ hd => standard_preserves_finite limits hd⟩
  have hsupplies : ∀ a, w.FiniteFrom a → w.Supplies Value.IsFinite a :=
    fun a ha => ⟨fun b v _ => hstored b v, fun b e hb he => hbrings e (ha b e hb he)⟩
  refine ⟨fun text htext x hx => ?_, fun a ha x hx => ?_⟩
  · have hall := Engine.evaluateFormula_all hw fun e he =>
      ⟨hbrings e (htext e he).1, fun a ha => hsupplies a ((htext e he).2 a ha)⟩
    rw [hx] at hall
    exact hall (.float x) List.mem_cons_self x rfl
  · have hall := Engine.evaluateCell_all hw (hsupplies a ha)
    rw [hx] at hall
    exact hall (.float x) List.mem_cons_self x rfl

/-! ## A stored double -/

namespace StoredDouble

def a1 : Address := ⟨0, 0⟩

def b1 : Address := ⟨0, 1⟩

/-- `A1` stores a double, and `B1` names it. -/
def content : Grid := fun a =>
  if a = a1 then some (.literal (.float 0.5))
  else if a = b1 then some (.formula "=-A1")
  else some .blank

def setting : Setting :=
  (Engine.standard {}).setting content

/-- The expression in `B1`. -/
def negated : Expr :=
  .unary .negate (.cell ⟨a1, false, false⟩)

/-- The tree of `A1*B1`. -/
def product : Expr :=
  .binary .multiply (.cell ⟨a1, false, false⟩) (.cell ⟨b1, false, false⟩)

/-- The tree of `A1*B1-0.25`. -/
def formula : Expr :=
  .binary .subtract product (.literal (.float 0.25))

theorem holds_b1 : setting.Holds b1 negated :=
  .of_tokens [⟨.op .minus, "-", 0⟩, ⟨.cell ⟨a1, false, false⟩, "A1", 1⟩, ⟨.eof, "", 3⟩]
    rfl (by decide +kernel) (by decide +kernel) rfl

theorem ofText_formula : Expr.ofText 128 "=A1*B1-0.25" = .ok formula :=
  Expr.ofText_of_tokens
    [⟨.cell ⟨a1, false, false⟩, "A1", 0⟩, ⟨.op .star, "*", 2⟩, ⟨.cell ⟨b1, false, false⟩, "B1", 3⟩,
      ⟨.op .minus, "-", 5⟩, ⟨.number 0.25 none, "0.25", 6⟩, ⟨.eof, "", 10⟩]
    (by decide +kernel) (by decide +kernel) rfl

variable {a : Address} {v : Value} {e : Expr}

theorem isFinite_of_stored (h : content a = some (.literal v)) : v.All Value.IsFinite := by
  unfold content at h
  split at h
  · cases h
    intro u hu x hx
    obtain rfl := List.mem_singleton.mp hu
    cases hx
    decide +kernel
  · split at h <;> exact nomatch h

/-- `B1` holds the only formula. -/
theorem eq_negated_of_holds (h : setting.Holds a e) : e = negated := by
  have ha : a = b1 := by
    by_contra hb
    obtain ⟨source, hsource⟩ := h.isFormula
    have hcontent : content a = if a = a1 then some (.literal (.float 0.5)) else some .blank :=
      ite_congr rfl (fun _ => rfl) fun _ => if_neg hb
    have hg : content a = some (.formula source) := hsource
    rw [hcontent] at hg
    split at hg <;> exact nomatch hg
  subst ha
  exact h.unique holds_b1

theorem finiteLiterals_negated : negated.FiniteLiterals := by
  intro v hv
  exact nomatch hv

theorem finiteLiterals_formula : formula.FiniteLiterals := by
  intro v hv u hu x hx
  obtain rfl := List.mem_singleton.mp hv
  obtain rfl := List.mem_singleton.mp hu
  cases hx
  decide +kernel

theorem value_a1 (room : Nat) (s : Session) :
    Cell.value setting room a1 s = (.float 0.5, s.looked a1) :=
  Cell.value_of_not_isFormula room (fun ⟨_, h⟩ => nomatch h) fun _ => .empty

theorem value_b1 :
    (Cell.value setting 100 b1 (({} : Session).looked a1)).1 = .float (-0.5) := by
  rw [Cell.value_succ_of_holds 99 holds_b1 (by simp) (by simp) (by decide)]
  show finalize (UnaryOp.negate.apply
    (Cell.value setting 99 a1 (((({} : Session).looked a1).looked b1).enter b1)).1) = _
  rw [value_a1]
  rfl

theorem evaluate_product :
    (Session.evaluate setting product {}).1 = .float (-0.25) := by
  rw [product, Session.evaluate_binary]
  show (Expr.afterLeft setting .multiply (Cell.value setting 100 a1 {}).1
    (Cell.value setting 100 b1) (Cell.value setting 100 a1 {}).2).1 = _
  rw [value_a1]
  show BinaryOp.multiply.apply {} (.float 0.5)
    (Cell.value setting 100 b1 (({} : Session).looked a1)).1 = _
  rw [value_b1]
  rfl

theorem evaluateFormula_formula :
    (Engine.standard {}).evaluateFormula content "=A1*B1-0.25" = .float (-0.5) := by
  rw [Engine.evaluateFormula_of_ok _ _ ofText_formula]
  show finalize (Session.evaluate setting formula {}).1 = _
  rw [formula, Session.evaluate_binary, evaluate_product]
  rfl

end StoredDouble

open StoredDouble in
/-- A product of what is stored with what another cell makes of it. -/
theorem results_are_finite_stored_double :
    (∀ a v, content a = some (.literal v) → v.All Value.IsFinite) ∧
      Expr.ofText 128 "=A1*B1-0.25" = .ok formula ∧ formula.FiniteLiterals ∧
      (∀ a ∈ formula.cells, setting.FiniteFrom a) ∧
      (Engine.standard {}).evaluateFormula content "=A1*B1-0.25" = .float (-0.5) ∧
      Float.isFinite (-0.5) = true := by
  have hstored : ∀ a v, content a = some (.literal v) → v.All Value.IsFinite :=
    fun _ _ => isFinite_of_stored
  have hfrom : ∀ a, setting.FiniteFrom a :=
    fun a b e _ he => eq_negated_of_holds he ▸ finiteLiterals_negated
  have htext : ∀ e, Expr.ofText 128 "=A1*B1-0.25" = .ok e → e.FiniteLiterals ∧
      ∀ a ∈ e.cells, setting.FiniteFrom a := by
    intro e he
    cases ofText_formula.symm.trans he
    exact ⟨finiteLiterals_formula, fun a _ => hfrom a⟩
  exact ⟨hstored, ofText_formula, finiteLiterals_formula, fun a _ => hfrom a,
    evaluateFormula_formula,
    (results_are_finite {} content hstored).1 "=A1*B1-0.25" htext (-0.5) evaluateFormula_formula⟩

/-! ## A large literal -/

/-- The digits of the formula `=1e999` are too many for a double. -/
theorem large_literal_is_infinite :
    (Engine.standard {}).evaluateFormula Grid.blank "=1e999" = .float Number.infinity ∧
      Number.infinity.isFinite = false := by
  have htext : Expr.ofText 128 "=1e999" = .ok (.literal (.float Number.infinity)) :=
    Expr.ofText_of_tokens [⟨.number Number.infinity none, "1e999", 0⟩, ⟨.eof, "", 5⟩]
      (by decide +kernel) (by decide +kernel) rfl
  rw [Engine.evaluateFormula_of_ok _ _ htext]
  exact ⟨rfl, by decide +kernel⟩

end Spreadsheet
