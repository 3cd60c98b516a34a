import Spreadsheet.Evaluation
import Mathlib.Logic.Relation
import Mathlib.Order.WellFounded

/-!
# Which cell names which

The formula of a cell names cells, one by one or in ranges, whether or not a run ever looks at
them. Between the formula cells this is a graph: `w.Names a b` is an edge from `a` to `b`. It is
read off the texts in the grid and the limit on nesting alone, so it knows nothing of sessions.

Results:
1. `Expr.induction`: a property of all expressions, one case for each kind;
2. `cells_unary`, `mem_cells_binary`, `mem_cells_call`: where a named cell stands;
3. `grounded_iff`: the cells that can be computed by plain recursion are those without an endless
   way;
4. `Grounded.not_circular`: no cycle can be reached from them.
-/

namespace Spreadsheet

/-! ## Named cells -/

namespace Formula

/-- The cells that a place in a formula stands for. -/
def Dependency.cells : Dependency → List Address
  | .cell r => [r.address]
  | .range r => r.area.cells

namespace Expr

/-- Induction on the tree of a formula, with the arguments of a call taken together. -/
@[elab_as_elim]
theorem induction {P : Expr → Prop} (literal : ∀ v, P (.literal v)) (cell : ∀ r, P (.cell r))
    (range : ∀ r, P (.range r)) (unary : ∀ op e, P e → P (.unary op e))
    (binary : ∀ op l r, P l → P r → P (.binary op l r))
    (call : ∀ name args, (∀ e ∈ args, P e) → P (.call name args)) (e : Expr) : P e :=
  Expr.rec (motive_2 := fun args => ∀ e ∈ args, P e) literal cell range
    (fun op e ih => unary op e ih) (fun op l r ihl ihr => binary op l r ihl ihr)
    (fun name args ih => call name args ih) (fun _ h => absurd h List.not_mem_nil)
    (fun _ _ ih ihs _ h => (List.mem_cons.mp h).elim (fun heq => heq ▸ ih) (ihs _)) e

/-- The cells an expression names, in the order of the text. -/
def cells (e : Expr) : List Address :=
  e.references.flatMap Dependency.cells

theorem cells_cell (r : Reference) : (cell r).cells = [r.address] := rfl

theorem cells_range (r : RangeRef) : (range r).cells = r.area.cells := by
  simp [cells, references, Dependency.cells]

theorem cells_unary (op : UnaryOp) (e : Expr) : (unary op e).cells = e.cells := by
  simp [cells, references]

theorem mem_cells_binary {op : BinaryOp} {l r : Expr} {a : Address} :
    a ∈ (binary op l r).cells ↔ a ∈ l.cells ∨ a ∈ r.cells := by
  simp [cells, references, List.flatMap_append]

theorem referencesOf_eq (args : List Expr) : referencesOf args = args.flatMap references := by
  induction args with
  | nil => rfl
  | cons e es ih => rw [referencesOf, ih, List.flatMap_cons]

theorem mem_cells_call {name : String} {args : List Expr} {a : Address} :
    a ∈ (call name args).cells ↔ ∃ e ∈ args, a ∈ e.cells := by
  simp only [cells, references, referencesOf_eq, List.mem_flatMap]
  constructor
  · rintro ⟨d, ⟨e, he, hd⟩, ha⟩
    exact ⟨e, he, d, hd, ha⟩
  · rintro ⟨e, he, d, hd, ha⟩
    exact ⟨d, ⟨e, he, hd⟩, ha⟩

/-- A text is read by cutting it into tokens first. -/
theorem ofText_eq_ofTokens {limit : Nat} {text : String} {ts : List Token}
    (htext : Text.trim (body text) ≠ []) (hts : tokensFrom 0 (body text) = .ok ts) :
    ofText limit text = ofTokens limit ts := by
  simp only [ofText, htext, if_false]
  rw [hts]
  rfl

/-- Where a text does not fall into tokens, this is why it is no formula. -/
theorem ofText_of_fault {limit : Nat} {text : String} {x : FormulaError}
    (htext : Text.trim (body text) ≠ []) (hx : tokensFrom 0 (body text) = .error x) :
    ofText limit text = .error x := by
  simp only [ofText, htext, if_false]
  rw [hx]
  rfl

theorem ofText_of_tokens {limit : Nat} {text : String} {e : Expr} (ts : List Token)
    (htext : Text.trim (body text) ≠ []) (hts : tokensFrom 0 (body text) = .ok ts)
    (he : ofTokens limit ts = .ok e) : ofText limit text = .ok e :=
  (ofText_eq_ofTokens htext hts).trans he

/-- What is read has tokens, and is read from these. -/
theorem exists_tokens_of_ofText {limit : Nat} {text : String} {e : Expr}
    (h : ofText limit text = .ok e) : Text.trim (body text) ≠ [] ∧
      ∃ ts, tokensFrom 0 (body text) = .ok ts ∧ ofTokens limit ts = .ok e := by
  unfold ofText at h
  dsimp only at h
  split at h
  · exact nomatch h
  · next htext =>
    refine ⟨htext, ?_⟩
    cases hts : tokensFrom 0 (body text) with
    | error x => exact nomatch hts ▸ h
    | ok ts => exact ⟨ts, rfl, by rwa [hts] at h⟩

end Expr

end Formula

open Formula

/-! ## The graph -/

namespace Setting

/-- The cell holds a formula, well-formed or not. -/
def IsFormula (w : Setting) (a : Address) : Prop :=
  ∃ source, w.grid a = some (.formula source)

/-- The cell holds a formula that reads as the expression `e`. -/
def Holds (w : Setting) (a : Address) (e : Expr) : Prop :=
  ∃ source, w.grid a = some (.formula source) ∧ Expr.ofText w.limits.maxNesting source = .ok e

/-- The formula of `a` names the formula cell `b`. -/
def Names (w : Setting) (a b : Address) : Prop :=
  ∃ e, w.Holds a e ∧ b ∈ e.cells ∧ w.IsFormula b

/-- There is a way from `a` to `b`, perhaps of no step. -/
def Reaches (w : Setting) : Address → Address → Prop :=
  Relation.ReflTransGen w.Names

/-- A cycle can be reached from the cell, be it on it or upstream of it. -/
def Circular (w : Setting) (a : Address) : Prop :=
  ∃ c, w.Reaches a c ∧ Relation.TransGen w.Names c c

/-- Recursion along the names ends. -/
abbrev Grounded (w : Setting) : Address → Prop :=
  Acc fun b a => w.Names a b

variable {w : Setting} {a b : Address}

theorem Holds.of_tokens {source : String} {e : Expr} (ts : List Token)
    (hg : w.grid a = some (.formula source)) (htext : Text.trim (body source) ≠ [])
    (hts : tokensFrom 0 (body source) = .ok ts)
    (he : Expr.ofTokens w.limits.maxNesting ts = .ok e) : w.Holds a e :=
  ⟨source, hg, Expr.ofText_of_tokens ts htext hts he⟩

theorem Holds.isFormula {e : Expr} (h : w.Holds a e) : w.IsFormula a :=
  let ⟨source, hs, _⟩ := h
  ⟨source, hs⟩

theorem Holds.unique {e e' : Expr} (h : w.Holds a e) (h' : w.Holds a e') : e = e' := by
  obtain ⟨source, hg, he⟩ := h
  obtain ⟨source', hg', he'⟩ := h'
  rw [hg] at hg'
  cases hg'
  rw [he] at he'
  exact Except.ok.inj he'

theorem Names.isFormula (h : w.Names a b) : w.IsFormula a :=
  let ⟨_, he, _, _⟩ := h
  he.isFormula

theorem Names.isFormula_right (h : w.Names a b) : w.IsFormula b :=
  let ⟨_, _, _, hform⟩ := h
  hform

theorem Circular.isFormula (h : w.Circular a) : w.IsFormula a := by
  obtain ⟨c, hac, hcc⟩ := h
  obtain ⟨b, hab, -⟩ := Relation.TransGen.head'_iff.mp (hcc.trans_right hac)
  exact hab.isFormula

theorem Circular.of_names (hab : w.Names a b) (h : w.Circular b) : w.Circular a := by
  obtain ⟨c, hbc, hcc⟩ := h
  exact ⟨c, hbc.head hab, hcc⟩

theorem circular_of_transGen (h : Relation.TransGen w.Names a a) : w.Circular a :=
  ⟨a, .refl, h⟩

/-- Where recursion ends there is no endless way, and conversely. -/
theorem grounded_iff :
    w.Grounded a ↔ ¬∃ p : Nat → Address, p 0 = a ∧ ∀ n, w.Names (p n) (p (n + 1)) := by
  unfold Grounded
  rw [← not_iff_not, not_not]
  exact not_acc_iff_exists_descending_chain

theorem Grounded.of_names (h : w.Grounded a) (hab : w.Names a b) : w.Grounded b :=
  Acc.inv h hab

theorem Grounded.of_reaches (h : w.Grounded a) (hab : w.Reaches a b) : w.Grounded b := by
  induction hab with
  | refl => exact h
  | tail _ hbc ih => exact ih.of_names hbc

/-- A cell that names nothing is grounded. -/
theorem grounded_of_not_isFormula (h : ¬w.IsFormula a) : w.Grounded a :=
  Acc.intro a fun _ hab => absurd (Names.isFormula hab) h

theorem Grounded.not_transGen (h : w.Grounded a) : ¬Relation.TransGen w.Names a a := by
  have hacc : Acc (Relation.TransGen fun b a => w.Names a b) a := Acc.transGen h
  clear h
  rw [← Relation.transGen_swap]
  -- a cycle would be a step of the transitive closure that leads back to where it starts
  induction hacc with
  | intro x _ ih => exact fun hx => ih x hx hx

theorem Grounded.not_circular (h : w.Grounded a) : ¬w.Circular a := by
  rintro ⟨c, hac, hcc⟩
  exact (h.of_reaches hac).not_transGen hcc

end Setting

end Spreadsheet
