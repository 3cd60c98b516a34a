import Spreadsheet.Proofs.History
import Spreadsheet.Proofs.Results

/-!
# Where the scalars of a result come from

A scalar in the result of a formula was written in some formula as a literal, was stored in a cell,
or was made by an operation; running through cells, ranges and the memory of a session adds
nothing. So a property of scalars holds of all results when it holds of literals and stored values
and the operations keep it.

Results:
1. `mem_literals_binary`, `mem_literals_call`, `mem_callees_call`: what an expression brings along;
2. `Ensures.value_all`: an expression keeps a property that its parts and its cells have;
3. `Cell.value_all`: so does a cell, whatever was remembered before;
4. `Engine.evaluateFormula_all`, `Engine.evaluateCell_all`: and so do the questions from outside.
-/

namespace Spreadsheet

open Formula Value Builtin

/-! ## Literals and calls -/

namespace Formula.Expr

mutual

/-- The literals of an expression, in the order of the text. -/
def literals : Expr → List Value
  | .literal v => [v]
  | .cell _ | .range _ => []
  | .unary _ e => e.literals
  | .binary _ l r => l.literals ++ r.literals
  | .call _ args => literalsOf args

/-- The literals of arguments, from left to right. -/
def literalsOf : List Expr → List Value
  | [] => []
  | e :: es => e.literals ++ literalsOf es

end

mutual

/-- The names of the functions that an expression calls, as they are written. -/
def callees : Expr → List String
  | .literal _ | .cell _ | .range _ => []
  | .unary _ e => e.callees
  | .binary _ l r => l.callees ++ r.callees
  | .call name args => name :: calleesOf args

/-- The names of the functions that arguments call. -/
def calleesOf : List Expr → List String
  | [] => []
  | e :: es => e.callees ++ calleesOf es

end

theorem literalsOf_eq (args : List Expr) : literalsOf args = args.flatMap literals := by
  induction args with
  | nil => rfl
  | cons e es ih => rw [literalsOf, ih, List.flatMap_cons]

theorem calleesOf_eq (args : List Expr) : calleesOf args = args.flatMap callees := by
  induction args with
  | nil => rfl
  | cons e es ih => rw [calleesOf, ih, List.flatMap_cons]

theorem mem_literals_binary {op : BinaryOp} {l r : Expr} {v : Value} :
    v ∈ (binary op l r).literals ↔ v ∈ l.literals ∨ v ∈ r.literals := by
  rw [literals, List.mem_append]

theorem mem_literals_call {name : String} {args : List Expr} {v : Value} :
    v ∈ (call name args).literals ↔ ∃ e ∈ args, v ∈ e.literals := by
  rw [literals, literalsOf_eq, List.mem_flatMap]

theorem mem_callees_binary {op : BinaryOp} {l r : Expr} {name : String} :
    name ∈ (binary op l r).callees ↔ name ∈ l.callees ∨ name ∈ r.callees := by
  rw [callees, List.mem_append]

theorem mem_callees_call {name callee : String} {args : List Expr} :
    callee ∈ (call name args).callees ↔ callee = name ∨ ∃ e ∈ args, callee ∈ e.callees := by
  rw [callees, calleesOf_eq, List.mem_cons, List.mem_flatMap]

/-- The literals of the expression have the property, and the functions it calls keep it. -/
structure Brings (w : Setting) (Q : Value → Prop) (e : Expr) : Prop where
  literals : ∀ v ∈ e.literals, v.All Q
  callees : ∀ name ∈ e.callees, ∀ d, w.functions.find? name = some d →
    Preserves Q w.limits d.implementation

section

variable {w : Setting} {Q : Value → Prop}

theorem Brings.operand {op : UnaryOp} {e : Expr} (h : (unary op e).Brings w Q) : e.Brings w Q :=
  ⟨h.literals, h.callees⟩

theorem Brings.left {op : BinaryOp} {l r : Expr} (h : (binary op l r).Brings w Q) :
    l.Brings w Q :=
  ⟨fun v hv => h.literals v (mem_literals_binary.mpr (.inl hv)),
    fun name hname => h.callees name (mem_callees_binary.mpr (.inl hname))⟩

theorem Brings.right {op : BinaryOp} {l r : Expr} (h : (binary op l r).Brings w Q) :
    r.Brings w Q :=
  ⟨fun v hv => h.literals v (mem_literals_binary.mpr (.inr hv)),
    fun name hname => h.callees name (mem_callees_binary.mpr (.inr hname))⟩

theorem Brings.argument {name : String} {args : List Expr} (h : (call name args).Brings w Q)
    {e : Expr} (he : e ∈ args) : e.Brings w Q :=
  ⟨fun v hv => h.literals v (mem_literals_call.mpr ⟨e, he, hv⟩),
    fun callee hcallee => h.callees callee (mem_callees_call.mpr (.inr ⟨e, he, hcallee⟩))⟩

theorem Brings.function {name : String} {args : List Expr} (h : (call name args).Brings w Q)
    {d : FunctionDef} (hd : w.functions.find? name = some d) :
    Preserves Q w.limits d.implementation :=
  h.callees name (mem_callees_call.mpr (.inl rfl)) d hd

end

end Formula.Expr

/-! ## Evaluation -/

/-- Basic values have the property of scalars, and joining texts keeps it. -/
structure Setting.Carries (w : Setting) (Q : Value → Prop) : Prop where
  basic : ∀ v, v.IsBasic → Q v
  joined : ∀ a b, a.All Q → b.All Q → (joined w.limits a b).All Q

variable {w : Setting} {Q : Value → Prop}

/-- A list is computed item by item, and each item has the property. -/
theorem Ensures.mapM_all {α β : Type} {P : Session → Prop} {R : β → Prop} {f : α → Eval β}
    {as : List α} (h : ∀ a ∈ as, Ensures P (f a) R) :
    Ensures P (as.mapM f) fun bs => ∀ b ∈ bs, R b := by
  refine (mapM (R := fun b _ => R b) h).mono fun bs hbs => ?_
  induction hbs with
  | nil => exact nofun
  | cons hb _ ih =>
    exact List.forall_mem_cons.mpr ⟨hb, ih fun a ha => h a (List.mem_cons_of_mem _ ha)⟩

/-- Where the cells that an expression names are read with the property, it is evaluated with it. -/
theorem Ensures.value_all (hw : w.Carries Q) {P : Session → Prop} {read : Address → Eval Value}
    {e : Expr} (he : e.Brings w Q) (h : ∀ a ∈ e.cells, Ensures P (read a) (·.All Q)) :
    Ensures P (e.value w read) (·.All Q) := by
  have herror (x : CellError) : (Value.error x).All Q := (IsBasic.error x).all hw.basic
  induction e using Expr.induction with
  | literal v => exact .pure (he.literals v List.mem_cons_self)
  | cell r => exact h r.address (by simp [Expr.cells_cell])
  | range r =>
    rw [Expr.cells_range] at h
    rw [Expr.value_range]
    split
    · exact .pure (herror .ref)
    · exact (mapM_all h).map fun _ hvs => all_array_iff.mpr hvs
  | unary op e ih =>
    rw [Expr.cells_unary] at h
    rw [Expr.value_unary]
    exact (ih he.operand h).map fun _ hv => op.apply_all hw.basic hv
  | binary op l r ihl ihr =>
    have hl := ihl he.left fun a ha => h a (Expr.mem_cells_binary.mpr (.inl ha))
    have hr := ihr he.right fun a ha => h a (Expr.mem_cells_binary.mpr (.inr ha))
    rw [Expr.value_binary]
    refine hl.bind fun a ha => ?_
    unfold Expr.afterLeft
    -- an error on the left ends the computation before the right operand
    split
    · exact .pure (herror _)
    · exact hr.map fun b hb => op.apply_all w.limits hw.basic (hw.joined _ b ha hb)
  | call name args ih =>
    rw [Expr.value_call]
    split
    · exact .pure (herror _)
    · next d hd =>
      split
      · have hargs : ∀ e ∈ args, Ensures P (e.value w read) (·.All Q) := fun e hmem =>
          ih e hmem (he.argument hmem) fun a ha => h a (Expr.mem_cells_call.mpr ⟨e, hmem, ha⟩)
        exact (mapM_all hargs).map fun vs hvs => he.function hd vs hvs
      · exact .pure (herror .value)

/-! ## Cells -/

namespace Setting

/-- The cells that an evaluation can look at, starting from a cell. -/
def Sees (w : Setting) : Address → Address → Prop :=
  Relation.ReflTransGen fun a b => ∃ e, w.Holds a e ∧ b ∈ e.cells

/-- In all cells that are seen from the cell, stored scalars have the property, and formulas bring
nothing else along. -/
structure Supplies (w : Setting) (Q : Value → Prop) (a : Address) : Prop where
  stored : ∀ b v, w.Sees a b → w.grid b = some (.literal v) → v.All Q
  formulas : ∀ b e, w.Sees a b → w.Holds b e → e.Brings w Q

variable {a b : Address}

theorem Supplies.of_mem_cells {e : Expr} (h : w.Supplies Q a) (he : w.Holds a e)
    (hb : b ∈ e.cells) : w.Supplies Q b where
  stored c v hc := h.stored c v (hc.head ⟨e, he, hb⟩)
  formulas c e' hc := h.formulas c e' (hc.head ⟨e, he, hb⟩)

/-- All scalars that are remembered have the property. -/
def Remembers (Q : Value → Prop) (s : Session) : Prop :=
  ∀ (a : Address) (v : Value), s.memo[a]? = some v → v.All Q

theorem Remembers.remember {s : Session} {a : Address} {v : Value} (h : Remembers Q s)
    (hv : v.All Q) : Remembers Q (s.remember a v) := by
  intro b u hu
  rcases Session.getElem?_remember hu with hu | ⟨-, rfl, -⟩
  · exact h b u hu
  · exact hv

theorem remembers_empty : Remembers Q {} := by
  intro a v h
  simp at h

end Setting

open Setting

variable {a : Address}

theorem Ensures.formulaValue_all (hw : w.Carries Q) {P : Session → Prop}
    {read : Address → Eval Value} {source : String} (ha : w.Supplies Q a)
    (hg : w.grid a = some (.formula source))
    (h : ∀ b, w.Supplies Q b → Ensures P (read b) (·.All Q)) :
    Ensures P (Cell.formulaValue w read source) (·.All Q) := by
  cases he : Expr.ofText w.limits.maxNesting source with
  | error x =>
    rw [Cell.formulaValue_of_error he]
    exact .pure ((IsBasic.error _).all hw.basic)
  | ok e =>
    have hold : w.Holds a e := ⟨source, hg, he⟩
    have hvalue := Ensures.value_all hw (ha.formulas a e .refl hold) fun b hb =>
      h b (ha.of_mem_cells hold hb)
    rw [Cell.formulaValue_of_ok he]
    exact hvalue.map fun _ hv => all_finalize hw.basic hv

namespace Cell

/-- One cell further on the way, given how cells are read from there. -/
theorem valueWith_all (hw : w.Carries Q) {deeper : Option (Address → Eval Value)}
    (ha : w.Supplies Q a) (h : ∀ read, deeper = some read → ∀ b, w.Supplies Q b →
      Ensures (Remembers Q) (read b) (·.All Q)) :
    Ensures (Remembers Q) (valueWith w deeper a) (·.All Q) := by
  have herror (x : CellError) : (Value.error x).All Q := (IsBasic.error x).all hw.basic
  intro s hs
  by_cases hform : w.IsFormula a
  · obtain ⟨source, hg⟩ := hform
    rw [valueWith_of_formula hg]
    have hspec := guarded_spec w deeper a source (s.looked a)
    generalize guarded w deeper a source (s.looked a) = r at hspec ⊢
    -- a guard gives an error; only a cell that is entered adds to what is remembered
    cases hspec with
    | remembered hm => exact ⟨hs, hs a _ hm⟩
    | cycle => exact ⟨hs, herror .cycle⟩
    | depth => exact ⟨hs, herror .depth⟩
    | budget => exact ⟨hs, herror .calc⟩
    | @computed read _ _ hd _ =>
      rw [compute_apply]
      obtain ⟨hmemo, hv⟩ :=
        Ensures.formulaValue_all hw ha hg (h read hd) ((s.looked a).enter a) hs
      exact ⟨Remembers.remember hmemo hv, hv⟩
  · rw [valueWith_apply]
    cases hg : w.grid a with
    | none => exact ⟨hs, herror .ref⟩
    | some c =>
      cases c with
      | blank => exact ⟨hs, IsBasic.empty.all hw.basic⟩
      | literal v => exact ⟨hs, ha.stored a v .refl hg⟩
      | formula source => exact absurd ⟨source, hg⟩ hform

/-- Reading a cell gives scalars with the property and remembers no others. -/
theorem value_all (hw : w.Carries Q) (room : Nat) (ha : w.Supplies Q a) :
    Ensures (Remembers Q) (value w room a) (·.All Q) := by
  induction room generalizing a with
  | zero =>
    refine valueWith_all hw ha ?_
    exact nofun
  | succ room ih =>
    refine valueWith_all hw ha fun read hread b hb => ?_
    cases hread
    exact ih hb

end Cell

/-! ## Questions from outside -/

namespace Engine

variable {engine : Engine} {g : Grid}

theorem evaluateCell_all (hw : (engine.setting g).Carries Q)
    (ha : (engine.setting g).Supplies Q a) : (engine.evaluateCell g a).All Q := by
  rw [evaluateCell_eq]
  exact (Cell.value_all hw _ ha {} remembers_empty).2

theorem evaluateFormula_all (hw : (engine.setting g).Carries Q) {text : String}
    (h : ∀ e, Expr.ofText engine.limits.maxNesting text = .ok e →
      e.Brings (engine.setting g) Q ∧ ∀ a ∈ e.cells, (engine.setting g).Supplies Q a) :
    (engine.evaluateFormula g text).All Q := by
  cases he : Expr.ofText engine.limits.maxNesting text with
  | error x =>
    rw [evaluateFormula_of_error engine g he]
    exact (IsBasic.error _).all hw.basic
  | ok e =>
    obtain ⟨hbrings, hcells⟩ := h e he
    rw [evaluateFormula_of_ok engine g he]
    exact all_finalize hw.basic (Ensures.value_all hw hbrings
      (fun a ha => Cell.value_all hw _ (hcells a ha)) {} remembers_empty).2

end Engine

end Spreadsheet
