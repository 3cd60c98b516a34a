import Spreadsheet.Proofs.Ample
import Spreadsheet.Proofs.FirstError

/-!
# Wider limits

An answer without an error does not depend on the limits that were not met: an engine with wider
limits gives it too. Both engines read the same expressions, refuse no range that the narrower one
reads and stop no text that it builds. A cell that its guards let through under the narrower limits
is let through under the wider ones. Only behind the first error may the two part, and that error
would have been the answer.

Results:
1. `Cell.value_sameReading`: cells are read in the same way as long as no error is met;
2. `wider_limits_keep_answers`: so an answer without an error is the answer under wider limits.
-/

namespace Spreadsheet

open Value Formula Setting

variable {w w' : Setting}

/-- Up to the first error a cell is read in the same way under wider limits. -/
abbrev SameReading (x y : Eval Value) : Prop :=
  UntilError (fun _ => True) (fun _ => True) fault? x y

theorem Setting.Widens.isFormula_iff (h : w.Widens w') {a : Address} :
    w'.IsFormula a ↔ w.IsFormula a := by
  unfold Setting.IsFormula
  rw [h.grid]

namespace Cell

theorem valueFrom_of_widens (hww : w.Widens w') {a : Address} (h : ¬w.IsFormula a)
    (f : Address → Value) : valueFrom w' f a = valueFrom w f a := by
  unfold valueFrom
  rw [hww.grid]
  split
  · rfl
  · rfl
  · rfl
  · next source hg => exact absurd ⟨source, hg⟩ h

/-- The guard that lets a cell through under some limits lets it through under wider ones. -/
theorem guarded_sameReading (hw : w.functions.Regular) (hww : w.Widens w') {a : Address}
    {source : String} (hg : w.grid a = some (.formula source))
    {deeper deeper' : Option (Address → Eval Value)}
    (h : ∀ read, deeper = some read → ∃ read', deeper' = some read' ∧
      ∀ b, SameReading (read b) (read' b)) :
    SameReading (guarded w deeper a source) (guarded w' deeper' a source) := by
  refine ⟨fun s _ hclean => ⟨trivial, ?_⟩, fun _ _ _ _ => trivial⟩
  have hspec := guarded_spec w deeper a source s
  generalize guarded w deeper a source s = r at hspec hclean ⊢
  cases hspec with
  | remembered hm =>
    rw [guarded_apply, hm]
    rfl
  | cycle => exact nomatch hclean
  | depth => exact nomatch hclean
  | budget => exact nomatch hclean
  | @computed read hm hv hd hb =>
    obtain ⟨read', hd', hread⟩ := h read hd
    have hb' : s.evaluations < w'.limits.maxEvaluations :=
      Nat.lt_of_lt_of_le hb hww.limits.maxEvaluations
    have hformula := UntilError.formulaValue hw hww (fun _ _ => trivial) hg
      fun _ _ b _ => hread b
    rw [compute_apply] at hclean ⊢
    rw [hd', guarded_eq_compute hm hv hb', compute_apply,
      (hformula.keeps (s.enter a) trivial hclean).2]

theorem valueWith_sameReading (hw : w.functions.Regular) (hww : w.Widens w') (a : Address)
    {deeper deeper' : Option (Address → Eval Value)}
    (h : ∀ read, deeper = some read → ∃ read', deeper' = some read' ∧
      ∀ b, SameReading (read b) (read' b)) :
    SameReading (valueWith w deeper a) (valueWith w' deeper' a) := by
  by_cases hform : w.IsFormula a
  · obtain ⟨source, hg⟩ := hform
    have hg' : w'.grid a = some (.formula source) := hww.grid ▸ hg
    have hguarded := guarded_sameReading hw hww hg h
    refine ⟨fun s _ hclean => ⟨trivial, ?_⟩, fun _ _ _ _ => trivial⟩
    rw [valueWith_of_formula hg] at hclean ⊢
    rw [valueWith_of_formula hg']
    exact (hguarded.keeps _ trivial hclean).2
  · have hform' : ¬w'.IsFormula a := hww.isFormula_iff.not.mpr hform
    refine ⟨fun s _ _ => ⟨trivial, ?_⟩, fun _ _ _ _ => trivial⟩
    rw [valueWith_of_not_isFormula hform fun _ => .empty,
      valueWith_of_not_isFormula hform' fun _ => .empty, valueFrom_of_widens hww hform]

/-- With at least as much room a cell is read in the same way, up to the first error. -/
theorem value_sameReading (hw : w.functions.Regular) (hww : w.Widens w') {room room' : Nat}
    (hroom : room ≤ room') (a : Address) :
    SameReading (Cell.value w room a) (Cell.value w' room' a) := by
  induction room generalizing room' a with
  | zero => cases room' <;> exact valueWith_sameReading hw hww a nofun
  | succ room ih =>
    obtain ⟨room', rfl⟩ := Nat.exists_eq_add_of_lt hroom
    refine valueWith_sameReading hw hww a fun read hread => ?_
    cases hread
    exact ⟨_, rfl, fun b => ih (Nat.le_add_right room room') b⟩

end Cell

/-! ## The standard engine -/

namespace Engine

variable {limits limits' : Limits}

theorem standard_regular (limits : Limits) (g : Grid) :
    ((standard limits).setting g).functions.Regular :=
  Registry.standard_regular

theorem standard_widens (h : limits.AtMost limits') (g : Grid) :
    ((standard limits).setting g).Widens ((standard limits').setting g) :=
  ⟨rfl, rfl, h⟩

/-- A fresh session of the narrower engine reads a cell like one of the wider engine, up to the
first error. -/
theorem evaluateCell_of_fault?_eq_none (h : limits.AtMost limits') (g : Grid) {a : Address}
    (hclean : ((standard limits).evaluateCell g a).fault? = none) :
    (standard limits').evaluateCell g a = (standard limits).evaluateCell g a := by
  have hread := Cell.value_sameReading (standard_regular limits g) (standard_widens h g)
    h.maxDepth a
  rw [evaluateCell_eq] at hclean ⊢
  rw [evaluateCell_eq]
  exact congrArg Prod.fst (hread.keeps {} trivial hclean).2

/-- The answer for a cell is an error or the same under wider limits. A cell without a formula may
hold a list with errors in it, and that is the same under any limits. -/
theorem evaluateCell_of_atMost (h : limits.AtMost limits') (g : Grid) (a : Address) :
    (∃ x, (standard limits).evaluateCell g a = .error x) ∨
      (standard limits').evaluateCell g a = (standard limits).evaluateCell g a := by
  have hww := standard_widens h g
  by_cases hform : ((standard limits).setting g).IsFormula a
  · have hanswer := (Session.cellValue_ensures (standard_strict limits g) a {}
      ⟨sound_empty, rfl⟩).2
    rcases hanswer.error_or hform with herror | hclean
    · exact .inl herror
    · exact .inr (evaluateCell_of_fault?_eq_none h g hclean)
  · right
    rw [evaluateCell_eq, evaluateCell_eq, Session.cellValue, Session.cellValue,
      Cell.value_of_not_isFormula _ hform fun _ => .empty,
      Cell.value_of_not_isFormula _ (hww.isFormula_iff.not.mpr hform) fun _ => .empty]
    exact Cell.valueFrom_of_widens hww hform _

/-- The answer for a formula is an error or the same under wider limits. -/
theorem evaluateFormula_of_atMost (h : limits.AtMost limits') (g : Grid) (text : String) :
    (∃ x, (standard limits).evaluateFormula g text = .error x) ∨
      (standard limits').evaluateFormula g text = (standard limits).evaluateFormula g text := by
  cases he : Expr.ofText limits.maxNesting text with
  | error x => exact .inl ⟨x.toCellError, evaluateFormula_of_error _ g he⟩
  | ok e =>
    rw [evaluateFormula_of_ok (standard limits) g he,
      evaluateFormula_of_ok (standard limits') g (Expr.ofText_of_le h.maxNesting he)]
    have hvalue := UntilError.value (standard_regular limits g) (standard_widens h g)
      (fun _ _ => trivial) (Expr.clean_of_ofText he) fun b _ =>
        Cell.value_sameReading (standard_regular limits g) (standard_widens h g) h.maxDepth b
    refine (finalize_error_or_fault?_eq_none _).imp id fun hclean => ?_
    exact congrArg (fun r => finalize r.1) (hvalue.keeps {} trivial hclean.2).2

end Engine

/-- An answer without an error does not change under wider limits: not for a formula and not for a
cell, whatever the grid holds. -/
theorem wider_limits_keep_answers (limits limits' : Limits) (h : limits.AtMost limits') (g : Grid) :
    let engine := Engine.standard limits
    let wider := Engine.standard limits'
    (∀ text, (∀ x, engine.evaluateFormula g text ≠ .error x) →
      wider.evaluateFormula g text = engine.evaluateFormula g text) ∧
    ∀ a, (∀ x, engine.evaluateCell g a ≠ .error x) →
      wider.evaluateCell g a = engine.evaluateCell g a := by
  intro engine wider
  constructor
  · intro text hne
    exact (Engine.evaluateFormula_of_atMost h g text).resolve_left fun ⟨x, hx⟩ => hne x hx
  · intro a hne
    exact (Engine.evaluateCell_of_atMost h g a).resolve_left fun ⟨x, hx⟩ => hne x hx

open SharedCell in
theorem wider_limits_keep_answers_shared_cell :
    limits.AtMost {} ∧ (Engine.standard limits).evaluateCell content a1 = .int 10 ∧
      (Engine.standard {}).evaluateCell content a1 = .int 10 := by
  have hlimits : limits.AtMost {} :=
    ⟨Nat.le_refl _, by decide, by decide, Nat.le_refl _, Nat.le_refl _⟩
  have hanswer : (Engine.standard limits).evaluateCell content a1 = .int 10 := by
    rw [Engine.evaluateCell_eq, ← plainValue_a1]
    exact cellValue_eq_plainValue (Engine.standard_strict limits content) (within a1) (fewFrom a1)
  obtain ⟨-, hcells⟩ := wider_limits_keep_answers limits {} hlimits content
  exact ⟨hlimits, hanswer, (hcells a1 (by simp [hanswer])).trans hanswer⟩

end Spreadsheet
