import Spreadsheet.Proofs.Expression

/-!
# Cells without sessions

What a cell is worth when no session interferes: no way, no limits, nothing remembered. One step
of this is `Cell.valueFrom`, the value of a cell from the values of all cells.

Where recursion along the names ends, the steps add up to one value, `plainValue`. On and upstream
of a cycle they do not. Yet even there a cell can have a value that does not depend on the others:
an error that stands before everything that leads to the cycle. `w.Decided a v` says that the cell
is worth `v` however the cells are valued that are not decided before it.

Results:
1. `plainValue_eq`: the recursion equation of `plainValue`;
2. `Decided.unique`, `decided_iff`: a cell is decided in at most one way, and what is decided is
   what holds in all completions;
3. `Grounded.decided`, `Decided.grounded`: a grounded cell is decided as its plain value, and a
   cell that is not grounded can only be decided as an error.
-/

namespace Spreadsheet

open Formula

/-! ## One step -/

/-- The value of a cell, given the values of the cells it names. -/
def Cell.valueFrom (w : Setting) (f : Address → Value) (a : Address) : Value :=
  match w.grid a with
  | none => .error .ref
  | some .blank => .empty
  | some (.literal v) => v
  | some (.formula source) =>
    match Expr.ofText w.limits.maxNesting source with
    | .error e => .error e.toCellError
    | .ok e => finalize (e.valueFrom w f)

namespace Setting

variable {w : Setting} {f g : Address → Value} {a : Address} {v : Value}

theorem Holds.valueFrom {e : Expr} (h : w.Holds a e) :
    Cell.valueFrom w f a = finalize (e.valueFrom w f) := by
  obtain ⟨source, hg, he⟩ := h
  simp only [Cell.valueFrom, hg, he]

/-- Without an expression in the cell there is nothing to ask for. -/
theorem valueFrom_of_not_holds (h : ∀ e, ¬w.Holds a e) :
    Cell.valueFrom w f a = Cell.valueFrom w g a := by
  unfold Cell.valueFrom
  split
  · rfl
  · rfl
  · rfl
  · next source hg =>
    split
    · rfl
    · next e he => exact absurd ⟨source, hg, he⟩ (h e)

theorem valueFrom_congr (h : ∀ e, w.Holds a e → ∀ b ∈ e.cells, f b = g b) :
    Cell.valueFrom w f a = Cell.valueFrom w g a := by
  by_cases ha : ∃ e, w.Holds a e
  · obtain ⟨e, he⟩ := ha
    rw [he.valueFrom, he.valueFrom, e.valueFrom_congr (h e he)]
  · exact valueFrom_of_not_holds fun e he => ha ⟨e, he⟩

/-- A formula cell is worth an error or something without any. -/
theorem IsFormula.valueFrom_error_or (h : w.IsFormula a) :
    (∃ x, Cell.valueFrom w f a = .error x) ∨ (Cell.valueFrom w f a).fault? = none := by
  obtain ⟨source, hg⟩ := h
  simp only [Cell.valueFrom, hg]
  split
  · exact .inl ⟨_, rfl⟩
  · exact (finalize_error_or_fault?_eq_none _).imp_right And.left

/-! ## Plain recursion -/

open Classical in
/-- The value of a grounded cell by recursion along the names, with nothing remembered and nothing
guarded. A cell that is not grounded has no such value; it is given a cycle's error here. -/
noncomputable def plainValue (w : Setting) (a : Address) : Value :=
  if h : w.Grounded a then
    WellFounded.fixF (r := fun b a => w.Names a b) (fun a below =>
      Cell.valueFrom w (fun b =>
        if hb : w.Names a b then below b hb else Cell.valueFrom w (fun _ => .empty) b) a) a h
  else .error .cycle

theorem Grounded.plainValue_eq (h : w.Grounded a) :
    w.plainValue a = Cell.valueFrom w w.plainValue a := by
  rw [plainValue, dif_pos h, WellFounded.fixF_eq]
  apply valueFrom_congr
  intro e he b hb
  by_cases hab : w.Names a b
  · rw [dif_pos hab, plainValue, dif_pos (h.of_names hab)]
  · -- a named cell without a formula asks for nothing, in either recursion
    have hf : ¬w.IsFormula b := fun hf => hab ⟨e, he, hb, hf⟩
    have hnone : ∀ e, ¬w.Holds b e := fun _ he => hf he.isFormula
    rw [dif_neg hab, plainValue, dif_pos (grounded_of_not_isFormula hf), WellFounded.fixF_eq]
    exact valueFrom_of_not_holds hnone

/-! ## Decided cells -/

/-- The cell is worth `v` in every valuation that agrees with some cells decided before. -/
inductive Decided (w : Setting) : Address → Value → Prop where
  | intro {a : Address} {v : Value} (known : Address → Option Value)
      (sound : ∀ b u, known b = some u → Decided w b u)
      (all : ∀ f : Address → Value, (∀ b u, known b = some u → f b = u) →
        Cell.valueFrom w f a = v) : Decided w a v

/-- A valuation that gives every decided cell its value. -/
def Completes (w : Setting) (f : Address → Value) : Prop :=
  ∀ b u, w.Decided b u → f b = u

theorem Decided.unique (h : w.Decided a v) : ∀ {v' : Value}, w.Decided a v' → v = v' := by
  induction h with
  | intro known _ all ih =>
    intro v' h'
    cases h' with
    | intro known' sound' all' =>
      -- a valuation that agrees with both collections of decided cells
      let f : Address → Value := fun b => ((known b).or (known' b)).getD .empty
      have hf : ∀ b u, known b = some u → f b = u := by
        intro b u hu
        simp [f, hu]
      have hf' : ∀ b u, known' b = some u → f b = u := by
        intro b u hu
        cases hk : known b with
        | none => simp [f, hk, hu]
        | some u' =>
          have huu : u' = u := ih b u' hk (sound' b u hu)
          simp [f, hk, huu]
      rw [← all f hf, all' f hf']

open Classical in
/-- The decided cells as a partial valuation. -/
noncomputable def decidedValue? (w : Setting) (a : Address) : Option Value :=
  if h : ∃ v, w.Decided a v then some h.choose else none

theorem decidedValue?_eq_some_iff : w.decidedValue? a = some v ↔ w.Decided a v := by
  unfold decidedValue?
  split
  · next h =>
    constructor
    · intro hv
      exact Option.some.inj hv ▸ h.choose_spec
    · intro hv
      rw [h.choose_spec.unique hv]
  · next h => exact ⟨nofun, fun hv => absurd ⟨v, hv⟩ h⟩

/-- The valuation that takes one value for all cells that are not decided. -/
noncomputable def completion (w : Setting) (rest : Value) (a : Address) : Value :=
  (w.decidedValue? a).getD rest

theorem completes_completion (rest : Value) : w.Completes (w.completion rest) := by
  intro b u h
  rw [completion, decidedValue?_eq_some_iff.mpr h, Option.getD_some]

/-- What is decided is what holds in all completions. -/
theorem decided_iff :
    w.Decided a v ↔ ∀ f, w.Completes f → Cell.valueFrom w f a = v := by
  constructor
  · rintro ⟨known, sound, all⟩ f hf
    exact all f fun b u hu => hf b u (sound b u hu)
  · intro h
    refine .intro w.decidedValue? (fun b u hu => decidedValue?_eq_some_iff.mp hu) fun f hf => ?_
    exact h f fun b u hu => hf b u (decidedValue?_eq_some_iff.mpr hu)

theorem decided_of_not_isFormula (h : ¬w.IsFormula a) : w.Decided a (Cell.valueFrom w f a) :=
  decided_iff.mpr fun _ _ => valueFrom_of_not_holds fun _ he => h he.isFormula

/-- A completion is its own next step on decided cells. -/
theorem Completes.valueFrom_eq (hf : w.Completes f) (h : w.Decided a v) :
    Cell.valueFrom w f a = v :=
  decided_iff.mp h f hf

/-- A formula cell is decided as an error or as something without any. -/
theorem Decided.error_or (h : w.Decided a v) (ha : w.IsFormula a) :
    (∃ x, v = .error x) ∨ v.fault? = none := by
  have hv := (completes_completion .empty).valueFrom_eq h
  have hor := ha.valueFrom_error_or (f := w.completion .empty)
  rwa [hv] at hor

/-- A grounded cell is decided as its plain value. -/
theorem Grounded.decided (h : w.Grounded a) : w.Decided a (w.plainValue a) := by
  induction h with
  | intro a hacc ih =>
    refine decided_iff.mpr fun f hf => ?_
    rw [Grounded.plainValue_eq (Acc.intro a hacc)]
    refine valueFrom_congr fun e he b hb => ?_
    by_cases hform : w.IsFormula b
    · exact hf b _ (ih b ⟨e, he, hb, hform⟩)
    · refine hf b _ ?_
      rw [(grounded_of_not_isFormula hform).plainValue_eq]
      exact decided_of_not_isFormula hform

theorem Grounded.decided_iff (h : w.Grounded a) : w.Decided a v ↔ v = w.plainValue a :=
  ⟨fun hv => hv.unique h.decided, fun hv => hv ▸ h.decided⟩

/-- Only a grounded cell is decided as something without errors: a cell named by the formula that
is not decided yet could hold an error. -/
theorem Decided.grounded (hw : w.functions.Strict) (h : w.Decided a v) :
    v.fault? = none → w.Grounded a := by
  induction h with
  | @intro a v known _ all ih =>
    intro hv
    refine Acc.intro a fun b hab => ?_
    obtain ⟨e, he, hb, -⟩ := hab
    let f : Address → Value := fun b => (known b).getD (.error .cycle)
    have hfv : finalize (e.valueFrom w f) = v := by
      rw [← he.valueFrom]
      exact all f fun b u hu => by simp [f, hu]
    have hfb : (f b).fault? = none := by
      by_contra hne
      obtain ⟨x, hx⟩ := finalize_eq_error_of_fault (Expr.fault?_valueFrom hw hb hne)
      rw [← hfv, hx] at hv
      exact nomatch hv
    cases hk : known b with
    | none =>
      simp only [f, hk] at hfb
      exact nomatch hfb
    | some u =>
      simp only [f, hk] at hfb
      exact ih b u hk hfb

/-- On and upstream of a cycle only errors are decided. -/
theorem Decided.error_of_circular (hw : w.functions.Strict) (h : w.Decided a v)
    (ha : w.Circular a) : ∃ x, v = .error x :=
  (h.error_or ha.isFormula).resolve_right fun hv => (h.grounded hw hv).not_circular ha

end Setting

end Spreadsheet
