import Spreadsheet.Proofs.Ordinary
import Spreadsheet.Proofs.Parsing

/-!
# Operations under wider limits

Only one limit reaches an operation, the one on the length of a text that is built. Where it does
not refuse the text, a wider one does not either, so a result without errors stays what it is.

Results:
1. `BinaryOp.apply_of_atMost`: operators under wider limits;
2. `standard_steady`: functions under wider limits;
3. `standard_regular`: all that the evaluation of a formula asks of a table of functions.
-/

namespace Spreadsheet

open Value Formula

/-- Limits of which none is above the one of `limits'`. -/
structure Limits.AtMost (limits limits' : Limits) : Prop where
  maxRangeCells : limits.maxRangeCells ≤ limits'.maxRangeCells
  maxDepth : limits.maxDepth ≤ limits'.maxDepth
  maxEvaluations : limits.maxEvaluations ≤ limits'.maxEvaluations
  maxTextLength : limits.maxTextLength ≤ limits'.maxTextLength
  maxNesting : limits.maxNesting ≤ limits'.maxNesting

theorem Limits.AtMost.refl (limits : Limits) : limits.AtMost limits :=
  ⟨Nat.le_refl _, Nat.le_refl _, Nat.le_refl _, Nat.le_refl _, Nat.le_refl _⟩

variable {limits limits' : Limits}

/-! ## Bodies -/

theorem Value.fault?_ofExcept_error (x : CellError) : (ofExcept (.error x)).fault? ≠ none := nofun

/-- What holds of bodies holds of their results. -/
theorem ofExcept_eq_of_follows {x y : Except CellError Value} (h : Follows (fun _ => True) x y)
    (hclean : (ofExcept x).fault? = none) : ofExcept y = ofExcept x := by
  cases hx : x with
  | error e => exact absurd (hx ▸ hclean) (fault?_ofExcept_error e)
  | ok v => rw [(h v hx).1]

namespace Builtin

theorem follows_built (h : limits.AtMost limits') (cs : List Char) :
    Follows (fun _ => True) (built limits cs) (built limits' cs) := by
  unfold built
  split
  · next hlen =>
    rw [if_pos (Nat.le_trans hlen h.maxTextLength)]
    exact .ok trivial
  · exact .error _

/-! ## Functions -/

/-- A function whose results without errors stay the same under wider limits. -/
def Steady (f : Implementation) : Prop :=
  ∀ (limits limits' : Limits) (args : List Value), limits.AtMost limits' →
    (f limits args).fault? = none → f limits' args = f limits args

/-- Most functions do not look at the limits at all. -/
theorem steady_of_unlimited {f : Implementation}
    (h : ∀ limits limits' args, f limits' args = f limits args) : Steady f :=
  fun limits limits' args _ _ => h limits limits' args

theorem steady_strict {body : Limits → List Value → Except CellError Value}
    (h : ∀ limits limits' args, limits.AtMost limits' →
      Follows (fun _ => True) (body limits args) (body limits' args)) : Steady (strict body) := by
  intro limits limits' args hle hclean
  unfold strict at hclean ⊢
  cases hargs : firstError? args with
  | some x => rfl
  | none =>
    rw [hargs] at hclean
    exact ofExcept_eq_of_follows (h limits limits' args hle) hclean

theorem steady_replace : Steady replace := by
  refine steady_strict fun limits limits' args hle => ?_
  refine (Follows.refl _).bind fun cs _ => ?_
  refine (Follows.refl _).bind fun start _ => ?_
  refine (Follows.refl _).bind fun n _ => ?_
  exact (Follows.refl _).bind fun new _ => follows_built hle _

theorem steady_substitute : Steady substitute := by
  refine steady_strict fun limits limits' args hle => ?_
  refine (Follows.refl _).bind fun cs _ => ?_
  refine (Follows.refl _).bind fun old _ => ?_
  refine (Follows.refl _).bind fun new _ => ?_
  dsimp only
  split
  · exact .refl _
  · split
    · exact follows_built hle _
    · refine (Follows.refl _).bind fun n _ => ?_
      split
      · exact .refl _
      · split
        · exact follows_built hle _
        · exact .refl _

theorem steady_repeated : Steady repeated := by
  refine steady_strict fun limits limits' args hle => ?_
  refine (Follows.refl _).bind fun cs _ => ?_
  refine (Follows.refl _).bind fun n _ => ?_
  dsimp only
  split
  · exact .error _
  · next hlen =>
    rw [if_neg fun hlt => hlen (Nat.lt_of_le_of_lt hle.maxTextLength hlt)]
    exact .refl _

theorem steady_concat : Steady concat :=
  steady_strict fun _ _ _ hle => follows_built hle _

theorem steady_joinTexts : Steady joinTexts := by
  refine steady_strict fun limits limits' args hle => ?_
  refine (Follows.refl _).bind fun delimiter _ => ?_
  exact (Follows.refl _).bind fun ignoresEmpty _ => follows_built hle _

end Builtin

/-! ## Operators -/

namespace Formula

theorem joined_of_atMost (h : limits.AtMost limits') (a b : Value) :
    (joined limits a b).fault? = none → joined limits' a b = joined limits a b := by
  unfold joined Builtin.strict2
  intro hclean
  cases hargs : firstError? [a, b] with
  | some x => rfl
  | none =>
    rw [hargs] at hclean
    refine ofExcept_eq_of_follows ?_ hclean
    refine (Follows.refl _).bind fun left _ => ?_
    exact (Follows.refl _).bind fun right _ => Builtin.follows_built h _

theorem BinaryOp.apply_of_atMost (op : BinaryOp) (h : limits.AtMost limits') {a b : Value}
    (hclean : (op.apply limits a b).fault? = none) :
    op.apply limits' a b = op.apply limits a b := by
  -- only joined texts are measured
  cases op with
  | concat => exact joined_of_atMost h a b hclean
  | _ => rfl

end Formula

/-! ## The standard table -/

namespace FunctionDef

variable (least most : Nat) (params : List ParamType) (returns : ReturnType) (f : Implementation)

@[simp] theorem describe_implementation (d : FunctionDef) (description : String)
    (argNames : List String) :
    (d.describe description argNames).implementation = d.implementation := rfl

@[simp] theorem fixed_implementation : (fixed params returns f).implementation = f := rfl

@[simp] theorem between_implementation :
    (between least most params returns f).implementation = f := rfl

@[simp] theorem atLeast_implementation (param : ParamType) :
    (atLeast least param returns f).implementation = f := rfl

@[simp] theorem joining_implementation : joining.implementation = Builtin.concat := rfl

end FunctionDef

namespace Registry

/-- A table of functions whose results without errors stay the same under wider limits. -/
def Steady (r : Registry) : Prop :=
  ∀ (name : String) (d : FunctionDef), r.find? name = some d → Builtin.Steady d.implementation

/-- All entries but six do not look at the limits. -/
theorem standardEntries_steady : ∀ p ∈ standardEntries, Builtin.Steady p.2.implementation := by
  simp only [standardEntries, List.forall_mem_cons, List.not_mem_nil, false_imp_iff, implies_true,
    and_true, FunctionDef.describe_implementation, FunctionDef.fixed_implementation,
    FunctionDef.between_implementation, FunctionDef.atLeast_implementation,
    FunctionDef.joining_implementation]
  and_intros
  all_goals first
    | with_reducible exact Builtin.steady_replace
    | with_reducible exact Builtin.steady_substitute
    | with_reducible exact Builtin.steady_repeated
    | with_reducible exact Builtin.steady_concat
    | with_reducible exact Builtin.steady_joinTexts
    | exact Builtin.steady_of_unlimited fun _ _ _ => rfl

theorem standard_steady : Registry.standard.Steady :=
  fun name d h => standardEntries_steady (Text.toUpper name, d) (mem_of_find? h)

/-- All that the evaluation of a formula asks of the functions it calls. -/
structure Regular (r : Registry) : Prop where
  strict : r.Strict
  ordinary : r.Ordinary
  steady : r.Steady

theorem standard_regular : Registry.standard.Regular :=
  ⟨standard_strict, standard_ordinary, standard_steady⟩

end Registry

end Spreadsheet
