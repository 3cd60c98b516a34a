import Spreadsheet.Builtin.Standard
import Spreadsheet.Evaluation
import Spreadsheet.Formula.Operation

/-!
# Strictness

An operation whose arguments hold an error is worth the first of these errors. Everything that is
said about whole evaluations rests on it: an error is never turned back into an ordinary value, and
what stands behind the first error does not matter.

Results:
1. `UnaryOp.apply_of_fault`, `BinaryOp.apply_strict`: the operators are strict;
2. `standard_strict`: so is every function of the standard table, on every list of arguments that
   it accepts;
3. `finalize_eq_error_of_fault`: a formula whose value holds an error is worth an error.
-/

namespace Spreadsheet

open Formula

/-! ## The first error in a value -/

namespace Value

/-- The first error in a value, through all lists. -/
def fault? (v : Value) : Option CellError :=
  firstError? [v]

theorem firstError?_nil : firstError? [] = none := rfl

/-- The first error of a list stands in its head or else in its tail. -/
theorem firstError?_cons (v : Value) (vs : List Value) :
    firstError? (v :: vs) = v.fault?.or (firstError? vs) := by
  simp [fault?, firstError?, leavesOf, List.findSome?_append]

theorem fault?_error (e : CellError) : fault? (.error e) = some e := rfl

theorem fault?_array (vs : List Value) : fault? (.array vs) = firstError? vs := by
  simp [fault?, firstError?, leavesOf, leaves]

/-- A value has a first error when an error stands somewhere in it. -/
theorem fault?_ne_none_iff {v : Value} : v.fault? ≠ none ↔ ∃ e, .error e ∈ v.leaves := by
  unfold fault? firstError?
  rw [ne_eq, List.findSome?_eq_none_iff]
  simp only [leavesOf, List.append_nil]
  constructor
  · intro h
    obtain ⟨u, hu⟩ := Classical.not_forall.mp h
    obtain ⟨hmem, hne⟩ := Classical.not_imp.mp hu
    cases u with
    | error e => exact ⟨e, hmem⟩
    | _ => exact absurd rfl hne
  · rintro ⟨e, he⟩ h
    exact nomatch h _ he

theorem firstError?_eq_none_iff {vs : List Value} :
    firstError? vs = none ↔ ∀ v ∈ vs, v.fault? = none := by
  induction vs with
  | nil => simp [firstError?_nil]
  | cons v vs ih => simp [firstError?_cons, Option.or_eq_none_iff, ih]

theorem ne_error_of_fault?_eq_none {v : Value} (h : v.fault? = none) (e : CellError) :
    v ≠ .error e := by
  rintro rfl
  exact nomatch h

/-- Where a result is the error that is found, if there is one, a result without errors means that
none is found. -/
theorem eq_none_of_fault?_eq_none {found : Option CellError} {v : Value}
    (h : ∀ x, found = some x → v = .error x) (hv : v.fault? = none) : found = none := by
  cases found with
  | none => rfl
  | some x =>
    rw [h x rfl] at hv
    exact nomatch hv

end Value

open Value

/-! ## Operators -/

namespace Builtin

theorem strict_of_fault (body : Limits → List Value → Except CellError Value) (limits : Limits)
    {args : List Value} {e : CellError} (h : firstError? args = some e) :
    strict body limits args = .error e := by
  simp [strict, h]

/-- An operation of two values that is worth the first error in them, if there is one. -/
def Strict2 (op : Value → Value → Value) : Prop :=
  ∀ (a b : Value) (e : CellError), firstError? [a, b] = some e → op a b = .error e

theorem strict2_strict (body : Value → Value → Except CellError Value) :
    Strict2 (strict2 body) := by
  intro a b e h
  simp [strict2, h]

end Builtin

namespace Formula

theorem UnaryOp.apply_of_fault (op : UnaryOp) {v : Value} {e : CellError}
    (h : v.fault? = some e) : op.apply v = .error e := by
  unfold fault? at h
  simp [apply, h]

theorem BinaryOp.apply_strict (op : BinaryOp) (limits : Limits) :
    Builtin.Strict2 (op.apply limits) := by
  cases op <;> exact Builtin.strict2_strict _

/-- An error on the left decides, whatever stands on the right. -/
theorem BinaryOp.apply_of_fault_left (op : BinaryOp) (limits : Limits) {a : Value} {e : CellError}
    (h : a.fault? = some e) (b : Value) : op.apply limits a b = .error e :=
  op.apply_strict limits a b e (by simp [firstError?_cons, h])

end Formula

/-! ## Functions -/

/-- A function that is worth the first error among its arguments, if there is one. -/
def FunctionDef.Strict (d : FunctionDef) : Prop :=
  ∀ (limits : Limits) (args : List Value) (e : CellError), d.accepts args.length = true →
    firstError? args = some e → d.implementation limits args = .error e

/-- A table of strict functions. -/
def Registry.Strict (r : Registry) : Prop :=
  ∀ (name : String) (d : FunctionDef), r.find? name = some d → d.Strict

namespace FunctionDef

/-- A function whose body only sees arguments without errors. -/
theorem strict_of_body {d : FunctionDef} (body : Limits → List Value → Except CellError Value)
    (h : d.implementation = Builtin.strict body) : d.Strict := by
  intro limits args e _ he
  rw [h]
  exact Builtin.strict_of_fault body limits he

/-- An operation of two values as a function of two numbers. -/
theorem ofNumbers_strict {op : Value → Value → Value} (hop : Builtin.Strict2 op)
    (description : String) (argNames : List String) :
    (ofNumbers (Builtin.ofOperation op) description argNames).Strict := by
  intro limits args e hc he
  have hlen : args.length = 2 := by
    change (decide (2 ≤ args.length) && decide (args.length ≤ 2)) = true at hc
    rw [Bool.and_eq_true, decide_eq_true_eq, decide_eq_true_eq] at hc
    omega
  match args, hlen with
  | [a, b], _ => exact hop a b e he

/-- A function that takes no arguments is never given an error. -/
theorem strict_of_constant {d : FunctionDef} (hmax : d.maxArgs = some 0) : d.Strict := by
  intro limits args e hc he
  have hlen : args = [] := by
    simp only [accepts, hmax, Option.all_some, Bool.and_eq_true, decide_eq_true_eq] at hc
    exact List.length_eq_zero_iff.mp (by omega)
  subst hlen
  exact nomatch he

end FunctionDef

namespace Registry

/-- Every entry of the standard table is strict. All but seven are functions with a strict body:
the arithmetic ones are the operations of the operators, and `PI` takes no arguments. -/
theorem standardEntries_strict : ∀ p ∈ standardEntries, p.2.Strict := by
  simp only [standardEntries, List.forall_mem_cons, List.not_mem_nil, false_imp_iff, implies_true,
    and_true]
  and_intros
  all_goals first
    | exact FunctionDef.strict_of_body _ rfl
    | exact FunctionDef.ofNumbers_strict (Builtin.strict2_strict _) _ _
    | exact FunctionDef.strict_of_constant rfl

theorem standard_strict : Registry.standard.Strict := by
  intro name d h
  obtain ⟨l₁, l₂, hl, -⟩ := List.lookup_eq_some_iff.mp h
  exact standardEntries_strict (Text.toUpper name, d) (by
    show (Text.toUpper name, d) ∈ Registry.standard.entries
    rw [hl]
    simp)

end Registry

/-! ## Finished formulas -/

/-- A list of one value is finished like that value. -/
theorem finalize_singleton (v : Value) : finalize (.array [v]) = finalize v := by
  simp [finalize, scalar]

theorem finalize_of_length {vs : List Value} (h : vs.length ≠ 1) :
    finalize (.array vs) = .error .value := by
  match vs, h with
  | [], _ => rfl
  | [_], h => exact absurd rfl h
  | _ :: _ :: _, _ => rfl

/-- A finished formula that is worth no error is worth something without any, and so was its
value. -/
theorem fault?_of_finalize_ne : ∀ {v : Value}, (∀ e, finalize v ≠ .error e) →
    (finalize v).fault? = none ∧ v.fault? = none
  | .array [], h => absurd rfl (h .value)
  | .array [v], h => by
    rw [finalize_singleton] at h ⊢
    obtain ⟨hfin, hv⟩ := fault?_of_finalize_ne h
    exact ⟨hfin, by simp [fault?_array, firstError?_cons, firstError?_nil, hv]⟩
  | .array (_ :: _ :: _), h => absurd rfl (h .value)
  | .error e, h => absurd rfl (h e)
  | .empty, _ | .bool _, _ | .int _, _ | .float _, _ | .text _, _ => ⟨rfl, rfl⟩

/-- A finished formula is worth an error or something without any. -/
theorem finalize_error_or_fault?_eq_none (v : Value) :
    (∃ e, finalize v = .error e) ∨ ((finalize v).fault? = none ∧ v.fault? = none) := by
  cases h : finalize v with
  | error e => exact .inl ⟨e, rfl⟩
  | _ => exact .inr (h ▸ fault?_of_finalize_ne (by simp [h]))

theorem fault?_of_fault?_finalize {v : Value} (h : (finalize v).fault? = none) : v.fault? = none :=
  (fault?_of_finalize_ne fun _ => ne_error_of_fault?_eq_none h _).2

/-- A formula whose value holds an error is worth an error. -/
theorem finalize_eq_error_of_fault {v : Value} (h : v.fault? ≠ none) :
    ∃ e, finalize v = .error e :=
  (finalize_error_or_fault?_eq_none v).resolve_right fun hv => h hv.2

end Spreadsheet
