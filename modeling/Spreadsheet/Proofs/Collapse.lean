import Spreadsheet.Proofs.Calls
import Spreadsheet.Proofs.FirstError

/-!
# Reducing a list to one value

The value of a formula may be a list, and a cell shows one value only. A list of one value is that
value, through all lists, and any other list is `#VALUE!`. A sign in front of a formula does the
same, but looks for an error first: then it is worth the first error in the list, however many
values there are.

The two differ where a list of several values, or an empty list in one, has an error that is not
`#VALUE!`. Operators and functions never give such a list, since they look for an error first
themselves. It is a range on its own that does, or a list that stands in the formula or in a cell.

Results:
1. `finalize_of_fault`: what becomes of a list with an error;
2. `finalize_plus_of_clean`, `finalize_eq_plus_iff`: what a sign makes of any other value;
3. `Expr.IsOperation.eq_error`: operators and functions give one error or none;
4. `single_values_keep_first_error`: when a finished formula is worth its first error.
-/

namespace Spreadsheet

open Formula Value

/-! ## Single values -/

/-- The value is no list, or it is a list of one such value. -/
def Value.isSingle : Value → Bool
  | .array [v] => v.isSingle
  | .array _ => false
  | _ => true

theorem fault?_singleton (v : Value) : (array [v]).fault? = v.fault? := by
  rw [fault?_array, firstError?_cons, firstError?_nil, Option.or_none]

/-- A single value with an error is this error, and any other list counts as `#VALUE!`. -/
theorem finalize_of_fault : ∀ {v : Value} {x : CellError}, v.fault? = some x →
    finalize v = .error (if v.isSingle then x else .value)
  | .array [], _, _ => rfl
  | .array [v], _, h => by
    rw [fault?_singleton] at h
    rw [finalize_singleton, finalize_of_fault h]
    rfl
  | .array (_ :: _ :: _), _, _ => rfl
  | .error _, _, h => congrArg Value.error (Option.some.inj h)
  | .empty, _, h | .bool _, _, h | .int _, _, h | .float _, _, h | .text _, _, h => nomatch h

theorem finalize_ofExcept_scalar : ∀ v : Value, finalize (ofExcept v.scalar) = finalize v
  | .array [] => rfl
  | .array [v] => by
    rw [finalize_singleton, scalar, finalize_ofExcept_scalar v]
  | .array (_ :: _ :: _) => rfl
  | .error _ | .empty | .bool _ | .int _ | .float _ | .text _ => rfl

/-- Without an error to find, a sign in front changes nothing in the finished value. -/
theorem finalize_plus_of_clean {v : Value} (h : v.fault? = none) :
    finalize (UnaryOp.plus.apply v) = finalize v := by
  have hfirst : firstError? [v] = none := h
  rw [← finalize_ofExcept_scalar v, UnaryOp.apply, hfirst]
  cases v.scalar <;> rfl

/-- A finished value is the same with a sign in front or without, unless there is an error to find
behind several values. -/
theorem finalize_eq_plus_iff (v : Value) : finalize v = finalize (UnaryOp.plus.apply v) ↔
    v.isSingle = true ∨ v.fault? = none ∨ v.fault? = some .value := by
  cases hv : v.fault? with
  | none => simp [finalize_plus_of_clean hv]
  | some x =>
    have hplus : finalize (UnaryOp.plus.apply v) = .error x := by
      rw [UnaryOp.apply_of_fault .plus hv]
      rfl
    rw [hplus, finalize_of_fault hv]
    cases v.isSingle with
    | true => simp
    | false => simp [eq_comm]

/-! ## Operations -/

theorem Value.IsOrdinary.eq_error {v : Value} {x : CellError} (h : v.IsOrdinary)
    (hx : v.fault? = some x) : v = .error x := by
  rcases h with hnone | ⟨y, -, rfl⟩
  · exact nomatch hnone.symm.trans hx
  · exact congrArg Value.error (Option.some.inj hx)

/-- The expression is made of others by an operator or a function. -/
def Formula.Expr.IsOperation : Expr → Prop
  | .unary _ _ | .binary _ _ _ | .call _ _ => True
  | _ => False

variable {w : Setting} {σ : Type}

theorem UnaryOp.apply_eq_error (op : UnaryOp) {v : Value} {x : CellError}
    (hx : (op.apply v).fault? = some x) : op.apply v = .error x := by
  cases hv : v.fault? with
  | none => exact (op.apply_isOrdinary hv).eq_error hx
  | some y =>
    rw [op.apply_of_fault hv] at hx ⊢
    exact congrArg Value.error (Option.some.inj hx)

theorem BinaryOp.apply_eq_error (op : BinaryOp) (limits : Limits) {a b : Value} {x : CellError}
    (hx : (op.apply limits a b).fault? = some x) : op.apply limits a b = .error x := by
  cases hab : firstError? [a, b] with
  | none =>
    rw [firstError?_eq_none_iff] at hab
    exact (op.apply_isOrdinary limits a b (hab a (by simp)) (hab b (by simp))).eq_error hx
  | some y =>
    rw [op.apply_strict limits a b y hab] at hx ⊢
    exact congrArg Value.error (Option.some.inj hx)

/-- Operators and functions give one error or none, whichever way the cells are read. -/
theorem Formula.Expr.IsOperation.eq_error (hw : w.functions.Regular) {e : Expr}
    (he : e.IsOperation) (read : Address → StateM σ Value) (s : σ) {x : CellError}
    (hx : (e.value w read s).1.fault? = some x) : (e.value w read s).1 = .error x := by
  cases e with
  | literal v => exact he.elim
  | cell r => exact he.elim
  | range r => exact he.elim
  | unary op e =>
    rw [Expr.value_unary] at hx ⊢
    exact UnaryOp.apply_eq_error op hx
  | binary op l r =>
    rw [Expr.value_binary] at hx ⊢
    change (Expr.afterLeft w op (l.value w read s).1 (r.value w read)
      (l.value w read s).2).1.fault? = some x at hx
    show (Expr.afterLeft w op (l.value w read s).1 (r.value w read) (l.value w read s).2).1 = _
    cases hl : (l.value w read s).1.fault? with
    | some y =>
      rw [Lockstep.afterLeft_of_fault op hl] at hx ⊢
      exact congrArg Value.error (Option.some.inj hx)
    | none =>
      rw [Lockstep.afterLeft_of_clean op hl] at hx ⊢
      exact BinaryOp.apply_eq_error op w.limits hx
  | call name args =>
    rw [Expr.value_call] at hx ⊢
    cases hd : w.functions.find? name with
    | none =>
      rw [hd] at hx
      exact congrArg Value.error (Option.some.inj hx)
    | some d =>
      rw [hd] at hx
      dsimp only at hx ⊢
      split
      · next hc =>
        rw [if_pos hc] at hx
        have hlength := length_mapM_state (Expr.value w read) args s
        change (d.implementation w.limits (args.mapM (Expr.value w read) s).1).fault? = some x at hx
        show d.implementation w.limits (args.mapM (Expr.value w read) s).1 = .error x
        cases hargs : firstError? (args.mapM (Expr.value w read) s).1 with
        | none => exact (hw.ordinary name d hd w.limits _ hargs).eq_error hx
        | some y =>
          rw [hw.strict name d hd w.limits _ y (hlength ▸ hc) hargs] at hx ⊢
          exact congrArg Value.error (Option.some.inj hx)
      · next hc =>
        rw [if_neg hc] at hx
        exact congrArg Value.error (Option.some.inj hx)

/-! ## Whole formulas -/

namespace Session

variable (w) (e : Expr) (s : Session)

theorem evaluateRoot_eq : (evaluateRoot w e s).1 = finalize (evaluate w e s).1 := rfl

theorem evaluate_plus :
    (evaluate w (.unary .plus e) s).1 = UnaryOp.plus.apply (evaluate w e s).1 := by
  rw [evaluate, Expr.value_unary]
  rfl

variable {w e s}

/-- A formula cell that no guard stops shows the finished value of its expression. -/
theorem cellValue_of_holds {a : Address} (h : w.Holds a e) (hadmits : s.Admits w a) :
    (cellValue w a s).1 = finalize (evaluate w e ((s.looked a).enter a)).1 := by
  obtain ⟨source, hg, he⟩ := h
  rw [cellValue_of_admits hg hadmits, Cell.compute_apply, Cell.formulaValue_of_ok he]
  rfl

end Session

/-! ## A cycle behind a range -/

namespace BareRange

def a1 : Address := ⟨0, 0⟩

def b1 : Address := ⟨0, 1⟩

def c1 : Address := ⟨0, 2⟩

/-- `A1` is the range `B1:C1`, where `B1` is `A1` again and `C1` is empty. -/
def content : Grid := fun a =>
  if a = a1 then some (.formula "=B1:C1")
  else if a = b1 then some (.formula "=A1")
  else some .blank

def setting : Setting :=
  (Engine.standard {}).setting content

/-- The expression in `A1`. -/
def bare : Expr :=
  .range ⟨⟨b1, false, false⟩, ⟨c1, false, false⟩⟩

/-- The expression in `B1`. -/
def back : Expr :=
  .cell ⟨a1, false, false⟩

/-- The session in which the expression in `A1` is evaluated. -/
def inside : Session :=
  (({} : Session).looked a1).enter a1

theorem holds_a1 : setting.Holds a1 bare :=
  .of_tokens [⟨.range ⟨b1, false, false⟩ ⟨c1, false, false⟩, "B1:C1", 0⟩, ⟨.eof, "", 5⟩]
    rfl (by decide +kernel) (by decide +kernel) rfl

theorem holds_b1 : setting.Holds b1 back :=
  .of_tokens [⟨.cell ⟨a1, false, false⟩, "A1", 0⟩, ⟨.eof, "", 2⟩]
    rfl (by decide +kernel) (by decide +kernel) rfl

theorem bare_value (read : Address → Eval Value) (s : Session) : (bare.value setting read s).1 =
    .array [(read b1 s).1, (read c1 (read b1 s).2).1] := rfl

theorem back_value (read : Address → Eval Value) (s : Session) :
    back.value setting read s = read a1 s := rfl

theorem value_c1 (room : Nat) (s : Session) :
    Cell.value setting room c1 s = (.empty, s.looked c1) :=
  Cell.value_of_not_isFormula room (fun ⟨_, h⟩ => nomatch h) fun _ => .empty

theorem admits_a1 : ({} : Session).Admits setting a1 :=
  ⟨by simp, by simp, by decide, by decide⟩

/-- In `A1` the range is worth a cycle and nothing. -/
theorem inside_value :
    (Session.evaluate setting bare inside).1 = .array [.error .cycle, .empty] := by
  show (bare.value setting (Cell.value setting 99) inside).1 = _
  rw [bare_value, value_c1, Cell.value_succ_of_holds 98 holds_b1 (by simp [inside])
    (by decide) (by decide), back_value,
    Cell.value_of_mem_visiting 98 holds_a1.isFormula (by simp [inside]) (by decide)]
  rfl

end BareRange

/-! ## The first error -/

/-- A finished formula whose value has an error is worth the first error in it if the value is
single, and `#VALUE!` if it is a list of several values or an empty one; so is a cell with this
formula. With a plus sign in front it is worth the first error in any case, so the sign makes a
difference just where a value that is not single has a first error other than `#VALUE!`. What
operators and functions give has an error only if it is this error, and so is single. -/
theorem single_values_keep_first_error (w : Setting) (e : Expr) (s : Session) :
    (∀ x, (Session.evaluate w e s).1.fault? = some x →
      (Session.evaluateRoot w e s).1
        = .error (if (Session.evaluate w e s).1.isSingle then x else .value) ∧
      (Session.evaluateRoot w (.unary .plus e) s).1 = .error x) ∧
    ((Session.evaluateRoot w e s).1 = (Session.evaluateRoot w (.unary .plus e) s).1 ↔
      (Session.evaluate w e s).1.isSingle = true ∨ (Session.evaluate w e s).1.fault? = none ∨
        (Session.evaluate w e s).1.fault? = some .value) ∧
    (∀ a x, w.Holds a e → s.Admits w a →
      (Session.evaluate w e ((s.looked a).enter a)).1.fault? = some x →
      (Session.cellValue w a s).1 = .error
        (if (Session.evaluate w e ((s.looked a).enter a)).1.isSingle then x else .value)) ∧
    (w.functions.Regular → e.IsOperation → ∀ x, (Session.evaluate w e s).1.fault? = some x →
      (Session.evaluateRoot w e s).1 = .error x) := by
  refine ⟨fun x hx => ⟨?_, ?_⟩, ?_, fun a x h hadmits hx => ?_, fun hw he x hx => ?_⟩
  · rw [Session.evaluateRoot_eq, finalize_of_fault hx]
  · rw [Session.evaluateRoot_eq, Session.evaluate_plus, UnaryOp.apply_of_fault .plus hx]
    rfl
  · rw [Session.evaluateRoot_eq, Session.evaluateRoot_eq, Session.evaluate_plus]
    exact finalize_eq_plus_iff _
  · rw [Session.cellValue_of_holds h hadmits, finalize_of_fault hx]
  · rw [Session.evaluateRoot_eq, Session.evaluate, he.eq_error hw _ s hx]
    rfl

open BareRange in
/-- With a sign in front the formula of `A1` would be worth the cycle. -/
theorem single_values_keep_first_error_range :
    (Session.cellValue setting a1 {}).1 = .error .value ∧
      (Session.evaluateRoot setting (.unary .plus bare) inside).1 = .error .cycle := by
  have hfault : (Session.evaluate setting bare inside).1.fault? = some .cycle := by
    rw [inside_value]
    rfl
  obtain ⟨-, -, hcell, -⟩ := single_values_keep_first_error setting bare {}
  obtain ⟨hroot, -⟩ := single_values_keep_first_error setting bare inside
  have hvalue := hcell a1 .cycle holds_a1 admits_a1 hfault
  rw [show (({} : Session).looked a1).enter a1 = inside from rfl, inside_value] at hvalue
  exact ⟨hvalue, (hroot .cycle hfault).2⟩

open BareRange in
/-- The first error in the value of the formula is a cycle, and neither the finished formula nor
the cell shows it. -/
theorem bare_range_hides_cycle :
    (Session.evaluate setting bare inside).1.fault? = some .cycle ∧
      (Session.evaluateRoot setting bare inside).1 = .error .value ∧
      (Engine.standard {}).evaluateCell content a1 = .error .value := by
  refine ⟨?_, ?_, ?_⟩
  · rw [inside_value]
    rfl
  · rw [Session.evaluateRoot_eq, inside_value]
    rfl
  · rw [Engine.evaluateCell_eq]
    show (Session.cellValue setting a1 {}).1 = _
    rw [Session.cellValue_of_holds holds_a1 admits_a1]
    show finalize (Session.evaluate setting bare inside).1 = _
    rw [inside_value]
    rfl

end Spreadsheet
