import Spreadsheet.Proofs.Collapse
import Spreadsheet.Proofs.Resolution

/-!
# Operators and their functions

Each arithmetic operator has a function that does the same with two values, and `&` has `CONCAT`.
The expressions are evaluated differently, though: an error on the left of an operator keeps its
right side from being computed at all, while a function is given all its arguments. Since both are
strict the value is the same, and only the session tells them apart, by what was read for nothing.

`&` reduces both sides to one value each, and `CONCAT` joins the scalars of whole lists. Where both
sides are single values there is nothing to tell them apart either, since the text of a single value
is what its only scalar shows.

Results:
1. `joined_eq_concat`: on single values `&` and `CONCAT` are the same operation;
2. `find_of_mem_functionNames`: the functions of the standard table that are operators;
3. `Session.evaluate_binary_of_error`, `Session.evaluate_binary_of_ne_error`,
   `Session.evaluate_call_two`: how operators and functions go on from their left side;
4. `operators_are_functions`: same value, and the same session unless the left side is an error.
-/

namespace Spreadsheet

open Formula Value

/-! ## The same operation on values -/

namespace Value

/-- A single value has one scalar, and reduces to it. -/
theorem scalar_of_isSingle : ∀ {v : Value}, v.isSingle = true →
    ∃ u, v.scalar = .ok u ∧ v.leaves = [u]
  | .array [v], h => by
    obtain ⟨u, hscalar, hleaves⟩ := scalar_of_isSingle (v := v) h
    exact ⟨u, hscalar, by rw [leaves, leavesOf, leavesOf, hleaves, List.append_nil]⟩
  | .array [], h | .array (_ :: _ :: _), h => nomatch h
  | .empty, _ | .bool _, _ | .int _, _ | .float _, _ | .text _, _ | .error _, _ => ⟨_, rfl, rfl⟩

/-- The text of a single value without an error is what its scalar shows. -/
theorem toText_of_isSingle {v : Value} (h : v.isSingle = true) (hclean : v.fault? = none) :
    ∃ u, v.toText = .ok u.display ∧ v.leaves = [u] := by
  obtain ⟨u, hscalar, hleaves⟩ := scalar_of_isSingle h
  have hfault : ∀ e, u ≠ .error e := by
    rintro e rfl
    rw [fault?, firstError?, leavesOf, leavesOf, hleaves] at hclean
    cases hclean
  refine ⟨u, ?_, hleaves⟩
  rw [toText, hscalar]
  cases u with
  | error e => exact absurd rfl (hfault e)
  | _ => rfl

end Value

/-- On single values `&` and `CONCAT` are the same operation, errors included. -/
theorem joined_eq_concat (limits : Limits) {u v : Value} (hu : u.isSingle = true)
    (hv : v.isSingle = true) : joined limits u v = Builtin.concat limits [u, v] := by
  rw [joined, Builtin.strict2, Builtin.concat, Builtin.strict]
  cases hfirst : firstError? [u, v] with
  | some e => rfl
  | none =>
    rw [firstError?_eq_none_iff] at hfirst
    obtain ⟨a, htextu, hleavesu⟩ := toText_of_isSingle hu (hfirst u (by simp))
    obtain ⟨b, htextv, hleavesv⟩ := toText_of_isSingle hv (hfirst v (by simp))
    have hleaves : leavesOf [u, v] = [a, b] := by
      rw [leavesOf, leavesOf, leavesOf, hleavesu, hleavesv]
      rfl
    dsimp only
    rw [htextu, htextv, hleaves]
    simp only [List.flatMap_cons, List.flatMap_nil, List.append_nil]
    rfl

/-- The functions that do what the operator does. The comparisons have none. -/
def Formula.BinaryOp.functionNames : BinaryOp → List String
  | .add => ["ADD"]
  | .subtract => ["MINUS"]
  | .multiply => ["MULTIPLY"]
  | .divide => ["DIVIDE"]
  | .power => ["POW", "POWER"]
  | .concat => ["CONCAT", "CONCATENATE"]
  | _ => []

/-- Two values on which the operator does what its functions do: `&` needs single values. -/
def Formula.BinaryOp.Suits (op : BinaryOp) (u v : Value) : Prop :=
  op = .concat → u.isSingle = true ∧ v.isSingle = true

/-- What the functions of an operator do with two values. -/
def Formula.BinaryOp.applyFunction (limits : Limits) : BinaryOp → Value → Value → Value
  | .concat, u, v => Builtin.concat limits [u, v]
  | op, u, v => op.apply limits u v

theorem BinaryOp.apply_eq_applyFunction (op : BinaryOp) (limits : Limits) {u v : Value}
    (h : op.Suits u v) : op.apply limits u v = op.applyFunction limits u v := by
  cases op with
  | concat => exact joined_eq_concat limits (h rfl).1 (h rfl).2
  | _ => rfl

/-- The functions of an operator stand in the standard table, in upper or lower case. -/
theorem find_of_mem_functionNames {op : BinaryOp} {name : String}
    (h : Text.toUpper name ∈ op.functionNames) : ∃ d, Registry.standard.find? name = some d ∧
      d.accepts 2 = true ∧
      ∀ limits u v, d.implementation limits [u, v] = op.applyFunction limits u v := by
  unfold Registry.find?
  cases op with
  | add | subtract | multiply | divide =>
    rw [List.mem_singleton.mp h]
    exact ⟨_, rfl, rfl, fun _ _ _ => rfl⟩
  | power | concat =>
    rcases List.mem_pair.mp h with h | h <;> rw [h] <;> exact ⟨_, rfl, rfl, fun _ _ _ => rfl⟩
  | _ => exact absurd h List.not_mem_nil

/-! ## Two ways of evaluation -/

namespace Session

variable {w : Setting} {s : Session}

/-- An evaluation leaves the room on the way as it was, in any session. -/
theorem room_evaluate (w : Setting) (e : Expr) (s : Session) :
    (evaluate w e s).2.room w = s.room w := by
  have hdepth : (evaluate w e s).2.depth = s.depth :=
    (Ensures.value_of_read (fun a => Cell.value_depth (s.room w) a s.depth) e s rfl).1
  rw [room, room, hdepth]

/-- The right side is computed behind the left one as if it were asked for there. -/
theorem value_behind (l r : Expr) : r.value w (Cell.value w (s.room w)) (evaluate w l s).2 =
    evaluate w r (evaluate w l s).2 := by
  rw [← room_evaluate w l s]
  rfl

/-- An error on the left is the value, and the right side is not computed. -/
theorem evaluate_binary_of_error (op : BinaryOp) {l : Expr} (r : Expr) {e : CellError}
    (h : (evaluate w l s).1 = .error e) :
    evaluate w (.binary op l r) s = (.error e, (evaluate w l s).2) := by
  rw [evaluate_binary, h]
  rfl

theorem evaluate_binary_of_ne_error (op : BinaryOp) {l : Expr} (r : Expr)
    (h : ∀ e, (evaluate w l s).1 ≠ .error e) : evaluate w (.binary op l r) s =
      (op.apply w.limits (evaluate w l s).1 (evaluate w r (evaluate w l s).2).1,
        (evaluate w r (evaluate w l s).2).2) := by
  rw [evaluate_binary, ← value_behind]
  cases hvalue : (evaluate w l s).1 with
  | error e => exact absurd hvalue (h e)
  | _ => rfl

/-- A function of two arguments is given both, whatever they are. -/
theorem evaluate_call_two {name : String} {d : FunctionDef}
    (hfind : w.functions.find? name = some d) (haccepts : d.accepts 2 = true) (l r : Expr) :
    evaluate w (.call name [l, r]) s =
      (d.implementation w.limits [(evaluate w l s).1, (evaluate w r (evaluate w l s).2).1],
        (evaluate w r (evaluate w l s).2).2) := by
  have hlength : d.accepts [l, r].length = true := haccepts
  rw [← value_behind, evaluate, Expr.value_call, hfind]
  dsimp only
  rw [if_pos hlength]
  rfl

/-- In a setting with the standard functions, a call of an operator's function. -/
theorem evaluate_call_of_mem_functionNames (hw : w.functions = .standard) {op : BinaryOp}
    {name : String} (hname : Text.toUpper name ∈ op.functionNames) (l r : Expr) :
    evaluate w (.call name [l, r]) s =
      (op.applyFunction w.limits (evaluate w l s).1 (evaluate w r (evaluate w l s).2).1,
        (evaluate w r (evaluate w l s).2).2) := by
  obtain ⟨d, hfind, haccepts, himplementation⟩ := find_of_mem_functionNames hname
  rw [evaluate_call_two (hw ▸ hfind) haccepts, himplementation]

end Session

theorem BinaryOp.applyFunction_of_error (op : BinaryOp) (limits : Limits) (e : CellError)
    (v : Value) : op.applyFunction limits (.error e) v = .error e := by
  unfold BinaryOp.applyFunction
  split
  · exact rfl
  · exact BinaryOp.apply_of_fault_left _ limits (fault?_error e) _

/-! ## Main theorem -/

/-- From any session, an operator is worth what a call of its function with the same two arguments
is worth; for `&` this needs single values on both sides. Both leave the same session unless the
left side is an error. Then this error is the value of both, the operator leaves the session behind
the left side, and the call the one behind both. Two functions of one operator are the same in every
respect. -/
theorem operators_are_functions (w : Setting) (hw : w.functions = .standard) (op : BinaryOp)
    (name : String) (hname : Text.toUpper name ∈ op.functionNames) (l r : Expr) (s : Session) :
    (op.Suits (Session.evaluate w l s).1
        (Session.evaluate w r (Session.evaluate w l s).2).1 →
      (Session.evaluate w (.binary op l r) s).1 =
          (Session.evaluate w (.call name [l, r]) s).1 ∧
        ((∀ e, (Session.evaluate w l s).1 ≠ .error e) →
          Session.evaluate w (.binary op l r) s = Session.evaluate w (.call name [l, r]) s)) ∧
    (∀ e, (Session.evaluate w l s).1 = .error e →
      Session.evaluate w (.binary op l r) s = (.error e, (Session.evaluate w l s).2) ∧
      Session.evaluate w (.call name [l, r]) s =
        (.error e, (Session.evaluate w r (Session.evaluate w l s).2).2)) ∧
    ∀ name', Text.toUpper name' ∈ op.functionNames →
      Session.evaluate w (.call name' [l, r]) s = Session.evaluate w (.call name [l, r]) s := by
  have hcall : ∀ e, (Session.evaluate w l s).1 = .error e →
      Session.evaluate w (.call name [l, r]) s =
        (.error e, (Session.evaluate w r (Session.evaluate w l s).2).2) := by
    intro e he
    rw [Session.evaluate_call_of_mem_functionNames hw hname, he, BinaryOp.applyFunction_of_error]
  have hsame : op.Suits (Session.evaluate w l s).1
        (Session.evaluate w r (Session.evaluate w l s).2).1 →
      (∀ e, (Session.evaluate w l s).1 ≠ .error e) →
      Session.evaluate w (.binary op l r) s = Session.evaluate w (.call name [l, r]) s := by
    intro hsuits hleft
    rw [Session.evaluate_call_of_mem_functionNames hw hname,
      Session.evaluate_binary_of_ne_error op r hleft, BinaryOp.apply_eq_applyFunction op _ hsuits]
  refine ⟨fun hsuits => ⟨?_, hsame hsuits⟩, fun e he => ⟨?_, hcall e he⟩, fun name' hname' => ?_⟩
  · by_cases hleft : ∃ e, (Session.evaluate w l s).1 = .error e
    · obtain ⟨e, he⟩ := hleft
      rw [Session.evaluate_binary_of_error op r he, hcall e he]
    · rw [hsame hsuits fun e he => hleft ⟨e, he⟩]
  · exact Session.evaluate_binary_of_error op r he
  · rw [Session.evaluate_call_of_mem_functionNames hw hname',
      Session.evaluate_call_of_mem_functionNames hw hname]

namespace Joining

/-- The standard functions over an empty grid. -/
def setting : Setting :=
  ⟨fun _ => none, .standard, {}⟩

/-- The text `a` in a list of one list. -/
def nested : Expr :=
  .literal (.array [.array [.text "a"]])

/-- A cell outside the grid, which is an error. -/
def outside : Expr :=
  .cell ⟨⟨0, 0⟩, false, false⟩

end Joining

open Joining in
/-- `&` joins a text out of two lists with an error, and `CONCATENATE` does the same; the session
shows in both that the cell was read. Behind the error `^` leaves its right side alone. -/
theorem operators_are_functions_joining :
    Session.evaluate setting (.binary .concat nested outside) {} =
        Session.evaluate setting (.call "Concatenate" [nested, outside]) {} ∧
      (Session.evaluate setting (.binary .power outside outside) {}).2.lookups.length = 1 ∧
      (Session.evaluate setting (.call "power" [outside, outside]) {}).2.lookups.length = 2 ∧
      (Session.evaluate setting (.binary .power outside outside) {}).1 = .error .ref := by
  obtain ⟨hsame, -, -⟩ := operators_are_functions setting rfl .concat "Concatenate"
    (by decide +kernel) nested outside {}
  obtain ⟨-, herror, -⟩ := operators_are_functions setting rfl .power "power"
    (by decide +kernel) outside outside {}
  obtain ⟨hoperator, hfunction⟩ := herror .ref rfl
  refine ⟨(hsame fun _ => ⟨rfl, rfl⟩).2 nofun, ?_, ?_, ?_⟩
  · rw [hoperator]
    rfl
  · rw [hfunction]
    rfl
  · rw [hoperator]

end Spreadsheet
