import Spreadsheet.Proofs.Entries
import Spreadsheet.Proofs.Lockstep

/-!
# Calls without errors

All operations are strict, so a call whose answer has no error only makes calls whose answers have
none either. Nothing is left out on the way: both sides of an operator are computed, all arguments
of a function and all cells of a range. And no guard stops a cell: it is entered, or it is
remembered already.

Results:
1. `Call.evaluate_clean`, `Call.range_clean`: the calls of an expression and of a range;
2. `Call.cell_clean_of_admits`, `Call.cell_clean_of_not_admits`: the call of a cell.
-/

namespace Spreadsheet

open Value Formula

variable {w : Setting} {s : Session} {a : Address}

/-! ## What is asked for -/

namespace Call

/-- The call is answered without an error. -/
def Clean (w : Setting) : Call → Session → Prop
  | evaluate e, s => (Session.evaluate w e s).1.fault? = none
  | cell a, s => (Session.cellValue w a s).1.fault? = none
  | range maxCells first last, s =>
    ∃ vs, (Session.resolveRange w maxCells first last s).1 = .ok vs ∧ firstError? vs = none

/-- The cells that a call asks for. -/
def reads : Call → List Address
  | evaluate e => e.cells
  | cell a => [a]
  | range _ first last => (Area.ofCorners first.address last.address).cells

/-- If no value that is read one after the other has an error, then no call for it has. -/
theorem clean_of_mapM {β : Type} {f : β → Eval Value} {c : β → Call} {room : Nat}
    (hf : ∀ b s, s.room w = room →
      (f b s).2 = (c b).run w s ∧ ((f b s).1.fault? = none → (c b).Clean w s))
    (bs : List β) (h : s.Valid w) (hroom : s.room w = room)
    (hclean : firstError? (bs.mapM f s).1 = none) :
    ∀ q ∈ inTurn w (bs.map c) s, q.1.Clean w q.2 := by
  induction bs generalizing s with
  | nil => exact nofun
  | cons b bs ih =>
    obtain ⟨hsession, hvalue⟩ := hf b s hroom
    obtain ⟨hvalid, hrestored⟩ := run_keeps h (c b)
    have hlist : (List.mapM f (b :: bs) s).1 = (f b s).1 :: (bs.mapM f ((c b).run w s)).1 := by
      rw [List.mapM_cons, ← hsession]
      rfl
    rw [hlist, firstError?_cons, Option.or_eq_none_iff] at hclean
    refine List.forall_mem_cons.mpr ⟨hvalue hclean.1, ?_⟩
    exact ih hvalid ((hrestored.room_eq w).trans hroom) hclean.2

/-! ## Ranges and expressions -/

/-- A range without errors reads all its cells. -/
theorem range_clean (h : s.Valid w) {maxCells : Nat} {first last : Reference}
    (hclean : (range maxCells first last).Clean w s) :
    (∀ q ∈ inTurn w ((range maxCells first last).calls w s) s, q.1.Clean w q.2) ∧
      ((range maxCells first last).calls w s).flatMap reads =
        (range maxCells first last).reads := by
  obtain ⟨vs, hvs, hnone⟩ := hclean
  have hresolve : (resolve maxCells (Cell.value w (s.room w)) first last s).1 = .ok vs := hvs
  rw [resolve_eq] at hresolve
  rw [calls]
  split at hresolve
  · cases hresolve
  · next hsize =>
    have hcells : ((Area.ofCorners first.address last.address).cells.mapM
        (Cell.value w (s.room w)) s).1 = vs := Except.ok.inj hresolve
    have hread : ∀ b s', s'.room w = s.room w → (Cell.value w (s.room w) b s').2 =
        (cell b).run w s' ∧ ((Cell.value w (s.room w) b s').1.fault? = none →
          (cell b).Clean w s') := by
      intro b s' hroom
      rw [Session.value_eq_cellValue hroom]
      exact ⟨rfl, id⟩
    simp only [if_neg hsize]
    refine ⟨clean_of_mapM (c := .cell) hread _ h rfl (hcells ▸ hnone), ?_⟩
    rw [List.flatMap_map]
    exact List.flatMap_singleton' _

/-- The right side of an operator is computed unless the left one is an error. -/
theorem afterLeft_clean {op : BinaryOp} {a : Value} {right : Eval Value}
    (h : (Expr.afterLeft w op a right s).1.fault? = none) :
    a.fault? = none ∧ (right s).1.fault? = none := by
  have hboth : ∀ b, (op.apply w.limits a b).fault? = none → a.fault? = none ∧ b.fault? = none := by
    intro b hb
    have hnone := eq_none_of_fault?_eq_none (op.apply_strict w.limits a b) hb
    simpa [firstError?_cons, firstError?_nil] using hnone
  cases a with
  | error x => exact nomatch h
  | _ => exact hboth _ h

/-- An expression without errors reads all cells that it names. -/
theorem evaluate_clean (hw : w.functions.Strict) (h : s.Valid w) {e : Expr}
    (hclean : (evaluate e).Clean w s) :
    (∀ q ∈ inTurn w (e.calls w s) s, q.1.Clean w q.2) ∧
      (e.calls w s).flatMap reads = e.cells := by
  have hpart : ∀ e s', s'.room w = s.room w →
      (e.value w (Cell.value w (s.room w)) s').2 = (evaluate e).run w s' ∧
        ((e.value w (Cell.value w (s.room w)) s').1.fault? = none → (evaluate e).Clean w s') := by
    intro e s' hroom
    rw [Session.value_eq_evaluate hroom]
    exact ⟨rfl, id⟩
  have hvalue : (e.value w (Cell.value w (s.room w)) s).1.fault? = none := hclean
  cases e with
  | literal v => exact ⟨fun _ hq => absurd hq List.not_mem_nil, rfl⟩
  | cell r => exact ⟨List.forall_mem_singleton.mpr hclean, rfl⟩
  | range r =>
    rw [Expr.value_range] at hvalue
    split at hvalue
    · cases hvalue
    · next hsize =>
      have hnone : firstError? (r.area.cells.mapM (Cell.value w (s.room w)) s).1 = none :=
        (fault?_array _).symm.trans hvalue
      have hresolve : (resolve w.limits.maxRangeCells (Cell.value w (s.room w)) r.first r.last
          s).1 = .ok (r.area.cells.mapM (Cell.value w (s.room w)) s).1 := by
        have hsize' : ¬w.limits.maxRangeCells <
            (Area.ofCorners r.first.address r.last.address).size := hsize
        rw [resolve_eq, if_neg hsize']
        rfl
      refine ⟨List.forall_mem_singleton.mpr ⟨_, hresolve, hnone⟩, ?_⟩
      rw [Expr.cells_range]
      exact List.append_nil _
  | unary op e =>
    rw [Expr.value_unary] at hvalue
    have hnone : (e.value w (Cell.value w (s.room w)) s).1.fault? = none :=
      eq_none_of_fault?_eq_none (fun x hx => op.apply_of_fault hx) hvalue
    refine ⟨List.forall_mem_singleton.mpr hnone, ?_⟩
    rw [Expr.cells_unary]
    exact List.append_nil _
  | binary op l r =>
    rw [Expr.value_binary] at hvalue
    obtain ⟨hleft, hnone⟩ := afterLeft_clean hvalue
    have hright : (evaluate r).Clean w ((evaluate l).run w s) :=
      (hpart r _ ((run_keeps h (evaluate l)).2.room_eq w)).2 hnone
    have hcalls : (Expr.binary op l r).calls w s = [.evaluate l, .evaluate r] := by
      rw [Expr.calls]
      split
      · next x hx => exact absurd hx (ne_error_of_fault?_eq_none hleft x)
      · rfl
    rw [hcalls]
    refine ⟨List.forall_mem_cons.mpr ⟨hleft, List.forall_mem_singleton.mpr hright⟩, ?_⟩
    simp [reads, Expr.cells, Expr.references]
  | call name args =>
    rw [Expr.value_call] at hvalue
    rw [Expr.calls]
    cases hfind : w.functions.find? name with
    | none =>
      rw [hfind] at hvalue
      cases hvalue
    | some d =>
      rw [hfind] at hvalue
      dsimp only at hvalue ⊢
      split at hvalue
      · next haccepts =>
        rw [if_pos haccepts]
        have hlength := length_mapM_state (Expr.value w (Cell.value w (s.room w))) args s
        have hnone : firstError? (args.mapM (Expr.value w (Cell.value w (s.room w))) s).1 = none :=
          eq_none_of_fault?_eq_none
            (fun x hx => hw name d hfind w.limits _ x (hlength ▸ haccepts) hx) hvalue
        refine ⟨clean_of_mapM (c := .evaluate) hpart args h rfl hnone, ?_⟩
        simp [reads, Expr.cells, Expr.references, Expr.referencesOf_eq, List.flatMap_assoc,
          List.flatMap_map]
      · cases hvalue

/-! ## Cells -/

/-- A formula cell without errors that is entered evaluates the expression that it holds, without
errors too, and may be remembered. -/
theorem cell_clean_of_admits (hform : w.IsFormula a) (h : s.Admits w a)
    (hclean : (cell a).Clean w s) : ∃ e v, w.Holds a e ∧ Session.Lasting v ∧
      (evaluate e).Clean w ((cell a).inner s) ∧ (cell a).calls w s = [.evaluate e] ∧
      (cell a).run w s = (((evaluate e).run w ((cell a).inner s)).leave a).remember a v := by
  obtain ⟨source, hg⟩ := hform
  have hcalls : (cell a).calls w s = _ := Cell.calls_of_admits hg h
  have hvalue : (Session.cellValue w a s).1.fault? = none := hclean
  rw [Session.cellValue_of_admits hg h, Cell.compute_apply] at hvalue
  rw [run, Session.cellValue_of_admits hg h, Cell.compute_apply]
  cases he : Expr.ofText w.limits.maxNesting source with
  | error x =>
    rw [Cell.formulaValue_of_error he] at hvalue
    cases hvalue
  | ok e =>
    rw [Cell.formulaValue_of_ok he] at hvalue ⊢
    rw [he] at hcalls
    refine ⟨e, _, ⟨source, hg, he⟩, Session.lasting_of_fault?_eq_none hvalue, ?_, hcalls, rfl⟩
    exact fault?_of_fault?_finalize hvalue

/-- Any other formula cell without errors is remembered already. -/
theorem cell_clean_of_not_admits (hform : w.IsFormula a) (h : ¬s.Admits w a)
    (hclean : (cell a).Clean w s) : s.memo[a]? ≠ none := by
  obtain ⟨v, hvalue, hm | ⟨x, rfl⟩⟩ := Session.cellValue_of_not_admits hform h
  · rw [hm]
    exact nofun
  · rw [Clean, hvalue] at hclean
    exact nomatch hclean

end Call

end Spreadsheet
