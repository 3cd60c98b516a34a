import Spreadsheet.Proofs.Ample
import Spreadsheet.Proofs.Invariant

/-!
# Every call of an evaluation

An evaluation is a tree of calls: an expression calls for its parts, its cells and its ranges, a
range calls for its cells, and a cell that passes its guards calls for the expression it holds. The
calls that one call makes are listed here, each with the session in which it starts, so that a
statement about sessions can be made of every call and every return, however deep in an evaluation.

Results:
1. `Call.made_valid`, `Call.Within.valid`: calls start in valid sessions, one during another;
2. `Call.evaluate_run_eq_runAll`, `Call.range_run_eq_runAll`, `Call.cell_run_of_admits`: between the
   calls it makes a call does nothing to the session but enter and leave its cell, so the list of
   these calls is complete;
3. `every_call_keeps_sessions_valid`: in the whole life of a session calls start and return in valid
   sessions, and return with the way as it was.
-/

namespace Spreadsheet

open Formula

variable {w : Setting} {s s' : Session}

/-! ## Calls -/

/-- A call of one of the three functions that evaluate. -/
inductive Call where
  | evaluate (e : Expr)
  | cell (a : Address)
  | range (maxCells : Nat) (first last : Reference)

/-- The calls that an expression makes, in this order. -/
def Formula.Expr.calls (w : Setting) (s : Session) : Expr → List Call
  | .literal _ => []
  | .cell r => [.cell r.address]
  | .range r => [.range w.limits.maxRangeCells r.first r.last]
  | .unary _ e => [.evaluate e]
  | .binary _ l r =>
    match (Session.evaluate w l s).1 with
    | .error _ => [.evaluate l]
    | _ => [.evaluate l, .evaluate r]
  | .call name args =>
    match w.functions.find? name with
    | none => []
    | some d => if d.accepts args.length then args.map .evaluate else []

/-- No guard stops the cell. -/
def Session.Admits (w : Setting) (s : Session) (a : Address) : Prop :=
  s.memo[a]?.isNone ∧ a ∉ s.visiting ∧ s.depth < w.limits.maxDepth ∧
    s.evaluations < w.limits.maxEvaluations

instance (w : Setting) (s : Session) (a : Address) : Decidable (s.Admits w a) :=
  inferInstanceAs (Decidable (_ ∧ _))

namespace Session

variable {a : Address}

/-- A cell that no guard stops goes on the way. -/
theorem Valid.enter_of_admits (hs : s.Valid w) (h : s.Admits w a) :
    ((s.looked a).enter a).Valid w := by
  obtain ⟨hm, hv, hd, hb⟩ := h
  exact hs.looked.enter (Option.isNone_iff_eq_none.mp hm) hv hd hb

theorem room_of_admits (h : s.Admits w a) :
    s.room w = ((s.looked a).enter a).room w + 1 := by
  have hdepth : s.depth < w.limits.maxDepth := h.2.2.1
  rw [room, room, enter_depth, looked_depth]
  omega

/-- A formula cell that no guard stops is computed with the cell on the way. -/
theorem cellValue_of_admits {source : String} (hg : w.grid a = some (.formula source))
    (h : s.Admits w a) : cellValue w a s =
      Cell.compute w (Cell.value w (((s.looked a).enter a).room w)) a source (s.looked a) := by
  have hroom : s.room w = ((s.looked a).enter a).room w + 1 := room_of_admits h
  obtain ⟨hm, hv, hd, hb⟩ := h
  have hm' : (s.looked a).memo[a]? = none := Option.isNone_iff_eq_none.mp hm
  rw [cellValue, hroom, Cell.value, Cell.valueWith_of_formula hg]
  exact Cell.guarded_eq_compute hm' hv hb

/-- Any other formula cell is remembered, or it is an error. -/
theorem cellValue_of_not_admits (hform : w.IsFormula a) (h : ¬s.Admits w a) :
    ∃ v, cellValue w a s = (v, s.looked a) ∧ (s.memo[a]? = some v ∨ ∃ x, v = .error x) := by
  obtain ⟨source, hg⟩ := hform
  obtain ⟨deeper, hvalue, hread⟩ := Cell.value_eq_valueWith w (s.room w)
  have hspec := Cell.guarded_spec w deeper a source (s.looked a)
  rw [cellValue, hvalue, Cell.valueWith_of_formula hg]
  generalize Cell.guarded w deeper a source (s.looked a) = r at hspec ⊢
  cases hspec with
  | remembered hm => exact ⟨_, rfl, .inl hm⟩
  | cycle => exact ⟨_, rfl, .inr ⟨_, rfl⟩⟩
  | depth => exact ⟨_, rfl, .inr ⟨_, rfl⟩⟩
  | budget => exact ⟨_, rfl, .inr ⟨_, rfl⟩⟩
  | computed hm hv hd hb =>
    obtain ⟨n, hroom, -⟩ := hread _ hd
    exact absurd ⟨Option.isNone_iff_eq_none.mpr hm, hv, Nat.lt_of_sub_eq_succ hroom, hb⟩ h

/-- With the room that is left here, cells are read and expressions evaluated as from outside. -/
theorem value_eq_cellValue {room : Nat} (h : s.room w = room) (a : Address) :
    Cell.value w room a s = cellValue w a s := by
  rw [cellValue, h]

theorem value_eq_evaluate {room : Nat} (h : s.room w = room) (e : Expr) :
    e.value w (Cell.value w room) s = evaluate w e s := by
  rw [evaluate, h]

end Session

/-- The call that a cell makes, if no guard stops it. -/
def Cell.calls (w : Setting) (s : Session) (a : Address) : List Call :=
  match w.grid a with
  | some (.formula source) =>
    if s.Admits w a then
      match Expr.ofText w.limits.maxNesting source with
      | .ok e => [.evaluate e]
      | .error _ => []
    else []
  | _ => []

theorem Cell.calls_of_not_admits {a : Address} (h : ¬s.Admits w a) : Cell.calls w s a = [] := by
  unfold Cell.calls
  split
  · rw [if_neg h]
  · rfl

theorem Cell.calls_of_admits {a : Address} {source : String}
    (hg : w.grid a = some (.formula source)) (h : s.Admits w a) : Cell.calls w s a =
      match Expr.ofText w.limits.maxNesting source with
      | .ok e => [.evaluate e]
      | .error _ => [] := by
  simp only [Cell.calls, hg, if_pos h]

namespace Call

/-- The session in which a call returns. A call deep in an evaluation is the same function as one
from outside, since the room that the recursion hands on is the room that is left there. -/
def run (w : Setting) : Call → Session → Session
  | evaluate e, s => (Session.evaluate w e s).2
  | cell a, s => (Session.cellValue w a s).2
  | range maxCells first last, s => (Session.resolveRange w maxCells first last s).2

/-- The calls that a call makes, in this order. -/
def calls (w : Setting) (s : Session) : Call → List Call
  | evaluate e => e.calls w s
  | cell a => Cell.calls w s a
  | range maxCells first last =>
    let area := Area.ofCorners first.address last.address
    if maxCells < area.size then [] else area.cells.map .cell

/-- The session in which a call makes the first of its calls. A cell is on the way by then. -/
def inner (s : Session) : Call → Session
  | cell a => (s.looked a).enter a
  | _ => s

/-- Calls that are made in turn, each with the session in which it starts. -/
def inTurn (w : Setting) : List Call → Session → List (Call × Session)
  | [], _ => []
  | c :: cs, s => (c, s) :: inTurn w cs (c.run w s)

/-- The session behind calls that are made in turn. -/
def runAll (w : Setting) (cs : List Call) (s : Session) : Session :=
  cs.foldl (fun s c => c.run w s) s

/-- The calls that a call makes, each with the session in which it starts. -/
def made (w : Setting) (p : Call × Session) : List (Call × Session) :=
  inTurn w (p.1.calls w p.2) (p.1.inner p.2)

/-- One call is made during another one, at any depth. -/
def Within (w : Setting) : Call × Session → Call × Session → Prop :=
  Relation.ReflTransGen fun p q => q ∈ made w p

/-! ## Valid sessions -/

/-- A call that starts in a valid session returns in one, with the way as it was. -/
theorem run_keeps (h : s.Valid w) (c : Call) : (c.run w s).Valid w ∧ s.Restored (c.run w s) := by
  cases c with
  | evaluate e => exact Session.evaluate_keeps h e
  | cell a => exact Session.cellValue_keeps h a
  | range maxCells first last => exact Session.resolveRange_keeps h maxCells first last

theorem inTurn_valid (h : s.Valid w) {cs : List Call} {p : Call × Session}
    (hp : p ∈ inTurn w cs s) : p.2.Valid w := by
  induction cs generalizing s with
  | nil => exact nomatch hp
  | cons c cs ih =>
    rcases List.mem_cons.mp hp with rfl | hp
    · exact h
    · exact ih (run_keeps h c).1 hp

/-- A cell that makes a call has passed all guards. -/
theorem inner_valid (h : s.Valid w) {c : Call} (hc : c.calls w s ≠ []) : (c.inner s).Valid w := by
  cases c with
  | evaluate e => exact h
  | range maxCells first last => exact h
  | cell a =>
    by_cases hadmits : s.Admits w a
    · exact h.enter_of_admits hadmits
    · exact absurd (Cell.calls_of_not_admits hadmits) hc

/-- The calls of a call that starts in a valid session start in valid sessions. -/
theorem made_valid {p q : Call × Session} (h : p.2.Valid w) (hq : q ∈ made w p) : q.2.Valid w := by
  refine inTurn_valid (inner_valid h fun hnone => ?_) hq
  rw [made, hnone] at hq
  exact nomatch hq

theorem Within.valid {p q : Call × Session} (hq : Within w p q) (h : p.2.Valid w) :
    q.2.Valid w := by
  induction hq with
  | refl => exact h
  | tail _ hmade ih => exact made_valid ih hmade

/-! ## No call is missing -/

/-- What is read one after the other leaves the session as the calls for it do. -/
theorem mapM_eq_runAll {α β : Type} {f : β → Eval α} {c : β → Call} {room : Nat}
    (hf : ∀ b s, s.room w = room → (f b s).2 = (c b).run w s) (bs : List β) (h : s.Valid w)
    (hroom : s.room w = room) : (bs.mapM f s).2 = runAll w (bs.map c) s := by
  induction bs generalizing s with
  | nil => rfl
  | cons b bs ih =>
    obtain ⟨hvalid, hrestored⟩ := run_keeps h (c b)
    rw [List.mapM_cons]
    show (bs.mapM f (f b s).2).2 = runAll w (bs.map c) ((c b).run w s)
    rw [hf b s hroom]
    exact ih hvalid ((hrestored.room_eq w).trans hroom)

theorem range_run_eq_runAll (h : s.Valid w) (maxCells : Nat) (first last : Reference) :
    (range maxCells first last).run w s = runAll w ((range maxCells first last).calls w s) s := by
  show (resolve maxCells (Cell.value w (s.room w)) first last s).2 = _
  rw [resolve_eq, calls]
  split
  · rfl
  · refine mapM_eq_runAll (c := .cell) (fun a s' hroom => ?_) _ h rfl
    rw [Session.value_eq_cellValue hroom]
    rfl

theorem evaluate_run_eq_runAll (h : s.Valid w) (e : Expr) :
    (evaluate e).run w s = runAll w (e.calls w s) s := by
  have hread : ∀ e s', s'.room w = s.room w →
      (e.value w (Cell.value w (s.room w)) s').2 = (evaluate e).run w s' := by
    intro e s' hroom
    rw [Session.value_eq_evaluate hroom]
    rfl
  show (e.value w (Cell.value w (s.room w)) s).2 = _
  cases e with
  | literal v => rfl
  | cell r => rfl
  | range r =>
    show _ = (resolve w.limits.maxRangeCells (Cell.value w (s.room w)) r.first r.last s).2
    rw [Expr.value_range, resolve_eq, RangeRef.area]
    split <;> rfl
  | unary op e =>
    rw [Expr.value_unary]
    rfl
  | binary op l r =>
    have hroom := (run_keeps h (evaluate l)).2.room_eq w
    rw [Expr.value_binary]
    show (Expr.afterLeft w op (Session.evaluate w l s).1 (r.value w (Cell.value w (s.room w)))
      ((evaluate l).run w s)).2 = _
    rw [Expr.calls]
    cases (Session.evaluate w l s).1 with
    | error x => rfl
    | _ => exact hread r _ hroom
  | call name args =>
    rw [Expr.value_call, Expr.calls]
    cases w.functions.find? name with
    | none => rfl
    | some d =>
      dsimp only
      split
      · exact mapM_eq_runAll hread args h rfl
      · rfl

theorem formulaValue_run_eq_runAll (source : String) {room : Nat} (hroom : s.room w = room) :
    (Cell.formulaValue w (Cell.value w room) source s).2 =
      runAll w (match Expr.ofText w.limits.maxNesting source with
        | .ok e => [evaluate e]
        | .error _ => []) s := by
  subst hroom
  cases he : Expr.ofText w.limits.maxNesting source with
  | error x =>
    rw [Cell.formulaValue_of_error he]
    rfl
  | ok e =>
    rw [Cell.formulaValue_of_ok he]
    rfl

variable {a : Address}

/-- A formula cell that no guard stops is entered, makes its calls, leaves the way and is
remembered. -/
theorem cell_run_of_admits (hform : w.IsFormula a) (h : s.Admits w a) : ∃ v, (cell a).run w s =
    ((runAll w ((cell a).calls w s) ((cell a).inner s)).leave a).remember a v := by
  obtain ⟨source, hg⟩ := hform
  have hcalls : (cell a).calls w s =
      match Expr.ofText w.limits.maxNesting source with
      | .ok e => [evaluate e]
      | .error _ => [] := Cell.calls_of_admits hg h
  rw [run, Session.cellValue_of_admits hg h, Cell.compute_apply, hcalls,
    formulaValue_run_eq_runAll source rfl]
  exact ⟨_, rfl⟩

/-- Any other cell is only looked at. -/
theorem cell_run_of_not_admits (h : w.IsFormula a → ¬s.Admits w a) :
    (cell a).run w s = s.looked a := by
  by_cases hform : w.IsFormula a
  · obtain ⟨v, hvalue, -⟩ := Session.cellValue_of_not_admits hform (h hform)
    rw [run, hvalue]
  · show (Cell.value w (s.room w) a s).2 = _
    rw [Cell.value_of_not_isFormula _ hform fun _ => .empty]

end Call

/-! ## The life of a session -/

/-- The call that a step makes from outside. -/
def Step.calls : Step → List Call
  | .question (.cell a) | .start a => [.cell a]
  | .question (.expression e) | .formula e => [.evaluate e]
  | .range maxCells first last => [.range maxCells first last]
  | .reset => []

/-- A step leaves the session as its call does, or anew. -/
theorem Step.run_eq_runAll (step : Step) (s : Session) :
    step.run w s = Call.runAll w step.calls s ∨
      step.run w s = (Call.runAll w step.calls s).reset := by
  cases step with
  | question q => cases q <;> exact .inl rfl
  | range => exact .inl rfl
  | formula => exact .inr rfl
  | start => exact .inr rfl
  | reset => exact .inr rfl

theorem Call.runAll_valid (h : s.Valid w) (cs : List Call) : (runAll w cs s).Valid w := by
  induction cs generalizing s with
  | nil => exact h
  | cons c cs ih => exact ih (run_keeps h c).1

theorem Step.run_valid (h : s.Valid w) (step : Step) : (step.run w s).Valid w := by
  rcases step.run_eq_runAll s with hrun | hrun
  · rw [hrun]
    exact Call.runAll_valid h step.calls
  · rw [hrun]
    exact Session.valid_reset w _

theorem foldl_run_valid (h : s.Valid w) (steps : List Step) :
    (steps.foldl (Step.run w) s).Valid w := by
  induction steps generalizing s with
  | nil => exact h
  | cons step steps ih => exact ih (step.run_valid h)

theorem after_valid (w : Setting) (steps : List Step) : (Session.after w steps).Valid w :=
  foldl_run_valid (Session.valid_reset w {}) steps

/-- A session is valid whenever a call starts or returns, however deep in an evaluation and whatever
was asked before; and every call leaves the way and everything that is remembered as it was. -/
theorem every_call_keeps_sessions_valid (w : Setting) (steps : List Step) (step : Step) :
    (Session.after w steps).Valid w ∧
    ∀ c ∈ step.calls, ∀ c' s', Call.Within w (c, Session.after w steps) (c', s') →
      s'.Valid w ∧ (c'.run w s').Valid w ∧ s'.Restored (c'.run w s') := by
  have hstart : (Session.after w steps).Valid w := after_valid w steps
  refine ⟨hstart, fun c _ c' s' hwithin => ?_⟩
  have hvalid : s'.Valid w := hwithin.valid hstart
  obtain ⟨hreturn, hrestored⟩ := Call.run_keeps hvalid c'
  exact ⟨hvalid, hreturn, hrestored⟩

namespace SharedCell

/-- The session in which the formula of `A1` is evaluated. -/
def inside : Session :=
  (Session.looked a1 {}).enter a1

/-- The session in which it asks for `C1`, which was evaluated for `B1` by then. -/
def again : Session :=
  (Call.evaluate (.cell ⟨b1, false, false⟩)).run setting inside

theorem admits_a1 : ({} : Session).Admits setting a1 :=
  ⟨by simp, by simp, by decide, by decide⟩

theorem value_b1 : (Session.evaluate setting (.cell ⟨b1, false, false⟩) inside).1 = .int 5 := by
  have hnames : setting.Names a1 b1 :=
    ⟨difference, holds_a1, List.mem_cons_self, holds_b1.isFormula⟩
  have hinside : setting.Progress a1 [a1] inside :=
    (progress_start setting a1).looked.enter ⟨holds_a1.isFormula, .refl⟩ (by simp)
      List.not_mem_nil
  have hread := Cell.value_together_plain (Engine.standard_strict limits content) 2
    (within a1 b1 hnames) (fun _ => .single hnames)
    (Setting.leadsTo_nil.of_mem_cells holds_a1 List.mem_cons_self) (fewFrom a1)
  exact (hread.agree inside () hinside id).1.trans plainValue_b1

theorem within_difference :
    Call.Within setting (.cell a1, {}) (.evaluate difference, inside) := by
  obtain ⟨source, hg, he⟩ := holds_a1
  have hcalls : Cell.calls setting {} a1 = [.evaluate difference] := by
    rw [Cell.calls_of_admits hg admits_a1, he]
  refine .single ?_
  show _ ∈ Call.inTurn setting (Cell.calls setting {} a1) inside
  rw [hcalls]
  exact List.mem_cons_self

theorem made_difference : Call.made setting (.evaluate difference, inside) =
    [(.evaluate (.cell ⟨b1, false, false⟩), inside),
      (.evaluate (.cell ⟨c1, false, false⟩), again)] := by
  show Call.inTurn setting (difference.calls setting inside) inside = _
  rw [difference, Expr.calls, value_b1]
  rfl

theorem within_b1 :
    Call.Within setting (.cell a1, {}) (.evaluate (.cell ⟨b1, false, false⟩), inside) := by
  refine within_difference.tail ?_
  rw [made_difference]
  exact List.mem_cons_self

theorem within_c1 : Call.Within setting (.cell a1, {}) (.cell c1, again) := by
  have hreference : Call.Within setting (.cell a1, {})
      (.evaluate (.cell ⟨c1, false, false⟩), again) := by
    refine within_difference.tail ?_
    rw [made_difference]
    exact List.mem_cons_of_mem _ List.mem_cons_self
  exact hreference.tail List.mem_cons_self

end SharedCell

open SharedCell in
/-- Deep in the evaluation of `A1`, behind the evaluation of `B1`. -/
theorem every_call_keeps_sessions_valid_shared_cell :
    Call.Within setting (.cell a1, {}) (.cell c1, again) ∧ again.Valid setting ∧
      inside.Restored again ∧ again.Restored ((Call.cell c1).run setting again) := by
  obtain ⟨-, hcalls⟩ := every_call_keeps_sessions_valid setting [] (.start a1)
  obtain ⟨-, -, hinside⟩ := hcalls _ List.mem_cons_self _ _ within_b1
  obtain ⟨hvalid, -, hagain⟩ := hcalls _ List.mem_cons_self _ _ within_c1
  exact ⟨within_c1, hvalid, hinside, hagain⟩

end Spreadsheet
