import Mathlib.Data.List.Chain
import Mathlib.Data.List.Nodup
import Spreadsheet.Proofs.Ample
import Spreadsheet.Proofs.FirstError

/-!
# No false alarms

The error of a guard tells the truth about the names on the grid. A cycle's error means that a cycle
can be reached, the error of the limit on depth that a way of more cells than allowed leads on from
the start, and the error of the limit on evaluations that more formula cells can be reached than may
be evaluated.

A guard's error is never remembered before it is the answer, because the first error that a formula
meets is its value. So it is enough to look at the first guard that stops anything. Until then no
formula was worth an error, every formula that is done is remembered, and no cell was entered twice:
the counter of evaluations counts different cells.

Results:
1. `WayFrom.circular`, `WayFrom.justifies_depth`, `Unfailed.justifies_calc`: what is true where a
   guard stops a cell;
2. `Cell.value_justified`: the first error that a cell is read with is justified;
3. `guard_errors_are_no_false_alarms`: so is the error that is the answer.
-/

namespace Spreadsheet

open Value Formula

namespace Setting

variable {w : Setting} {roots way : List Address} {a b : Address} {s : Session}

/-! ## Ways from the start -/

/-- Formula cells of which each is named by the one before, from one of the roots on, the latest
first. -/
inductive WayFrom (w : Setting) (roots : List Address) : List Address → Prop where
  | root {a : Address} (ha : a ∈ roots) (hform : w.IsFormula a) : WayFrom w roots [a]
  | step {a b : Address} {way : List Address} (h : WayFrom w roots (a :: way))
      (hab : w.Names a b) : WayFrom w roots (b :: a :: way)

/-- A formula cell that can be reached from one of the roots. -/
def FormulaFromAny (w : Setting) (roots : List Address) (a : Address) : Prop :=
  ∃ r ∈ roots, w.FormulaFrom r a

theorem WayFrom.formulaFromAny (h : w.WayFrom roots (a :: way)) : w.FormulaFromAny roots a := by
  generalize hpath : a :: way = path at h
  induction h generalizing a way with
  | root ha hform =>
    cases hpath
    exact ⟨_, ha, hform, .refl⟩
  | step _ hab ih =>
    cases hpath
    obtain ⟨r, hr, -, hreach⟩ := ih rfl
    exact ⟨r, hr, hab.isFormula_right, hreach.tail hab⟩

/-- A cell on the way leads to the last one. -/
theorem WayFrom.transGen (h : w.WayFrom roots (b :: way)) (ha : a ∈ way) :
    Relation.TransGen w.Names a b := by
  generalize hpath : b :: way = path at h
  induction h generalizing b way with
  | root =>
    cases hpath
    exact nomatch ha
  | step h hab ih =>
    cases hpath
    rcases List.mem_cons.mp ha with rfl | ha
    · exact .single hab
    · exact (ih ha rfl).tail hab

/-- A way that comes back to one of its cells shows a cycle. -/
theorem WayFrom.circular (h : w.WayFrom roots (a :: way)) (ha : a ∈ way) :
    ∃ r ∈ roots, w.Circular r := by
  obtain ⟨r, hr, -, hreach⟩ := h.formulaFromAny
  exact ⟨r, hr, a, hreach, h.transGen ha⟩

theorem WayFrom.isFormula (h : w.WayFrom roots way) (ha : a ∈ way) : w.IsFormula a := by
  induction h with
  | root _ hform => exact List.mem_singleton.mp ha ▸ hform
  | step _ hab ih =>
    rcases List.mem_cons.mp ha with rfl | ha
    · exact hab.isFormula_right
    · exact ih ha

theorem WayFrom.isChain (h : w.WayFrom roots way) : way.IsChain fun b a => w.Names a b := by
  induction h with
  | root => exact .singleton _
  | step _ hab ih => exact .cons_cons hab ih

theorem WayFrom.getLast_mem (h : w.WayFrom roots way) : ∃ r ∈ roots, way.getLast? = some r := by
  induction h with
  | @root a ha _ => exact ⟨a, ha, rfl⟩
  | step _ _ ih => exact ih

/-- From the start on, a way is a path of names. -/
theorem WayFrom.path (h : w.WayFrom roots way) :
    (∃ r ∈ roots, way.reverse.head? = some r) ∧ way.reverse.IsChain w.Names ∧
      ∀ c ∈ way.reverse, w.IsFormula c := by
  refine ⟨?_, ?_, fun c hc => h.isFormula (List.mem_reverse.mp hc)⟩
  · rw [List.head?_reverse]
    exact h.getLast_mem
  · exact List.isChain_reverse.mpr h.isChain

/-! ## What an error tells -/

/-- What the error of a guard tells of the cells that were asked for. -/
def Justifies (w : Setting) (roots : List Address) : CellError → Prop
  | .cycle => ∃ r ∈ roots, w.Circular r
  | .depth => ∃ path : List Address, (∃ r ∈ roots, path.head? = some r) ∧ path.IsChain w.Names ∧
      (∀ c ∈ path, w.IsFormula c) ∧ path.Nodup ∧ w.limits.maxDepth < path.length
  | .calc => ∃ cells : List Address, (∀ c ∈ cells, w.FormulaFromAny roots c) ∧ cells.Nodup ∧
      w.limits.maxEvaluations < cells.length
  | _ => True

theorem justifies_of_not_isGuard {x : CellError} (h : ¬x.IsGuard) : w.Justifies roots x := by
  cases x <;> first | exact absurd trivial h | trivial

/-- A way that leaves no room for its last cell is a path that is too long. -/
theorem WayFrom.justifies_depth (h : w.WayFrom roots (a :: way)) (hnodup : (a :: way).Nodup)
    (hfull : w.limits.maxDepth ≤ way.length) : w.Justifies roots .depth := by
  obtain ⟨hhead, hchain, hform⟩ := h.path
  refine ⟨(a :: way).reverse, hhead, hchain, hform, List.nodup_reverse.mpr hnodup, ?_⟩
  rw [List.length_reverse, List.length_cons]
  exact Nat.lt_succ_of_le hfull

/-! ## Sessions that have met no error -/

/-- A session that has met no error: what it remembers holds none, and the cells it has entered are
different formula cells that can be reached, each of them still on the way or remembered. -/
structure Unfailed (w : Setting) (roots way : List Address) (s : Session) : Prop where
  visiting : s.visiting = way
  memo : ∀ (a : Address) (v : Value), s.memo[a]? = some v → v.fault? = none
  entered : s.EnteredOnce (w.FormulaFromAny roots) way

theorem Unfailed.looked (h : w.Unfailed roots way s) : w.Unfailed roots way (s.looked a) :=
  ⟨h.visiting, h.memo, h.entered⟩

theorem Unfailed.enter (h : w.Unfailed roots way s) (ha : w.FormulaFromAny roots a)
    (hm : s.memo[a]? = none) (hv : a ∉ way) : w.Unfailed roots (a :: way) (s.enter a) where
  visiting := congrArg (a :: ·) h.visiting
  memo := h.memo
  entered := h.entered.enter ha hm hv

theorem Unfailed.leave {v : Value} (h : w.Unfailed roots (a :: way) s) (hclean : v.fault? = none) :
    w.Unfailed roots way ((s.leave a).remember a v) where
  visiting := by
    rw [Session.remember_visiting, Session.leave_visiting, h.visiting, List.erase_cons_head]
  memo b u hu := by
    rcases Session.getElem?_remember hu with hu | ⟨-, rfl, -⟩
    · exact h.memo b u hu
    · exact hclean
  entered := h.entered.leave (Session.lasting_of_fault?_eq_none hclean)

theorem unfailed_start (w : Setting) (roots : List Address) : w.Unfailed roots [] {} :=
  ⟨rfl, fun a v h => by simp at h, .start⟩

/-- The cells that were entered and one more are too many, if the budget is spent. -/
theorem Unfailed.justifies_calc (h : w.Unfailed roots way s) (ha : w.FormulaFromAny roots a)
    (hm : s.memo[a]? = none) (hv : a ∉ way) (hb : w.limits.maxEvaluations ≤ s.evaluations) :
    w.Justifies roots .calc := by
  obtain ⟨cells, hnodup, hlen, hcells⟩ := (h.enter ha hm hv).entered
  refine ⟨cells, fun c hc => (hcells c hc).1, hnodup, ?_⟩
  rw [hlen]
  exact Nat.lt_succ_of_le hb

end Setting

open Setting

/-! ## Reading cells -/

variable {w : Setting} {roots way : List Address} {a : Address}

/-- As long as no error is met the session stays unfailed, and the first error is justified. -/
abbrev Justified (w : Setting) (roots way : List Address) (x : Eval Value) : Prop :=
  UntilError (w.Unfailed roots way) (w.Justifies roots) fault? x x

namespace Cell

/-- At a formula cell, with the way to it from the start. A way that is full allows no cell
behind it. -/
theorem guarded_justified (hw : w.functions.Regular) {source : String}
    (hg : w.grid a = some (.formula source)) {deeper : Option (Address → Eval Value)}
    (hway : w.WayFrom roots (a :: way)) (hnodup : way.Nodup)
    (hroom : deeper = none → w.limits.maxDepth ≤ way.length)
    (h : ∀ read, deeper = some read → ∀ e, a ∉ way → w.Holds a e → ∀ b ∈ e.cells,
      Justified w roots (a :: way) (read b)) :
    Justified w roots way (guarded w deeper a source) := by
  have hfrom := hway.formulaFromAny
  have hcomputed : ∀ read, deeper = some read → a ∉ way →
      Justified w roots (a :: way) (formulaValue w read source) := fun read hd hv =>
    UntilError.formulaValue hw (.refl w) (fun _ => justifies_of_not_isGuard) hg
      fun e he => h read hd e hv he
  constructor
  · intro s hs hclean
    refine ⟨?_, rfl⟩
    -- a guard that stops the cell changes nothing; else the cell is done without an error
    rcases guarded_session w deeper a source s with hsame | ⟨read, hd, hm, hv, -, hrun⟩
    · rw [hsame]
      exact hs
    · rw [hs.visiting] at hv
      rw [hrun, compute_apply] at hclean ⊢
      exact (((hcomputed read hd hv).keeps _ (hs.enter hfrom hm hv) hclean).1).leave hclean
  · intro s x hs hx
    have hspec := guarded_spec w deeper a source s
    generalize guarded w deeper a source s = r at hspec hx
    cases hspec with
    -- nothing that holds an error is remembered before one is met
    | remembered hm => exact nomatch (hs.memo a _ hm).symm.trans hx
    | cycle _ hv =>
      obtain rfl : .cycle = x := Option.some.inj hx
      exact hway.circular (hs.visiting ▸ hv)
    | depth hm hv hd =>
      obtain rfl : .depth = x := Option.some.inj hx
      rw [hs.visiting] at hv
      exact hway.justifies_depth (List.nodup_cons.mpr ⟨hv, hnodup⟩) (hroom hd)
    | budget hm hv hb =>
      obtain rfl : .calc = x := Option.some.inj hx
      exact hs.justifies_calc hfrom hm (hs.visiting ▸ hv) hb
    | @computed read hm hv hd _ =>
      rw [hs.visiting] at hv
      exact (hcomputed read hd hv).cause _ x (hs.enter hfrom hm hv) hx

/-- A cell without a formula holds no guard's error, where none is stored. -/
theorem valueFrom_not_isGuard {f : Address → Value} {x : CellError}
    (hstored : ∀ v x, w.grid a = some (.literal v) → v.fault? = some x → ¬x.IsGuard)
    (hform : ¬w.IsFormula a) (hx : (valueFrom w f a).fault? = some x) : ¬x.IsGuard := by
  unfold valueFrom at hx
  split at hx
  · obtain rfl : .ref = x := Option.some.inj hx
    exact id
  · exact nomatch hx
  · next v hg => exact hstored v x hg hx
  · next source hg => exact absurd ⟨source, hg⟩ hform

theorem valueWith_justified (hw : w.functions.Regular) {deeper : Option (Address → Eval Value)}
    (hstored : ∀ v x, w.grid a = some (.literal v) → v.fault? = some x → ¬x.IsGuard)
    (hway : w.IsFormula a → w.WayFrom roots (a :: way)) (hnodup : way.Nodup)
    (hroom : deeper = none → w.limits.maxDepth ≤ way.length)
    (h : ∀ read, deeper = some read → ∀ e, a ∉ way → w.Holds a e → ∀ b ∈ e.cells,
      Justified w roots (a :: way) (read b)) :
    Justified w roots way (valueWith w deeper a) := by
  by_cases hform : w.IsFormula a
  · have hway := hway hform
    obtain ⟨source, hg⟩ := hform
    have hguarded := guarded_justified hw hg hway hnodup hroom h
    constructor
    · intro s hs hclean
      rw [valueWith_of_formula hg] at hclean ⊢
      exact ⟨(hguarded.keeps _ hs.looked hclean).1, rfl⟩
    · intro s x hs hx
      rw [valueWith_of_formula hg] at hx
      exact hguarded.cause _ x hs.looked hx
  · constructor
    · intro s hs _
      rw [valueWith_of_not_isFormula hform fun _ => .empty]
      exact ⟨hs.looked, rfl⟩
    · intro s x _ hx
      rw [valueWith_of_not_isFormula hform fun _ => .empty] at hx
      exact justifies_of_not_isGuard (valueFrom_not_isGuard hstored hform hx)

/-- Let the way to a cell and the room behind it make up the limit on depth. Then the cell is read
with a justified error, if with any. The induction is on the room. -/
theorem value_justified (hw : w.functions.Regular)
    (hstored : ∀ a v x, w.grid a = some (.literal v) → v.fault? = some x → ¬x.IsGuard)
    {room : Nat} (hway : w.IsFormula a → w.WayFrom roots (a :: way)) (hnodup : way.Nodup)
    (hroom : way.length + room = w.limits.maxDepth) :
    Justified w roots way (Cell.value w room a) := by
  induction room generalizing way a with
  | zero =>
    have hfull : w.limits.maxDepth ≤ way.length := Nat.le_of_eq hroom.symm
    exact valueWith_justified hw (hstored a) hway hnodup (fun _ => hfull) nofun
  | succ room ih =>
    refine valueWith_justified hw (hstored a) hway hnodup nofun fun read hread e ha he b hb => ?_
    cases hread
    have hstep : w.IsFormula b → w.WayFrom roots (b :: a :: way) := fun hform =>
      (hway he.isFormula).step ⟨e, he, hb, hform⟩
    refine ih hstep (List.nodup_cons.mpr ⟨ha, hnodup⟩) ?_
    rw [List.length_cons, Nat.succ_add_eq_add_succ]
    exact hroom

end Cell

/-! ## The standard engine -/

/-- The error of a guard is no false alarm, where no cell stores one. If the answer for a cell is
such an error, then what the error tells of the cell is true. If the answer for a text is one, the
text reads as an expression, and what the error tells of the cells it names is true. -/
theorem guard_errors_are_no_false_alarms (limits : Limits) (g : Grid)
    (hstored : ∀ a v x, g a = some (.literal v) → v.fault? = some x → ¬x.IsGuard) :
    let engine := Engine.standard limits
    let w := engine.setting g
    (∀ a x, engine.evaluateCell g a = .error x → w.Justifies [a] x) ∧
    ∀ text x, x.IsGuard → engine.evaluateFormula g text = .error x →
      ∃ e, Expr.ofText limits.maxNesting text = .ok e ∧ w.Justifies e.cells x := by
  intro engine w
  have hw : w.functions.Regular := Registry.standard_regular
  have hread : ∀ roots a, a ∈ roots → Justified w roots [] (Cell.value w limits.maxDepth a) :=
    fun roots a ha => Cell.value_justified hw hstored (fun hform => .root ha hform) List.nodup_nil
      (Nat.zero_add _)
  constructor
  · intro a x hx
    rw [Engine.evaluateCell_eq] at hx
    refine (hread [a] a List.mem_cons_self).cause {} x (unfailed_start w [a]) ?_
    exact (congrArg fault? hx).trans (fault?_error x)
  · intro text x hguard hx
    cases he : Expr.ofText limits.maxNesting text with
    | error y =>
      rw [Engine.evaluateFormula_of_error _ g he] at hx
      obtain rfl : y.toCellError = x := Value.error.inj hx
      exact absurd hguard id
    | ok e =>
      refine ⟨e, rfl, ?_⟩
      rw [Engine.evaluateFormula_of_ok _ g he] at hx
      have hvalue := UntilError.value hw (.refl w) (fun _ => justifies_of_not_isGuard)
        (Expr.clean_of_ofText he) fun a ha => hread e.cells a ha
      refine hvalue.cause {} x (unfailed_start w e.cells) ?_
      rcases fault?_finalize ((congrArg fault? hx).trans (fault?_error x)) with rfl | hfault
      · exact absurd hguard id
      · exact hfault

namespace SelfReference

def a1 : Address := ⟨0, 0⟩

/-- `A1` is `A1`, and there is nothing else. -/
def content : Grid := fun a =>
  if a = a1 then some (.formula "=A1") else some .blank

def itself : Expr :=
  .cell ⟨a1, false, false⟩

def setting (limits : Limits) : Setting :=
  (Engine.standard limits).setting content

theorem holds_a1 {limits : Limits} (h : limits.maxNesting = 128) :
    (setting limits).Holds a1 itself :=
  .of_tokens [⟨.cell ⟨a1, false, false⟩, "A1", 0⟩, ⟨.eof, "", 2⟩]
    rfl (by decide +kernel) (by decide +kernel) (h ▸ rfl)

theorem stores_nothing (a : Address) (v : Value) : content a ≠ some (.literal v) := by
  unfold content
  split <;> nofun

theorem evaluateCell_default : (Engine.standard {}).evaluateCell content a1 = .error .cycle := by
  show (Cell.value (setting {}) 100 a1 {}).1 = _
  rw [Cell.value_succ_of_holds 99 (holds_a1 rfl) (by simp) (by simp) (by decide)]
  show finalize (Cell.value (setting {}) 99 a1 _).1 = _
  rw [Cell.value_of_mem_visiting 99 (holds_a1 rfl).isFormula (by simp) (by simp)]
  rfl

theorem not_remembered : (Session.looked a1 {}).memo[a1]? = none := by
  simp

theorem evaluateCell_maxDepth :
    (Engine.standard { maxDepth := 0 }).evaluateCell content a1 = .error .depth := by
  show (Cell.value (setting { maxDepth := 0 }) 0 a1 {}).1 = _
  rw [Cell.value, Cell.valueWith_of_formula rfl, Cell.guarded_apply, not_remembered]
  rfl

theorem evaluateCell_maxEvaluations :
    (Engine.standard { maxEvaluations := 0 }).evaluateCell content a1 = .error .calc := by
  show (Cell.value (setting { maxEvaluations := 0 }) 100 a1 {}).1 = _
  rw [Cell.value, Cell.valueWith_of_formula rfl, Cell.guarded_apply, not_remembered]
  rfl

end SelfReference

open SelfReference in
/-- Under the default limits `A1` meets itself, under narrower ones it meets those; and what each
error tells of it is true. -/
theorem guard_errors_are_no_false_alarms_self_reference :
    (∀ a v x, content a = some (.literal v) → v.fault? = some x → ¬x.IsGuard) ∧
      (setting {}).Justifies [a1] .cycle ∧
      (setting { maxDepth := 0 }).Justifies [a1] .depth ∧
      (setting { maxEvaluations := 0 }).Justifies [a1] .calc := by
  have hstored : ∀ a v x, content a = some (.literal v) → v.fault? = some x → ¬x.IsGuard :=
    fun a v _ h => absurd h (stores_nothing a v)
  obtain ⟨hcycle, -⟩ := guard_errors_are_no_false_alarms {} content hstored
  obtain ⟨hdepth, -⟩ := guard_errors_are_no_false_alarms { maxDepth := 0 } content hstored
  obtain ⟨hcalc, -⟩ := guard_errors_are_no_false_alarms { maxEvaluations := 0 } content hstored
  exact ⟨hstored, hcycle a1 .cycle evaluateCell_default, hdepth a1 .depth evaluateCell_maxDepth,
    hcalc a1 .calc evaluateCell_maxEvaluations⟩

end Spreadsheet
