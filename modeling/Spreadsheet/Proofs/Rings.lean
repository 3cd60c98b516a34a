import Spreadsheet.Proofs.History
import Spreadsheet.Proofs.Lockstep
import Mathlib.Data.Fin.VecNotation
import Mathlib.Data.Nat.ModEq

/-!
# Rings of cells

Let some formula cells stand in a ring, each of them a formula that reads the next cell before
anything else. Whichever cell is asked for, the way runs once around the ring, and it ends at the
guard that it meets first: at the cell where it started, at the limit on depth or at the limit on
evaluations. At one and the same cell the cycle is seen before the limits, and the depth before the
number of evaluations.

What else the formulas hold is of no concern. All operators and functions are strict and compute
what stands on the left first, so the error of the guard is handed back unchanged along the way.

Results:
1. `Expr.Starts.value_eq_error`: the error of the cell that is read first is the error of the
   expression;
2. `Cell.value_around`: how the way around a ring ends, from any of its cells on;
3. `ring_ends_at_first_guard`: what a ring is worth under all limits and from every start.
-/

namespace Spreadsheet

open Formula

/-! ## What is read first -/

namespace Formula.Expr

/-- The expression starts with a cell: it stands in the leftmost place, under operators and under
functions that accept the number of their arguments. A call without arguments in front of the cell
stands in that place itself, like a literal, so `PI() * A1` starts with no cell. -/
inductive Starts (functions : Registry) (a : Address) : Expr → Prop where
  | cell {r : Reference} (h : r.address = a) : Starts functions a (.cell r)
  | unary (op : UnaryOp) {e : Expr} (h : Starts functions a e) : Starts functions a (.unary op e)
  | binary (op : BinaryOp) {l : Expr} (h : Starts functions a l) (r : Expr) :
      Starts functions a (.binary op l r)
  | call {name : String} {d : FunctionDef} {first : Expr} {rest : List Expr}
      (hd : functions.find? name = some d) (hc : d.accepts (rest.length + 1) = true)
      (h : Starts functions a first) : Starts functions a (.call name (first :: rest))

/-- If the cell that an expression starts with is read as an error, the expression is worth that
error. -/
theorem Starts.value_eq_error {w : Setting} (hw : w.functions.Strict) {a : Address} {e : Expr}
    (h : e.Starts w.functions a) {read : Address → Eval Value} {s : Session} {x : CellError}
    (hread : (read a s).1 = .error x) : (e.value w read s).1 = .error x := by
  induction h with
  | cell ha =>
    subst ha
    exact hread
  | unary op _ ih =>
    rw [value_unary]
    show op.apply (value w read _ s).1 = _
    rw [ih, op.apply_of_fault (Value.fault?_error x)]
  | @binary op l _ r ih =>
    rw [value_binary]
    show (afterLeft w op (l.value w read s).1 (r.value w read) (l.value w read s).2).1 = _
    rw [ih]
    rfl
  | @call name d first rest hd hc _ ih =>
    rw [value_call, hd]
    simp only [List.length_cons, hc, if_true, List.mapM_cons]
    -- the arguments have as many values, and the first of them is the error
    show d.implementation w.limits
      ((first.value w read s).1 :: (rest.mapM (value w read) (first.value w read s).2).1) = _
    rw [ih]
    refine hw name d hd w.limits _ x ?_ ?_
    · rwa [List.length_cons, length_mapM_state]
    · rw [Value.firstError?_cons, Value.fault?_error, Option.some_or]

end Formula.Expr

/-! ## The guard that is met first -/

/-- The error at the end of a way through a ring of which some cells are left, where some more may
be entered one inside the other and some more evaluated. -/
def firstGuard (left room budget : Nat) : CellError :=
  if left ≤ room ∧ left ≤ budget then .cycle
  else if room < left ∧ room ≤ budget then .depth
  else .calc

theorem firstGuard_zero (room budget : Nat) : firstGuard 0 room budget = .cycle := by
  simp [firstGuard]

theorem firstGuard_no_room (left budget : Nat) : firstGuard (left + 1) 0 budget = .depth := by
  simp [firstGuard]

theorem firstGuard_no_budget (left room : Nat) : firstGuard (left + 1) (room + 1) 0 = .calc := by
  simp [firstGuard]

/-- Entering a cell leaves one less of everything. -/
theorem firstGuard_succ (left room budget : Nat) :
    firstGuard (left + 1) (room + 1) (budget + 1) = firstGuard left room budget := by
  simp [firstGuard]

/-! ## Around a ring -/

section

variable {w : Setting} {n : Nat} {cells : Fin (n + 1) → Address} {start pos : Nat} {s : Session}

/-- The cells stand in a ring: they are different, and each holds a formula that starts with the
next one, where the first one comes after the last. -/
structure Setting.IsRing (w : Setting) {n : Nat} (cells : Fin (n + 1) → Address) : Prop where
  injective : Function.Injective cells
  starts : ∀ i, ∃ e, w.Holds (cells i) e ∧ e.Starts w.functions (cells (i + 1))

/-- The cells of a ring by the number of steps, over and over. -/
def around (cells : Fin (n + 1) → Address) (pos : Nat) : Address :=
  cells (Fin.ofNat (n + 1) pos)

theorem around_val (cells : Fin (n + 1) → Address) (i : Fin (n + 1)) : around cells i = cells i :=
  congrArg cells (Fin.ext (Nat.mod_eq_of_lt i.isLt))

theorem around_add_length (cells : Fin (n + 1) → Address) (pos : Nat) :
    around cells (pos + (n + 1)) = around cells pos :=
  congrArg cells (Fin.ext (Nat.add_mod_right pos (n + 1)))

theorem Setting.IsRing.starts_around (h : w.IsRing cells) (pos : Nat) :
    ∃ e, w.Holds (around cells pos) e ∧ e.Starts w.functions (around cells (pos + 1)) := by
  have hnext : Fin.ofNat (n + 1) (pos + 1) = Fin.ofNat (n + 1) pos + 1 :=
    Fin.ext (Nat.add_mod pos 1 (n + 1))
  unfold around
  rw [hnext]
  exact h.starts _

/-- Less than once around there are only new cells. -/
theorem Setting.IsRing.around_ne (h : w.IsRing cells) {j : Nat} (hj : j < pos)
    (hpos : pos < j + (n + 1)) : around cells j ≠ around cells pos := by
  intro heq
  have hmod : j ≡ pos [MOD n + 1] := congrArg Fin.val (h.injective heq)
  have hdvd : n + 1 ∣ pos - j := (Nat.modEq_iff_dvd' (Nat.le_of_lt hj)).mp hmod
  have := Nat.le_of_dvd (by omega) hdvd
  omega

/-- A session that went from one cell of the ring up to another one and has finished none. -/
structure Session.OnRing (cells : Fin (n + 1) → Address) (start pos : Nat) (s : Session) :
    Prop where
  memo : ∀ a : Address, s.memo[a]? = none
  visiting : ∀ a, a ∈ s.visiting ↔ ∃ j, start ≤ j ∧ j < pos ∧ around cells j = a

theorem Session.onRing_start (cells : Fin (n + 1) → Address) (start : Nat) :
    Session.OnRing cells start start {} where
  memo a := by simp
  visiting a := ⟨nofun, fun ⟨_, hstart, hend, _⟩ => absurd hend (Nat.not_lt_of_le hstart)⟩

theorem Session.OnRing.enter (h : s.OnRing cells start pos) (hle : start ≤ pos) :
    ((s.looked (around cells pos)).enter (around cells pos)).OnRing cells start (pos + 1) where
  memo := h.memo
  visiting a := by
    rw [enter_visiting, looked_visiting, List.mem_cons, h.visiting]
    constructor
    · rintro (rfl | ⟨j, hstart, hend, ha⟩)
      · exact ⟨pos, hle, Nat.lt_succ_self pos, rfl⟩
      · exact ⟨j, hstart, Nat.lt_succ_of_lt hend, ha⟩
    · rintro ⟨j, hstart, hend, ha⟩
      rcases Nat.lt_succ_iff_lt_or_eq.mp hend with hend | rfl
      · exact .inr ⟨j, hstart, hend, ha⟩
      · exact .inl ha.symm

theorem Setting.IsRing.not_mem_visiting (h : w.IsRing cells) (hs : s.OnRing cells start pos)
    (hend : pos < start + (n + 1)) : around cells pos ∉ s.visiting := by
  rw [hs.visiting]
  rintro ⟨j, hstart, hj, heq⟩
  exact h.around_ne hj (by omega) heq

namespace Cell

theorem value_of_no_room {a : Address} (h : w.IsFormula a) (hm : s.memo[a]? = none)
    (hv : a ∉ s.visiting) : (Cell.value w 0 a s).1 = .error .depth := by
  obtain ⟨source, hg⟩ := h
  rw [Cell.value, valueWith_of_formula hg, guarded_apply]
  simp only [Session.looked_memo, hm, Session.isVisiting_iff, Session.looked_visiting, hv, if_false]
  rfl

theorem value_of_no_budget (room : Nat) {a : Address} (h : w.IsFormula a)
    (hm : s.memo[a]? = none) (hv : a ∉ s.visiting)
    (hb : w.limits.maxEvaluations ≤ s.evaluations) :
    (Cell.value w (room + 1) a s).1 = .error .calc := by
  obtain ⟨source, hg⟩ := h
  rw [Cell.value, valueWith_of_formula hg, guarded_apply]
  simp only [Session.looked_memo, hm, Session.isVisiting_iff, Session.looked_visiting, hv, if_false,
    Session.looked_evaluations, hb, if_true]
  rfl

/-- From any cell of a ring on, the way ends at the first guard. The induction is on the cells that
are left before the way is back where it started. -/
theorem value_around (hw : w.functions.Strict) (h : w.IsRing cells) {left room budget : Nat}
    (hs : s.OnRing cells start pos) (hle : start ≤ pos) (hleft : pos + left = start + (n + 1))
    (hbudget : s.evaluations + budget = w.limits.maxEvaluations) :
    (Cell.value w room (around cells pos) s).1 = .error (firstGuard left room budget) := by
  induction left generalizing room budget pos s with
  | zero =>
    obtain ⟨e, he, -⟩ := h.starts_around pos
    have hback : around cells start = around cells pos := by
      rw [← around_add_length, ← hleft, Nat.add_zero]
    have hmem : around cells pos ∈ s.visiting :=
      (hs.visiting _).mpr ⟨start, Nat.le_refl _, by omega, hback⟩
    rw [firstGuard_zero, value_of_mem_visiting room he.isFormula (hs.memo _) hmem]
  | succ left ih =>
    obtain ⟨e, he, hstarts⟩ := h.starts_around pos
    have hnew : around cells pos ∉ s.visiting := h.not_mem_visiting hs (by omega)
    cases room with
    | zero => rw [firstGuard_no_room, value_of_no_room he.isFormula (hs.memo _) hnew]
    | succ room =>
      cases budget with
      | zero =>
        rw [firstGuard_no_budget,
          value_of_no_budget room he.isFormula (hs.memo _) hnew (Nat.le_of_eq hbudget.symm)]
      | succ budget =>
        rw [firstGuard_succ, value_succ_of_holds room he (hs.memo _) hnew (by omega)]
        have hnext : (value w room _ _).1 = .error (firstGuard left room budget) :=
          ih (hs.enter hle) (by omega) (by omega)
            (by simp only [Session.enter_evaluations, Session.looked_evaluations]; omega)
        show finalize _ = _
        rw [hstarts.value_eq_error hw hnext]
        rfl

end Cell

end

/-! ## The standard engine -/

/-- A ring of `n + 1` cells is worth the same error at each of them: `#CYCLE!` if both limits allow
for all its cells, else `#DEPTH!` if there are more cells than may be entered one inside the other
and the limit on evaluations is not the narrower one, and `#CALC!` otherwise. The same is true of a
formula that only names a cell of the ring. -/
theorem ring_ends_at_first_guard (limits : Limits) (g : Grid) {n : Nat}
    (cells : Fin (n + 1) → Address)
    (hring : ((Engine.standard limits).setting g).IsRing cells) (i : Fin (n + 1)) :
    let x := firstGuard (n + 1) limits.maxDepth limits.maxEvaluations
    (Engine.standard limits).evaluateCell g (cells i) = .error x ∧
    ∀ text r, Expr.ofText limits.maxNesting text = .ok (.cell r) → r.address = cells i →
      (Engine.standard limits).evaluateFormula g text = .error x := by
  intro x
  have hw := Engine.standard_strict limits g
  have hcell : (Session.cellValue ((Engine.standard limits).setting g) (cells i) {}).1 =
      .error x := by
    rw [← around_val cells i]
    exact Cell.value_around hw hring (Session.onRing_start cells i) (Nat.le_refl _) rfl
      (Nat.zero_add _)
  refine ⟨hcell, fun text r htext hr => ?_⟩
  rw [Engine.evaluateFormula_of_ok _ g htext]
  show finalize (Session.cellValue _ r.address {}).1 = _
  rw [hr, hcell]
  rfl

namespace RingOfTwo

def a1 : Address := ⟨0, 0⟩

def b1 : Address := ⟨0, 1⟩

/-- `A1` is a sum that starts with `B1`, and `B1` a product that starts with `A1`. -/
def content : Grid := fun a =>
  if a = a1 then some (.formula "=SUM(B1,1)")
  else if a = b1 then some (.formula "=-A1*2")
  else some .blank

def cells : Fin 2 → Address :=
  ![a1, b1]

def setting (limits : Limits) : Setting :=
  (Engine.standard limits).setting content

def total : Expr :=
  .call "SUM" [.cell ⟨b1, false, false⟩, .literal (.int 1)]

def product : Expr :=
  .binary .multiply (.unary .negate (.cell ⟨a1, false, false⟩)) (.literal (.int 2))

variable {limits : Limits}

theorem holds_a1 (h : limits.maxNesting = 128) : (setting limits).Holds a1 total :=
  .of_tokens [⟨.name "SUM", "SUM", 0⟩, ⟨.leftParen, "(", 3⟩,
      ⟨.cell ⟨b1, false, false⟩, "B1", 4⟩, ⟨.comma, ",", 6⟩, ⟨.number 1 (some 1), "1", 7⟩,
      ⟨.rightParen, ")", 8⟩, ⟨.eof, "", 9⟩]
    rfl (by decide +kernel) (by decide +kernel) (h ▸ rfl)

theorem holds_b1 (h : limits.maxNesting = 128) : (setting limits).Holds b1 product :=
  .of_tokens [⟨.op .minus, "-", 0⟩, ⟨.cell ⟨a1, false, false⟩, "A1", 1⟩, ⟨.op .star, "*", 3⟩,
      ⟨.number 2 (some 2), "2", 4⟩, ⟨.eof, "", 5⟩]
    rfl (by decide +kernel) (by decide +kernel) (h ▸ rfl)

theorem find_sum : Registry.standard.find? "SUM" =
    some (.ofValues Builtin.sum "Sum of the numeric arguments") := rfl

theorem isRing (h : limits.maxNesting = 128) : (setting limits).IsRing cells where
  injective := fun i j => by revert i j; decide
  starts := by
    refine Fin.forall_fin_two.mpr ⟨⟨total, holds_a1 h, ?_⟩, ⟨product, holds_b1 h, ?_⟩⟩
    · exact .call (d := .ofValues Builtin.sum "Sum of the numeric arguments")
        find_sum rfl (.cell rfl)
    · exact .binary .multiply (.unary .negate (.cell (r := ⟨a1, false, false⟩) rfl)) _

end RingOfTwo

open RingOfTwo in
/-- Two cells are a cycle unless only one may be entered. -/
theorem ring_ends_at_first_guard_two_cells :
    (setting {}).IsRing cells ∧
      (Engine.standard {}).evaluateCell content a1 = .error .cycle ∧
      (Engine.standard { maxDepth := 1 }).evaluateCell content b1 = .error .depth ∧
      (Engine.standard { maxEvaluations := 1 }).evaluateCell content a1 = .error .calc :=
  ⟨isRing rfl, (ring_ends_at_first_guard {} content cells (isRing rfl) 0).1,
    (ring_ends_at_first_guard { maxDepth := 1 } content cells (isRing rfl) 1).1,
    (ring_ends_at_first_guard { maxEvaluations := 1 } content cells (isRing rfl) 0).1⟩

end Spreadsheet
