import Spreadsheet.Builtin.Standard
import Spreadsheet.Proofs.History
import Spreadsheet.Proofs.Words

/-!
# Integer formulas

A formula over integers has a value over all integers. As long as this value, the values of all its
parts and the sums on the way through each `SUM` are 64-bit words, that value is the result: nothing
is rounded and nothing wraps. Where a single operation leaves the words, its result is a double.

The induction is on the formula together with its exact value. It is made for an evaluation without
a session; a formula of this kind names no formula cells, so that every session gives the same.

Results:
1. `Exact.valueFrom`: the value of an integer formula, given the values of its cells;
2. `evaluate_of_stores`: its value in any session;
3. `integer_formulas_are_exact`: for all formulas, with what happens beyond the words.
-/

namespace Spreadsheet

open Formula Number

/-- The operator with the meaning of a function of two numbers. -/
def operatorOf? : String → Option BinaryOp
  | "ADD" => some .add
  | "MINUS" => some .subtract
  | "MULTIPLY" => some .multiply
  | "POW" | "POWER" => some .power
  | _ => none

/-- A cell with an integer in it. -/
def Setting.Stores (w : Setting) (a : Address) (k : Int64) : Prop :=
  w.grid a = some (.literal (.int k))

namespace Formula.Expr

mutual

/-- A formula over integers with its exact value, where all parts have values that are words.
Functions may be called in any case. -/
inductive Exact (w : Setting) : Expr → Int → Prop where
  | literal (k : Int64) : Exact w (.literal (.int k)) k.toInt
  | cell {r : Reference} {k : Int64} (h : w.Stores r.address k) : Exact w (.cell r) k.toInt
  | plus {e : Expr} {n : Int} (h : Exact w e n) : Exact w (.unary .plus e) n
  | negate {e : Expr} {n : Int} (h : Exact w e n) (hn : IsWord (-n)) :
      Exact w (.unary .negate e) (-n)
  | operator {op : BinaryOp} {l r : Expr} {m n j : Int} (h : Operates op m n j) (hl : Exact w l m)
      (hr : Exact w r n) (hj : IsWord j) : Exact w (.binary op l r) j
  | operation {name : String} {op : BinaryOp} {l r : Expr} {m n j : Int}
      (hname : operatorOf? (Text.toUpper name) = some op) (h : Operates op m n j)
      (hl : Exact w l m) (hr : Exact w r n) (hj : IsWord j) : Exact w (.call name [l, r]) j
  | absolute {name : String} {e : Expr} {n : Int} (hname : Text.toUpper name = "ABS")
      (h : Exact w e n) (hn : IsWord n.natAbs) : Exact w (.call name [e]) n.natAbs
  | remainder {name : String} {l r : Expr} {m n : Int} (hname : Text.toUpper name = "MOD")
      (hl : Exact w l m) (hr : Exact w r n) (hzero : n ≠ 0) (hleast : ¬(m = -2 ^ 63 ∧ n = -1)) :
      Exact w (.call name [l, r]) (m.fmod n)
  | sum {name : String} {args : List Expr} {ns : List Int} (hname : Text.toUpper name = "SUM")
      (hargs : args ≠ []) (h : Summands w args ns)
      (hsum : ∀ part, part <+: ns → IsWord part.sum) : Exact w (.call name args) ns.sum

/-- The arguments of a sum, with the integers in them from left to right. -/
inductive Summands (w : Setting) : List Expr → List Int → Prop where
  | nil : Summands w [] []
  | value {e : Expr} {n : Int} {es : List Expr} {ns : List Int} (h : Exact w e n)
      (hs : Summands w es ns) : Summands w (e :: es) (n :: ns)
  | range (r : RangeRef) (ks : List Int64) {es : List Expr} {ns : List Int}
      (hsize : r.area.size ≤ w.limits.maxRangeCells)
      (hcells : List.Forall₂ w.Stores r.area.cells ks) (hs : Summands w es ns) :
      Summands w (.range r :: es) (ks.map Int64.toInt ++ ns)

end

variable {w : Setting} {f : Address → Value} {e : Expr} {n : Int} {args : List Expr}
  {ns : List Int}

/-! ## Calls -/

theorem find_operation {name : String} {op : BinaryOp}
    (h : operatorOf? (Text.toUpper name) = some op) : ∃ d, Registry.standard.find? name = some d ∧
      d.accepts 2 = true ∧
      ∀ limits u v, d.implementation limits [u, v] = op.apply limits u v := by
  unfold operatorOf? at h
  unfold Registry.find?
  split at h <;> cases h <;> next heq => rw [heq]; exact ⟨_, rfl, rfl, fun _ _ _ => rfl⟩

theorem find_absolute {name : String} (h : Text.toUpper name = "ABS") :
    Registry.standard.find? name = some (.ofOneNumber Builtin.absolute "Absolute value") := by
  rw [Registry.find?, h]
  rfl

theorem find_remainder {name : String} (h : Text.toUpper name = "MOD") :
    ∃ d, Registry.standard.find? name = some d ∧ d.accepts 2 = true ∧
      d.implementation = Builtin.remainder := by
  rw [Registry.find?, h]
  exact ⟨_, rfl, rfl, rfl⟩

theorem find_sum {name : String} (h : Text.toUpper name = "SUM") :
    Registry.standard.find? name =
      some (.ofValues Builtin.sum "Sum of the numeric arguments") := by
  rw [Registry.find?, h]
  rfl

theorem accepts_sum (h : args ≠ []) :
    (FunctionDef.ofValues Builtin.sum "Sum of the numeric arguments").accepts args.length = true := by
  cases args with
  | nil => exact absurd rfl h
  | cons e es => rfl

/-- A call with as many arguments as the function accepts. -/
theorem valueFrom_call_of_find {name : String} {d : FunctionDef}
    (hfind : w.functions.find? name = some d) (haccepts : d.accepts args.length = true) :
    (call name args).valueFrom w f = d.implementation w.limits (args.map (valueFrom w f)) := by
  rw [valueFrom_call, hfind]
  exact if_pos haccepts

/-- A function of two numbers does what its operator does. -/
theorem valueFrom_operation (hw : w.functions = .standard) {name : String} {op : BinaryOp}
    (h : operatorOf? (Text.toUpper name) = some op) (l r : Expr) :
    (call name [l, r]).valueFrom w f = (binary op l r).valueFrom w f := by
  obtain ⟨d, hfind, haccepts, himplementation⟩ := find_operation h
  rw [valueFrom_call_of_find (hw ▸ hfind) haccepts, valueFrom_binary]
  exact himplementation _ _ _

theorem leavesOf_int (ks : List Int64) : Value.leavesOf (ks.map .int) = ks.map .int := by
  induction ks with
  | nil => rfl
  | cons k ks ih => rw [List.map_cons, Value.leavesOf, ih]; rfl

theorem map_of_stores (hf : ∀ a k, w.Stores a k → f a = .int k) {cells : List Address}
    {ks : List Int64} (h : List.Forall₂ w.Stores cells ks) : cells.map f = ks.map .int := by
  induction h with
  | nil => rfl
  | cons hk hks ih => rw [List.map_cons, List.map_cons, hf _ _ hk, ih]

/-! ## Without a session -/

mutual

/-- The value of an integer formula is its exact value. -/
theorem Exact.valueFrom (hw : w.functions = .standard) (hf : ∀ a k, w.Stores a k → f a = .int k)
    {e : Expr} {n : Int} : Exact w e n → (e.valueFrom w f).IsInteger n
  | .literal k => ⟨k, rfl, rfl⟩
  | .cell h => ⟨_, hf _ _ h, rfl⟩
  | .plus h => plus_isInteger (h.valueFrom hw hf)
  | .negate h hn => negate_isInteger (h.valueFrom hw hf) hn
  | .operator h hl hr hj => by
    rw [valueFrom_binary]
    exact h.apply w.limits (hl.valueFrom hw hf) (hr.valueFrom hw hf) hj
  | .operation hname h hl hr hj => by
    rw [valueFrom_operation hw hname, valueFrom_binary]
    exact h.apply w.limits (hl.valueFrom hw hf) (hr.valueFrom hw hf) hj
  | .absolute hname h hn => by
    rw [valueFrom_call_of_find (hw ▸ find_absolute hname) rfl]
    exact Builtin.absolute_isInteger w.limits (h.valueFrom hw hf) hn
  | .remainder hname hl hr hzero hleast => by
    obtain ⟨d, hfind, haccepts, himplementation⟩ := find_remainder hname
    rw [valueFrom_call_of_find (hw ▸ hfind) haccepts, himplementation]
    exact Builtin.remainder_isInteger w.limits (hl.valueFrom hw hf) (hr.valueFrom hw hf) hzero
      hleast
  | .sum hname hargs h hsum => by
    obtain ⟨ks, hleaves, rfl⟩ := h.valuesFrom hw hf
    rw [valueFrom_call_of_find (hw ▸ find_sum hname) (accepts_sum hargs)]
    exact Builtin.sum_isInteger w.limits hleaves hsum

/-- The scalars in the arguments of a sum are the integers in them. -/
theorem Summands.valuesFrom (hw : w.functions = .standard)
    (hf : ∀ a k, w.Stores a k → f a = .int k) {args : List Expr} {ns : List Int} :
    Summands w args ns → ∃ ks : List Int64,
      Value.leavesOf (args.map (Expr.valueFrom w f)) = ks.map .int ∧ ks.map Int64.toInt = ns
  | .nil => ⟨[], rfl, rfl⟩
  | .value h hs => by
    obtain ⟨k, hk, rfl⟩ := h.valueFrom hw hf
    obtain ⟨ks, hleaves, rfl⟩ := hs.valuesFrom hw hf
    refine ⟨k :: ks, ?_, rfl⟩
    rw [List.map_cons, hk, Value.leavesOf, hleaves]
    rfl
  | .range r ks hsize hcells hs => by
    obtain ⟨ls, hleaves, rfl⟩ := hs.valuesFrom hw hf
    refine ⟨ks ++ ls, ?_, List.map_append⟩
    have hcells : r.area.cells.map f = ks.map .int := map_of_stores hf hcells
    rw [List.map_cons, valueFrom_range, if_neg hsize.not_gt, Value.leavesOf, Value.leaves, hcells,
      leavesOf_int, hleaves, List.map_append]

end

/-! ## In a session -/

theorem exists_stores {cells : List Address} {ks : List Int64}
    (h : List.Forall₂ w.Stores cells ks) : ∀ a ∈ cells, ∃ k, w.Stores a k := by
  intro a ha
  induction h with
  | nil => exact absurd ha List.not_mem_nil
  | cons hk hks ih => exact (List.mem_cons.mp ha).elim (fun heq => ⟨_, heq ▸ hk⟩) ih

/-- What holds of the cells in the arguments of a call holds of its cells. -/
theorem stores_call {name : String} (h : ∀ e ∈ args, ∀ a ∈ e.cells, ∃ k, w.Stores a k) :
    ∀ a ∈ (call name args).cells, ∃ k, w.Stores a k := by
  intro a ha
  obtain ⟨e, he, ha⟩ := mem_cells_call.mp ha
  exact h e he a ha

mutual

/-- All cells that an integer formula names hold integers. -/
theorem Exact.stores {e : Expr} {n : Int} : Exact w e n → ∀ a ∈ e.cells, ∃ k, w.Stores a k
  | .literal k => nofun
  | .cell h => fun a ha => ⟨_, List.mem_singleton.mp ha ▸ h⟩
  | .plus h => by
    rw [cells_unary]
    exact h.stores
  | .negate h hn => by
    rw [cells_unary]
    exact h.stores
  | .operator h hl hr hj => fun a ha => (mem_cells_binary.mp ha).elim (hl.stores a) (hr.stores a)
  | .operation hname h hl hr hj =>
    stores_call (List.forall_mem_cons.mpr ⟨hl.stores, List.forall_mem_singleton.mpr hr.stores⟩)
  | .absolute hname h hn => stores_call (List.forall_mem_singleton.mpr h.stores)
  | .remainder hname hl hr hzero hleast =>
    stores_call (List.forall_mem_cons.mpr ⟨hl.stores, List.forall_mem_singleton.mpr hr.stores⟩)
  | .sum hname hargs h hsum => stores_call h.stores

theorem Summands.stores {args : List Expr} {ns : List Int} :
    Summands w args ns → ∀ e ∈ args, ∀ a ∈ e.cells, ∃ k, w.Stores a k
  | .nil => nofun
  | .value h hs => List.forall_mem_cons.mpr ⟨h.stores, hs.stores⟩
  | .range r _ _ hcells hs =>
    List.forall_mem_cons.mpr ⟨cells_range r ▸ exists_stores hcells, hs.stores⟩

end

/-- The values of cells with integers in them. -/
def stored (w : Setting) : Address → Value :=
  Cell.valueFrom w fun _ => .empty

theorem stored_eq (a : Address) (k : Int64) (h : w.Stores a k) : stored w a = .int k := by
  rw [stored, Cell.valueFrom, h]

/-- Where all cells hold integers, every session gives the value that needs none. -/
theorem evaluate_of_stores (hw : w.functions.Strict) (h : ∀ a ∈ e.cells, ∃ k, w.Stores a k)
    (s : Session) : (Session.evaluate w e s).1 = e.valueFrom w (stored w) := by
  have hread : ∀ a ∈ e.cells, Ensures (fun _ => True) (Cell.value w (s.room w) a)
      fun v => Near (fun _ => False) v (stored w a) := by
    intro a ha s' _
    have hformula : ¬w.IsFormula a := by
      rintro ⟨source, hg⟩
      obtain ⟨k, hk⟩ := h a ha
      cases hk.symm.trans hg
    rw [Cell.value_of_not_isFormula (s.room w) hformula fun _ => .empty]
    exact ⟨trivial, .refl _⟩
  rcases (Ensures.value hw e hread s trivial).2.eq_or_mem_leaves with heq | ⟨x, hx, -⟩
  · exact heq
  · exact hx.elim

end Formula.Expr

/-! ## The standard functions -/

open Formula.Expr in
/-- A formula over integers is worth its exact value in every session, as long as this, the values
of all its parts and the sums on the way through each `SUM` are words. A sum, a difference, a product
or a negation of such formulas that is no word is a finite double. -/
theorem integer_formulas_are_exact (limits : Limits) (g : Grid) :
    let w := (Engine.standard limits).setting g
    (∀ e n, Exact w e n → ∃ k : Int64, k.toInt = n ∧
      (∀ s, (Session.evaluate w e s).1 = .int k) ∧
      ∀ text, ofText limits.maxNesting text = .ok e →
        (Engine.standard limits).evaluateFormula g text = .int k) ∧
    (∀ op l r m n j, Operates op m n j → op ≠ .power → Exact w l m → Exact w r n → ¬IsWord j →
      ∃ x : Float, x.isFinite = true ∧
        (∀ s, (Session.evaluate w (.binary op l r) s).1 = .float x) ∧
        ∀ name, operatorOf? (Text.toUpper name) = some op →
          ∀ s, (Session.evaluate w (.call name [l, r]) s).1 = .float x) ∧
    (∀ e n, Exact w e n → ¬IsWord (-n) →
      ∃ x : Float, x.isFinite = true ∧
        ∀ s, (Session.evaluate w (.unary .negate e) s).1 = .float x) := by
  intro w
  have hsession : ∀ e : Expr, (∀ a ∈ e.cells, ∃ k, w.Stores a k) →
      ∀ s, (Session.evaluate w e s).1 = e.valueFrom w (stored w) :=
    fun e => evaluate_of_stores (Engine.standard_strict limits g)
  have hvalue : ∀ {e n}, Exact w e n → (e.valueFrom w (stored w)).IsInteger n :=
    Exact.valueFrom rfl stored_eq
  refine ⟨fun e n h => ?_, fun op l r m n j hop hpower hl hr hj => ?_, fun e n h hn => ?_⟩
  · obtain ⟨k, hk, hn⟩ := hvalue h
    have hany : ∀ s, (Session.evaluate w e s).1 = .int k := fun s =>
      (hsession e h.stores s).trans hk
    refine ⟨k, hn, hany, fun text htext => ?_⟩
    rw [Engine.evaluateFormula_of_ok _ g htext]
    show finalize (Session.evaluate w e {}).1 = _
    rw [hany]
    rfl
  · obtain ⟨x, hx, hfinite⟩ :=
      hop.apply_of_not_isWord w.limits hpower (hvalue hl) (hvalue hr) hj
    have hbinary : (binary op l r).valueFrom w (stored w) = .float x :=
      (valueFrom_binary op l r).trans hx
    refine ⟨x, hfinite, fun s => ?_, fun name hname s => ?_⟩
    · rw [hsession _ (fun a ha => (mem_cells_binary.mp ha).elim (hl.stores a) (hr.stores a)),
        hbinary]
    · have hcall : ∀ a ∈ (call name [l, r]).cells, ∃ k, w.Stores a k := stores_call
        (List.forall_mem_cons.mpr ⟨hl.stores, List.forall_mem_singleton.mpr hr.stores⟩)
      rw [hsession _ hcall, valueFrom_operation rfl hname, hbinary]
  · obtain ⟨x, hx, hfinite⟩ := negate_of_not_isWord (hvalue h) hn
    refine ⟨x, hfinite, fun s => ?_⟩
    rw [hsession _ (cells_unary .negate e ▸ h.stores)]
    exact hx

namespace IntegerCells

/-- `A1` holds 5 and `A2` holds -7. -/
def content : Grid := fun a =>
  if a = ⟨0, 0⟩ then some (.literal (.int 5))
  else if a = ⟨1, 0⟩ then some (.literal (.int (-7)))
  else some .blank

def column : RangeRef :=
  ⟨⟨⟨0, 0⟩, false, false⟩, ⟨⟨1, 0⟩, false, false⟩⟩

/-- The tree of `Sum(A1:A2, 9) * 2 ^ 10`. -/
def formula : Expr :=
  .binary .multiply (.call "Sum" [.range column, .literal (.int 9)])
    (.binary .power (.literal (.int 2)) (.literal (.int 10)))

variable {w : Setting}

theorem exact_formula (hw : w.grid = content) (hlimits : w.limits = {}) :
    formula.Exact w 7168 := by
  have hcells : List.Forall₂ w.Stores column.area.cells [5, -7] := by
    have hcolumn : column.area.cells = [⟨0, 0⟩, ⟨1, 0⟩] := rfl
    rw [hcolumn]
    exact .cons (congrFun hw _) (.cons (congrFun hw _) .nil)
  have hsize : column.area.size ≤ w.limits.maxRangeCells := by
    rw [hlimits]
    decide
  have hargs : Expr.Summands w [.range column, .literal (.int 9)] [5, -7, 9] :=
    .range column [5, -7] hsize hcells (.value (.literal 9) .nil)
  have hparts : ∀ part ∈ [5, -7, 9].inits, IsWord part.sum := by decide
  have hsum : Expr.Exact w (.call "Sum" [.range column, .literal (.int 9)]) 7 :=
    .sum rfl (List.cons_ne_nil _ _) hargs fun part h => hparts part ((List.mem_inits _ _).mpr h)
  have hpower : Expr.Exact w (.binary .power (.literal (.int 2)) (.literal (.int 10))) 1024 :=
    .operator (.power 2 10 (by decide) (.inl (by decide))) (.literal 2) (.literal 10) (by decide)
  exact .operator (.multiply 7 1024) hsum hpower (by decide)

theorem ofText_formula : Expr.ofText 128 "=Sum(A1:A2,9)*2^10" = .ok formula :=
  Expr.ofText_of_tokens
    [⟨.name "Sum", "Sum", 0⟩, ⟨.leftParen, "(", 3⟩,
      ⟨.range ⟨⟨0, 0⟩, false, false⟩ ⟨⟨1, 0⟩, false, false⟩, "A1:A2", 4⟩, ⟨.comma, ",", 9⟩,
      ⟨.number 9 (some 9), "9", 10⟩, ⟨.rightParen, ")", 11⟩, ⟨.op .star, "*", 12⟩,
      ⟨.number 2 (some 2), "2", 13⟩, ⟨.op .caret, "^", 14⟩, ⟨.number 10 (some 10), "10", 15⟩,
      ⟨.eof, "", 17⟩] (by decide +kernel) (by decide +kernel) rfl

end IntegerCells

open IntegerCells Formula.Expr in
/-- A product with a sum in it is exact, and the least word negated and the greatest word doubled
are doubles. -/
theorem integer_formulas_are_exact_sum_of_column :
    let w := (Engine.standard {}).setting content
    (Exact w formula 7168 ∧ (Engine.standard {}).evaluateFormula content "=Sum(A1:A2,9)*2^10" =
      .int 7168) ∧
    (∃ x : Float, x.isFinite = true ∧
      (Session.evaluate w (.binary .add (.literal (.int Int64.maxValue))
        (.literal (.int Int64.maxValue))) {}).1 = .float x) ∧
    ∃ x : Float, x.isFinite = true ∧
      (Session.evaluate w (.unary .negate (.literal (.int Int64.minValue))) {}).1 = .float x := by
  intro w
  obtain ⟨hexact, hoperator, hnegate⟩ := integer_formulas_are_exact {} content
  obtain ⟨k, hk, -, htext⟩ := hexact formula 7168 (exact_formula rfl rfl)
  obtain ⟨x, hx, hadd, -⟩ := hoperator .add _ _ _ _ _ (.add _ _) nofun
    (.literal Int64.maxValue) (.literal Int64.maxValue) (by decide)
  obtain ⟨y, hy, hnegated⟩ := hnegate _ _ (.literal Int64.minValue) (by decide)
  refine ⟨⟨exact_formula rfl rfl, ?_⟩, ⟨x, hx, hadd {}⟩, y, hy, hnegated {}⟩
  rw [htext _ ofText_formula, (Int64.toInt_inj.mp hk : k = 7168)]

end Spreadsheet
