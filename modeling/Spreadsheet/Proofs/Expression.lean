import Spreadsheet.Proofs.Strict
import Spreadsheet.Proofs.Names

/-!
# The value of an expression

An expression is evaluated in any monad in which cells can be read. In the monad that has nothing
to remember this is a plain function of the values of the cells, and since all operations are
strict that function does not show the order of evaluation any more: `valueFrom_binary` computes
both sides.

Results:
1. `value_range` to `value_call`: the equations of an evaluation, in any monad;
2. `valueFrom_range` to `valueFrom_call`: the same for given values of the cells;
3. `value_pure`: both agree where reading has no effect;
4. `valueFrom_congr`: only the named cells count;
5. `fault?_valueFrom`: where a named cell holds an error, so does the value of the expression.
-/

namespace Spreadsheet

/-! ## In any monad -/

theorem resolve_eq {m : Type → Type} [Monad m] [LawfulMonad m] (maxCells : Nat)
    (read : Address → m Value) (a b : Reference) : resolve maxCells read a b =
      if maxCells < (Area.ofCorners a.address b.address).size then pure (.error .ref)
      else Except.ok <$> (Area.ofCorners a.address b.address).cells.mapM read := by
  rw [resolve, map_eq_pure_bind]

theorem mapM_congr {m : Type → Type} [Monad m] [LawfulMonad m] {α β : Type} {f g : α → m β}
    {as : List α} (h : ∀ a ∈ as, f a = g a) : as.mapM f = as.mapM g := by
  induction as with
  | nil => rfl
  | cons a as ih =>
    rw [List.mapM_cons, List.mapM_cons, h a (by simp), ih fun b hb => h b (by simp [hb])]

namespace Formula.Expr

section

variable {m : Type → Type} [Monad m] [LawfulMonad m] (w : Setting) (read : Address → m Value)

/-- What becomes of the right side of an operator once the left one is computed. -/
def afterLeft (op : BinaryOp) (a : Value) (right : m Value) : m Value :=
  match a with
  | .error e => pure (.error e)
  | a => op.apply w.limits a <$> right

theorem value_range (r : RangeRef) : (range r).value w read =
    if w.limits.maxRangeCells < r.area.size then pure (.error .ref)
    else Value.array <$> r.area.cells.mapM read := by
  rw [value, resolve_eq]
  show (if w.limits.maxRangeCells < r.area.size then _ else _) >>= _ = _
  split
  · rw [pure_bind]
  · rw [bind_map_left, map_eq_pure_bind]
    rfl

theorem value_unary (op : UnaryOp) (e : Expr) :
    (unary op e).value w read = op.apply <$> e.value w read := by
  rw [value, map_eq_pure_bind]

theorem value_binary (op : BinaryOp) (l r : Expr) : (binary op l r).value w read =
    l.value w read >>= fun a => afterLeft w op a (r.value w read) := by
  rw [value]
  congr
  funext a
  cases a <;> simp only [afterLeft, map_eq_pure_bind]

theorem values_eq_mapM (args : List Expr) :
    values w read args = args.mapM (value w read) := by
  induction args with
  | nil => rfl
  | cons e es ih => rw [values, List.mapM_cons, ih]

theorem value_call (name : String) (args : List Expr) : (call name args).value w read =
    match w.functions.find? name with
    | none => pure (.error (unknownFunction name))
    | some d =>
      if d.accepts args.length then d.implementation w.limits <$> args.mapM (value w read)
      else pure (.error .value) := by
  rw [value]
  cases w.functions.find? name with
  | none => rfl
  | some d => simp only [values_eq_mapM, map_eq_pure_bind]

end

/-! ## From given values of the cells -/

variable {w : Setting} {f g : Address → Value}

/-- The value of an expression, given the values of the cells. -/
def valueFrom (w : Setting) (f : Address → Value) (e : Expr) : Value :=
  Id.run (e.value w fun a => pure (f a))

theorem valueFrom_range (r : RangeRef) : (range r).valueFrom w f =
    if w.limits.maxRangeCells < r.area.size then .error .ref
    else .array (r.area.cells.map f) := by
  rw [valueFrom, value_range]
  split
  · rfl
  · simp

theorem valueFrom_unary (op : UnaryOp) (e : Expr) :
    (unary op e).valueFrom w f = op.apply (e.valueFrom w f) := rfl

theorem valueFrom_binary (op : BinaryOp) (l r : Expr) : (binary op l r).valueFrom w f =
    op.apply w.limits (l.valueFrom w f) (r.valueFrom w f) := by
  rw [valueFrom, value_binary, Id.run_bind, ← valueFrom]
  unfold afterLeft
  split
  · next e h => rw [h, op.apply_of_fault_left _ (Value.fault?_error e)]; rfl
  · rfl

theorem valueFrom_call (name : String) (args : List Expr) : (call name args).valueFrom w f =
    match w.functions.find? name with
    | none => .error (unknownFunction name)
    | some d =>
      if d.accepts args.length then d.implementation w.limits (args.map (valueFrom w f))
      else .error .value := by
  rw [valueFrom, value_call]
  cases w.functions.find? name with
  | none => rfl
  | some d =>
    dsimp only
    split
    · simp only [Id.run_map, List.idRun_mapM]
      rfl
    · rfl

/-- Where cells are read without an effect, an expression is evaluated without one. -/
theorem value_pure {m : Type → Type} [Monad m] [LawfulMonad m] (f : Address → Value) (e : Expr) :
    e.value w (fun a => (pure (f a) : m Value)) = pure (e.valueFrom w f) := by
  induction e using Expr.induction with
  | literal v => rfl
  | cell r => rfl
  | range r =>
    rw [value_range, valueFrom_range]
    split
    · rfl
    · rw [List.mapM_pure, map_pure]
  | unary op e ih => rw [value_unary, ih, map_pure, valueFrom_unary]
  | binary op l r ihl ihr =>
    rw [value_binary, ihl, pure_bind, ihr, valueFrom_binary]
    unfold afterLeft
    split
    · next e h => rw [h, op.apply_of_fault_left _ (Value.fault?_error e)]
    · rw [map_pure]
  | call name args ih =>
    rw [value_call, valueFrom_call]
    split
    · rfl
    · split
      · rw [mapM_congr ih, List.mapM_pure, map_pure]
      · rfl

/-- An expression only sees the cells it names. -/
theorem valueFrom_congr (e : Expr) (h : ∀ a ∈ e.cells, f a = g a) :
    e.valueFrom w f = e.valueFrom w g := by
  induction e using Expr.induction with
  | literal v => rfl
  | cell r => exact h r.address (by simp [cells_cell])
  | range r =>
    rw [cells_range] at h
    rw [valueFrom_range, valueFrom_range, List.map_congr_left h]
  | unary op e ih =>
    rw [cells_unary] at h
    rw [valueFrom_unary, valueFrom_unary, ih h]
  | binary op l r ihl ihr =>
    rw [valueFrom_binary, valueFrom_binary, ihl fun a ha => h a (mem_cells_binary.mpr (.inl ha)),
      ihr fun a ha => h a (mem_cells_binary.mpr (.inr ha))]
  | call name args ih =>
    have hargs : args.map (valueFrom w f) = args.map (valueFrom w g) :=
      List.map_congr_left fun e he =>
        ih e he fun a ha => h a (mem_cells_call.mpr ⟨e, he, ha⟩)
    rw [valueFrom_call, valueFrom_call, hargs]

/-- An error in a named cell is an error in the value: no operation makes it good again. -/
theorem fault?_valueFrom (hw : w.functions.Strict) {e : Expr} {b : Address} (hb : b ∈ e.cells)
    (hf : (f b).fault? ≠ none) : (e.valueFrom w f).fault? ≠ none := by
  induction e using Expr.induction with
  | literal v => exact absurd hb List.not_mem_nil
  | cell r =>
    obtain rfl : b = r.address := by simpa [cells_cell] using hb
    exact hf
  | range r =>
    rw [valueFrom_range]
    split
    · exact nofun
    · rw [cells_range] at hb
      rw [Value.fault?_array, ne_eq, Value.firstError?_eq_none_iff]
      exact fun h => hf (h _ (List.mem_map_of_mem hb))
  | unary op e ih =>
    rw [cells_unary] at hb
    obtain ⟨x, hx⟩ := Option.ne_none_iff_exists'.mp (ih hb)
    rw [valueFrom_unary, op.apply_of_fault hx]
    exact nofun
  | binary op l r ihl ihr =>
    have hlr : Value.firstError? [l.valueFrom w f, r.valueFrom w f] ≠ none := by
      rw [ne_eq, Value.firstError?_eq_none_iff]
      intro h
      rcases mem_cells_binary.mp hb with hl | hr
      · exact ihl hl (h _ (by simp))
      · exact ihr hr (h _ (by simp))
    obtain ⟨x, hx⟩ := Option.ne_none_iff_exists'.mp hlr
    rw [valueFrom_binary, op.apply_strict _ _ _ _ hx]
    exact nofun
  | call name args ih =>
    rw [valueFrom_call]
    split
    · exact nofun
    · next d hd =>
      split
      · next hc =>
        obtain ⟨e, he, hbe⟩ := mem_cells_call.mp hb
        have hargs : Value.firstError? (args.map (valueFrom w f)) ≠ none := by
          rw [ne_eq, Value.firstError?_eq_none_iff]
          exact fun h => ih e he hbe (h _ (List.mem_map_of_mem he))
        obtain ⟨x, hx⟩ := Option.ne_none_iff_exists'.mp hargs
        rw [hw name d hd _ _ x (by simpa using hc) hx]
        exact nofun
      · exact nofun

end Formula.Expr

end Spreadsheet
