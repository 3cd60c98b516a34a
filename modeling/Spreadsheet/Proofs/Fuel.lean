import Spreadsheet.Proofs.Entries

/-!
# Recursion on fuel

The evaluation is written once more, this time as a recursion that may go wherever it likes: a call
evaluates an expression, and each evaluation costs a unit of fuel on the way down, be it for a part
of the expression or for the formula of a cell. That the way is limited is now a guard like the
others, which asks the session. With as much fuel as evaluations can be nested it never runs out,
and gives what the evaluation gives.

Results:
1. `Fueled.evaluate`: the recursion on fuel;
2. `Fueled.agrees_evaluate`: with enough fuel it gives what the evaluation gives;
3. `recursion_is_bounded`: whatever the grid, this much fuel is enough for formulas and cells.
-/

namespace Spreadsheet

open Formula

/-- A computation that reads the grid through a session and may run out of fuel. -/
abbrev Fueled := StateT Session Option

namespace Fueled

/-! ## The recursion -/

section

variable (w : Setting) (evaluate : Expr → Fueled Value)

/-- Enters a formula cell, computes it and remembers its value. -/
def compute (a : Address) (source : String) : Fueled Value := do
  modify (Session.enter a)
  let v ← match Expr.ofText w.limits.maxNesting source with
    | .error x => pure (.error x.toCellError)
    | .ok e => finalize <$> evaluate e
  modify (Session.leave a)
  modify (Session.remember a v)
  return v

/-- The value of a formula cell; all four guards ask the session. -/
def guarded (a : Address) (source : String) : Fueled Value := do
  let s ← get
  match s.memo[a]? with
  | some v => return v
  | none =>
    if s.isVisiting a then
      return .error .cycle
    else if w.limits.maxDepth ≤ s.depth then
      return .error .depth
    else if w.limits.maxEvaluations ≤ s.evaluations then
      return .error .calc
    else
      compute w evaluate a source

/-- The value of a cell. -/
def cellValue (a : Address) : Fueled Value := do
  modify (Session.looked a)
  match w.grid a with
  | none => return .error .ref
  | some .blank => return .empty
  | some (.literal v) => return v
  | some (.formula source) => guarded w evaluate a source

/-- The value of an expression, given how expressions are evaluated one level down. -/
def evaluateWith : Expr → Fueled Value
  | .literal v => return v
  | .cell r => cellValue w evaluate r.address
  | .range r => do
    match ← resolve w.limits.maxRangeCells (cellValue w evaluate) r.first r.last with
    | .ok vs => return .array vs
    | .error e => return .error e
  | .unary op e => do
    let v ← evaluate e
    return op.apply v
  | .binary op l r => do
    let a ← evaluate l
    match a with
    | .error e => return .error e
    | a =>
      let b ← evaluate r
      return op.apply w.limits a b
  | .call name args =>
    match w.functions.find? name with
    | none => return .error (unknownFunction name)
    | some d =>
      if d.accepts args.length then do
        let vs ← args.mapM evaluate
        return d.implementation w.limits vs
      else
        return .error .value

end

/-- The value of an expression, if no more evaluations are nested than there is fuel. -/
def evaluate (w : Setting) : (fuel : Nat) → Expr → Fueled Value
  | 0 => fun _ _ => none
  | fuel + 1 => evaluateWith w (evaluate w fuel)

end Fueled

/-- The value of a formula text, if there is enough fuel. -/
def Engine.formulaOnFuel (engine : Engine) (g : Grid) (fuel : Nat) (text : String) : Option Value :=
  match Expr.ofText engine.limits.maxNesting text with
  | .error x => some (.error x.toCellError)
  | .ok e => ((Fueled.evaluate (engine.setting g) fuel e).run' {}).map finalize

/-- The value of a cell, if there is enough fuel. -/
def Engine.cellOnFuel (engine : Engine) (g : Grid) (fuel : Nat) (a : Address) : Option Value :=
  (Fueled.cellValue (engine.setting g) (Fueled.evaluate (engine.setting g) fuel) a).run' {}

/-! ## Both recursions agree -/

namespace Fueled

variable {w : Setting} {room : Nat} {α β : Type}

/-- With so much room behind the way the first computation gives what the second one gives, which
keeps the room. -/
def Agrees (w : Setting) (room : Nat) (x : Fueled α) (y : Eval α) : Prop :=
  ∀ s, s.Valid w → s.room w = room →
    x s = some (y s) ∧ (y s).2.Valid w ∧ (y s).2.room w = room

namespace Agrees

variable {x : Fueled α} {y : Eval α}

theorem pure (a : α) : Agrees w room (pure a) (pure a) :=
  fun _ hs hroom => ⟨rfl, hs, hroom⟩

theorem bind {f : α → Fueled β} {g : α → Eval β} (h : Agrees w room x y)
    (hf : ∀ a, Agrees w room (f a) (g a)) : Agrees w room (x >>= f) (y >>= g) := by
  intro s hs hroom
  obtain ⟨heq, hvalid, hkept⟩ := h s hs hroom
  have hrun : (x >>= f) s = f (y s).1 (y s).2 := by
    show (x s).bind _ = _
    rw [heq]
    rfl
  rw [hrun]
  exact hf _ _ hvalid hkept

theorem map (f : α → β) (h : Agrees w room x y) : Agrees w room (f <$> x) (f <$> y) := by
  rw [map_eq_pure_bind, map_eq_pure_bind]
  exact h.bind fun a => .pure (f a)

theorem mapM {f : α → Fueled β} {g : α → Eval β} {as : List α}
    (h : ∀ a ∈ as, Agrees w room (f a) (g a)) : Agrees w room (as.mapM f) (as.mapM g) := by
  induction as with
  | nil => exact .pure []
  | cons a as ih =>
    obtain ⟨ha, has⟩ := List.forall_mem_cons.mp h
    rw [List.mapM_cons, List.mapM_cons]
    exact ha.bind fun b => (ih has).bind fun bs => .pure (b :: bs)

end Agrees

variable {a : Address} {source : String} {s : Session}

/-- Expressions that the formulas of cells read as are evaluated alike one cell deeper. -/
def AgreesBelow (w : Setting) (room : Nat) (evaluate : Expr → Fueled Value) : Prop :=
  ∀ n, room = n + 1 → ∀ e, e.height ≤ w.limits.maxNesting →
    Agrees w n (evaluate e) (e.value w (Cell.value w n))

theorem compute_eq {evaluate : Expr → Fueled Value} (h : AgreesBelow w (room + 1) evaluate)
    (hs : (s.enter a).Valid w) (hroom : (s.enter a).room w = room) :
    compute w evaluate a source s = some (Cell.compute w (Cell.value w room) a source s) := by
  rw [Cell.compute_apply]
  unfold compute
  cases he : Expr.ofText w.limits.maxNesting source with
  | error x =>
    rw [Cell.formulaValue_of_error he]
    rfl
  | ok e =>
    have hbelow := (h room rfl e (Expr.height_le_of_ofText he)).map finalize
    have heq := (hbelow _ hs hroom).1
    rw [Cell.formulaValue_of_ok he]
    show ((finalize <$> evaluate e) (s.enter a)).bind _ = _
    rw [heq]
    rfl

theorem guarded_apply {evaluate : Expr → Fueled Value} : guarded w evaluate a source s =
    (match s.memo[a]? with
    | some v => pure v
    | none =>
      if s.isVisiting a then pure (.error .cycle)
      else if w.limits.maxDepth ≤ s.depth then pure (.error .depth)
      else if w.limits.maxEvaluations ≤ s.evaluations then pure (.error .calc)
      else compute w evaluate a source : Fueled Value) s := rfl

/-- How cells are read one step further on the way. -/
def below (w : Setting) : (room : Nat) → Option (Address → Eval Value)
  | 0 => none
  | room + 1 => some (Cell.value w room)

theorem value_eq_valueWith_below : Cell.value w room = Cell.valueWith w (below w room) := by
  cases room <;> rfl

/-- No room is left where the way has as many cells as it may have, and only there. -/
theorem guarded_eq {evaluate : Expr → Fueled Value} (h : AgreesBelow w room evaluate)
    (hs : s.Valid w) (hroom : s.room w = room) :
    guarded w evaluate a source s = some (Cell.guarded w (below w room) a source s) := by
  rw [guarded_apply, Cell.guarded_apply]
  cases hm : s.memo[a]? with
  | some v => rfl
  | none =>
    dsimp only
    by_cases hv : s.isVisiting a = true
    · rw [if_pos hv, if_pos hv]
      rfl
    · rw [if_neg hv, if_neg hv]
      rw [Session.isVisiting_iff] at hv
      cases room with
      | zero =>
        rw [if_pos (Nat.le_of_sub_eq_zero hroom)]
        rfl
      | succ n =>
        have hdepth : s.depth < w.limits.maxDepth := Nat.lt_of_sub_eq_succ hroom
        rw [if_neg (Nat.not_le_of_lt hdepth), below]
        dsimp only
        by_cases hb : w.limits.maxEvaluations ≤ s.evaluations
        · rw [if_pos hb, if_pos hb]
          rfl
        · rw [if_neg hb, if_neg hb]
          refine compute_eq h (hs.enter hm hv hdepth (Nat.lt_of_not_le hb)) ?_
          rw [Session.room, Session.enter_depth, ← Nat.sub_sub]
          exact congrArg (· - 1) hroom

theorem agrees_cellValue {evaluate : Expr → Fueled Value} (h : AgreesBelow w room evaluate)
    (a : Address) : Agrees w room (cellValue w evaluate a) (Cell.value w room a) := by
  intro s hs hroom
  have hkeeps := Session.cellValue_keeps hs a
  rw [Session.cellValue, hroom] at hkeeps
  refine ⟨?_, hkeeps.1, (hkeeps.2.room_eq w).trans hroom⟩
  rw [value_eq_valueWith_below, Cell.valueWith_apply]
  show (match w.grid a with
    | none => pure (.error .ref)
    | some .blank => pure .empty
    | some (.literal v) => pure v
    | some (.formula source) => guarded w evaluate a source : Fueled Value) (s.looked a) = _
  cases w.grid a with
  | none => rfl
  | some content =>
    cases content with
    | blank => rfl
    | literal v => rfl
    | formula source => exact guarded_eq h hs.looked hroom

theorem agrees_evaluate {fuel : Nat} {e : Expr}
    (h : e.height + 1 + room * (w.limits.maxNesting + 1) ≤ fuel) :
    Agrees w room (evaluate w fuel e) (e.value w (Cell.value w room)) := by
  induction fuel generalizing room e with
  | zero => omega
  | succ fuel ih =>
    have hbelow : AgreesBelow w room (evaluate w fuel) := by
      rintro n rfl e' he'
      refine ih ?_
      rw [Nat.add_mul, Nat.one_mul] at h
      omega
    have hcell := agrees_cellValue hbelow
    have hpart : ∀ e', e'.height < e.height →
        Agrees w room (evaluate w fuel e') (e'.value w (Cell.value w room)) :=
      fun e' he' => ih (by omega)
    cases e with
    | literal v => exact .pure v
    | cell r => exact hcell r.address
    | range r =>
      rw [evaluate, evaluateWith, Expr.value]
      refine Agrees.bind ?_ fun v => ?_
      · rw [resolve_eq, resolve_eq]
        split
        · exact .pure _
        · exact (Agrees.mapM fun a _ => hcell a).map _
      · cases v with
        | ok vs => exact .pure _
        | error x => exact .pure _
    | unary op e =>
      rw [evaluate, evaluateWith, Expr.value]
      exact (hpart e (Nat.lt_succ_self _)).bind fun v => .pure _
    | binary op l r =>
      have hl : l.height < (Expr.binary op l r).height := Nat.lt_succ_of_le (Nat.le_max_left _ _)
      have hr : r.height < (Expr.binary op l r).height := Nat.lt_succ_of_le (Nat.le_max_right _ _)
      rw [evaluate, evaluateWith, Expr.value]
      refine (hpart l hl).bind fun v => ?_
      cases v with
      | error x => exact .pure _
      | _ => exact (hpart r hr).bind fun u => .pure _
    | call name args =>
      rw [evaluate, evaluateWith, Expr.value]
      cases w.functions.find? name with
      | none => exact .pure _
      | some d =>
        dsimp only
        split
        · rw [Expr.values_eq_mapM]
          refine (Agrees.mapM fun e' he' => hpart e' ?_).bind fun vs => .pure _
          exact Nat.lt_succ_of_le (Call.height_le_heightOf he')
        · exact .pure _

end Fueled

/-! ## From outside -/

/-- A call of a fresh session ends, whatever it calls for; it enters formula cells in an order that
is settled, and no more of them than may be evaluated; and no more than `n` evaluations of
expressions are nested in it. -/
structure Call.Bounded (w : Setting) (c : Call) (n : Nat) : Prop where
  ends : Acc (fun q p => q ∈ Call.made w p) (c, {})
  entered : ∃ cells, (∀ cells', Call.Enters w [(c, {})] cells' ↔ cells' = cells) ∧
    cells.length = (c.run w {}).evaluations ∧ cells.length ≤ w.limits.maxEvaluations
  nested : ∀ ps : List (Call × Session), ps.head? = some (c, {}) →
    (ps.IsChain fun p q => q ∈ Call.made w p) → ps.countP (·.1.isEvaluate) ≤ n

theorem Call.bounded {w : Setting} {n : Nat} (c : Call) (h : Call.bound w (c, {}) ≤ n) :
    Call.Bounded w c n := by
  have hstart : ({} : Session).Valid w := Session.valid_reset w {}
  refine ⟨?_, ?_, ?_⟩
  · exact Call.induction (fun p _ ih => Acc.intro p ih) (c, {}) hstart
  · obtain ⟨cells, henters⟩ := Call.exists_enters c hstart
    have hinTurn : Call.Enters w (Call.inTurn w [c] {}) cells := henters
    have hcells : cells.length = (c.run w {}).evaluations :=
      (Nat.zero_add _).symm.trans (hinTurn.evaluations_eq hstart).symm
    refine ⟨cells, fun cells' => ⟨fun h' => h'.unique henters, ?_⟩, hcells, ?_⟩
    · rintro rfl
      exact henters
    · rw [hcells]
      exact (Call.run_keeps hstart c).1.evaluations_le
  · intro ps hhead hchain
    obtain ⟨ps, rfl⟩ := List.head?_eq_some_iff.mp hhead
    exact Nat.le_trans (Call.countP_le_bound hstart hchain) h

namespace Engine

variable (engine : Engine) (g : Grid)

theorem formulaOnFuel_eq (text : String) :
    engine.formulaOnFuel g ((engine.limits.maxDepth + 1) * (engine.limits.maxNesting + 1)) text =
      some (engine.evaluateFormula g text) := by
  unfold formulaOnFuel
  cases he : Expr.ofText engine.limits.maxNesting text with
  | error x => rw [evaluateFormula_of_error engine g he]
  | ok e =>
    have hheight := Expr.height_le_of_ofText he
    have hfuel : e.height + 1 + engine.limits.maxDepth * (engine.limits.maxNesting + 1) ≤
        (engine.limits.maxDepth + 1) * (engine.limits.maxNesting + 1) := by
      rw [Nat.add_mul _ 1, Nat.one_mul]
      omega
    have hagrees := Fueled.agrees_evaluate (w := engine.setting g) hfuel {}
      (Session.valid_reset _ {}) rfl
    rw [evaluateFormula_of_ok engine g he]
    show ((Fueled.evaluate _ _ e {}).map Prod.fst).map finalize = _
    rw [hagrees.1]
    rfl

theorem cellOnFuel_eq (a : Address) :
    engine.cellOnFuel g (engine.limits.maxDepth * (engine.limits.maxNesting + 1)) a =
      some (engine.evaluateCell g a) := by
  have hbelow : Fueled.AgreesBelow (engine.setting g) engine.limits.maxDepth
      (Fueled.evaluate (engine.setting g)
        (engine.limits.maxDepth * (engine.limits.maxNesting + 1))) := by
    intro n hn e he
    have hheight : e.height ≤ engine.limits.maxNesting := he
    refine Fueled.agrees_evaluate ?_
    show e.height + 1 + n * (engine.limits.maxNesting + 1) ≤ _
    rw [hn, Nat.add_mul, Nat.one_mul]
    omega
  have hagrees := Fueled.agrees_cellValue hbelow a {} (Session.valid_reset _ {}) rfl
  rw [cellOnFuel, evaluateCell_eq]
  show (Fueled.cellValue _ _ a {}).map Prod.fst = _
  rw [hagrees.1]
  rfl

end Engine

/-- Whatever the grid, cyclic or endless, an evaluation ends and enters no more formula cells than
may be evaluated. The evaluations that are nested in a formula are no more than its own levels and
those of one formula for each cell on the way; in a cell, no more than the latter. So an evaluation
that recurses on as much fuel never runs out of it, and gives the same value. -/
theorem recursion_is_bounded (engine : Engine) (g : Grid) :
    let limits := engine.limits
    (∀ text e, Expr.ofText limits.maxNesting text = .ok e → Call.Bounded (engine.setting g)
      (.evaluate e) ((limits.maxDepth + 1) * (limits.maxNesting + 1))) ∧
    (∀ a, Call.Bounded (engine.setting g) (.cell a)
      (limits.maxDepth * (limits.maxNesting + 1))) ∧
    (∀ text, engine.formulaOnFuel g ((limits.maxDepth + 1) * (limits.maxNesting + 1)) text =
      some (engine.evaluateFormula g text)) ∧
    ∀ a, engine.cellOnFuel g (limits.maxDepth * (limits.maxNesting + 1)) a =
      some (engine.evaluateCell g a) := by
  intro limits
  refine ⟨fun text e he => ?_, fun a => ?_, engine.formulaOnFuel_eq g, engine.cellOnFuel_eq g⟩
  · have hheight : e.height ≤ limits.maxNesting := Expr.height_le_of_ofText he
    refine Call.bounded _ ?_
    show e.height + 1 + limits.maxDepth * (limits.maxNesting + 1) ≤ _
    rw [Nat.add_mul _ 1, Nat.one_mul]
    omega
  · refine Call.bounded _ ?_
    show 0 + limits.maxDepth * (limits.maxNesting + 1) ≤ _
    rw [Nat.zero_add]

namespace Everywhere

def b1 : Address := ⟨0, 1⟩

def negated : Expr :=
  .unary .negate (.cell ⟨b1, false, false⟩)

/-- Every cell of an endless grid holds the same formula. -/
def content : Grid := fun _ => some (.formula "=-B1")

/-- One formula cell may be on the way, and its formula may have one level. -/
def limits : Limits :=
  { maxDepth := 1, maxNesting := 1 }

def setting : Setting :=
  (Engine.standard limits).setting content

theorem ofText_eq : Expr.ofText limits.maxNesting "=-B1" = .ok negated := by
  have hholds : setting.Holds b1 negated :=
    .of_tokens [⟨.op .minus, "-", 0⟩, ⟨.cell ⟨b1, false, false⟩, "B1", 1⟩, ⟨.eof, "", 3⟩]
      rfl (by decide +kernel) (by decide +kernel) rfl
  obtain ⟨source, hg, he⟩ := hholds
  cases hg
  exact he

theorem admits_b1 : ({} : Session).Admits setting b1 :=
  ⟨by simp, by simp, by decide, by decide⟩

/-- The session in which the formula of `B1` is evaluated. -/
def inside : Session :=
  (Session.looked b1 {}).enter b1

/-- The formula is evaluated down to `B1`, and the same formula once more there. -/
def nested : List (Call × Session) :=
  [(.evaluate negated, {}), (.evaluate (.cell ⟨b1, false, false⟩), {}), (.cell b1, {}),
    (.evaluate negated, inside), (.evaluate (.cell ⟨b1, false, false⟩), inside), (.cell b1, inside)]

theorem isChain_nested : nested.IsChain fun p q => q ∈ Call.made setting p := by
  have hcalls : Cell.calls setting {} b1 = [.evaluate negated] := by
    have he : Expr.ofText setting.limits.maxNesting "=-B1" = .ok negated := ofText_eq
    rw [Cell.calls_of_admits rfl admits_b1, he]
  have hcell : (Call.evaluate negated, inside) ∈ Call.made setting (.cell b1, {}) := by
    show _ ∈ Call.inTurn setting (Cell.calls setting {} b1) inside
    rw [hcalls]
    exact List.mem_cons_self
  simp only [nested, List.isChain_cons_cons, List.isChain_singleton, and_true]
  exact ⟨List.mem_cons_self, List.mem_cons_self, hcell, List.mem_cons_self, List.mem_cons_self⟩

end Everywhere

open Everywhere in
/-- On a grid of nothing but formulas, as many evaluations are nested as the limits allow. -/
theorem recursion_is_bounded_everywhere :
    Expr.ofText limits.maxNesting "=-B1" = .ok negated ∧ Call.Bounded setting (.evaluate negated)
      ((limits.maxDepth + 1) * (limits.maxNesting + 1)) ∧
    (nested.IsChain fun p q => q ∈ Call.made setting p) ∧
    nested.countP (·.1.isEvaluate) = (limits.maxDepth + 1) * (limits.maxNesting + 1) := by
  obtain ⟨hformula, -⟩ := recursion_is_bounded (Engine.standard limits) content
  exact ⟨ofText_eq, hformula _ _ ofText_eq, isChain_nested, rfl⟩

end Spreadsheet
