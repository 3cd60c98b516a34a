import Spreadsheet.Proofs.Plain

/-!
# Reading a cell, from session to session

What `Cell.value` does to a session, once and for all: a cell without a formula is only looked at;
at a formula cell there are four guards, and behind them the formula is computed with the cell on
the way. The later proofs use these statements and open no definition of the evaluation.

Results:
1. `Session.getElem?_remember`: what is remembered;
2. `Session.EnteredOnce.enter`, `Session.EnteredOnce.leave`: no formula cell is entered twice;
3. `Cell.valueWith_of_not_isFormula`, `Cell.valueWith_of_formula`: looking at a cell;
4. `Cell.guarded_spec`, `Cell.guarded_session`: everything that can happen at a formula cell.
-/

namespace Spreadsheet

open Formula

variable {w : Setting} {a b : Address} {s : Session}

namespace Session

/-! ## The parts of a session -/

/-- The session after a look into the grid. -/
def looked (a : Address) (s : Session) : Session :=
  { s with lookups := a :: s.lookups }

@[simp] theorem looked_memo : (s.looked a).memo = s.memo := rfl

@[simp] theorem looked_visiting : (s.looked a).visiting = s.visiting := rfl

@[simp] theorem looked_depth : (s.looked a).depth = s.depth := rfl

@[simp] theorem looked_evaluations : (s.looked a).evaluations = s.evaluations := rfl

@[simp] theorem enter_memo : (s.enter a).memo = s.memo := rfl

@[simp] theorem enter_visiting : (s.enter a).visiting = a :: s.visiting := rfl

@[simp] theorem enter_depth : (s.enter a).depth = s.depth + 1 := rfl

@[simp] theorem enter_evaluations : (s.enter a).evaluations = s.evaluations + 1 := rfl

@[simp] theorem leave_memo : (s.leave a).memo = s.memo := rfl

@[simp] theorem leave_visiting : (s.leave a).visiting = s.visiting.erase a := rfl

@[simp] theorem leave_depth : (s.leave a).depth = s.depth - 1 := rfl

@[simp] theorem leave_evaluations : (s.leave a).evaluations = s.evaluations := rfl

theorem isVisiting_iff : s.isVisiting a = true ↔ a ∈ s.visiting := by
  simp [isVisiting]

/-- Whether a value may be remembered. -/
def Lasting (v : Value) : Prop :=
  ∀ x, v = .error x → x.isPathDependent = false

theorem lasting_of_fault?_eq_none {v : Value} (h : v.fault? = none) : Lasting v :=
  fun _ hv => absurd hv (Value.ne_error_of_fault?_eq_none h _)

theorem remember_of_lasting {v : Value} (h : Lasting v) :
    s.remember a v = { s with memo := s.memo.insert a v } := by
  unfold remember
  split
  · next x => rw [h x rfl]; rfl
  · rfl

theorem remember_of_not_lasting {v : Value} (h : ¬Lasting v) : s.remember a v = s := by
  unfold remember
  split
  · next x =>
    have hx : x.isPathDependent = true := by
      by_contra hne
      exact h fun y hy => by cases hy; simpa using hne
    rw [if_pos hx]
  · next v hv => exact absurd (fun x hx => absurd hx (hv x)) h

@[simp] theorem remember_visiting {v : Value} : (s.remember a v).visiting = s.visiting := by
  by_cases h : Lasting v
  · rw [remember_of_lasting h]
  · rw [remember_of_not_lasting h]

@[simp] theorem remember_depth {v : Value} : (s.remember a v).depth = s.depth := by
  by_cases h : Lasting v
  · rw [remember_of_lasting h]
  · rw [remember_of_not_lasting h]

@[simp] theorem remember_evaluations {v : Value} :
    (s.remember a v).evaluations = s.evaluations := by
  by_cases h : Lasting v
  · rw [remember_of_lasting h]
  · rw [remember_of_not_lasting h]

/-- What is remembered was remembered before, or is the new value. -/
theorem getElem?_remember {u v : Value} (h : (s.remember a v).memo[b]? = some u) :
    s.memo[b]? = some u ∨ (b = a ∧ u = v ∧ Lasting v) := by
  by_cases hv : Lasting v
  · rw [remember_of_lasting hv, Std.HashMap.getElem?_insert] at h
    split at h
    · next hab => exact .inr ⟨(eq_of_beq hab).symm, (Option.some.inj h).symm, hv⟩
    · exact .inl h
  · rw [remember_of_not_lasting hv] at h
    exact .inl h

/-- Nothing else is forgotten or changed. -/
theorem getElem?_remember_of_ne {v : Value} (h : b ≠ a) :
    (s.remember a v).memo[b]? = s.memo[b]? := by
  by_cases hv : Lasting v
  · rw [remember_of_lasting hv, Std.HashMap.getElem?_insert, if_neg]
    exact fun hab => h (eq_of_beq hab).symm
  · rw [remember_of_not_lasting hv]

theorem size_remember_le {v : Value} : (s.remember a v).memo.size ≤ s.memo.size + 1 := by
  by_cases hv : Lasting v
  · rw [remember_of_lasting hv]
    exact Std.HashMap.size_insert_le
  · rw [remember_of_not_lasting hv]
    exact Nat.le_succ _

/-! ## The cells that were entered -/

/-- No cell was entered twice: the cells that were entered are different ones with `Q`, each of them
still on the way or remembered. -/
def EnteredOnce (Q : Address → Prop) (way : List Address) (s : Session) : Prop :=
  ∃ cells : List Address, cells.Nodup ∧ cells.length = s.evaluations ∧
    ∀ c ∈ cells, Q c ∧ (c ∈ way ∨ s.memo[c]? ≠ none)

namespace EnteredOnce

variable {Q : Address → Prop} {way : List Address}

theorem start : EnteredOnce Q way {} :=
  ⟨[], List.nodup_nil, rfl, nofun⟩

/-- A cell that is neither on the way nor remembered is a new one. -/
theorem enter (h : s.EnteredOnce Q way) (ha : Q a) (hm : s.memo[a]? = none) (hv : a ∉ way) :
    (s.enter a).EnteredOnce Q (a :: way) := by
  obtain ⟨cells, hnodup, hlen, hcells⟩ := h
  have hnew : a ∉ cells := fun hmem => (hcells a hmem).2.elim hv (absurd hm)
  refine ⟨a :: cells, List.nodup_cons.mpr ⟨hnew, hnodup⟩, congrArg (· + 1) hlen, fun c hc => ?_⟩
  rcases List.mem_cons.mp hc with rfl | hc
  · exact ⟨ha, .inl List.mem_cons_self⟩
  · exact ⟨(hcells c hc).1, (hcells c hc).2.imp_left (List.mem_cons_of_mem a)⟩

/-- A cell leaves the way to be remembered. -/
theorem leave {v : Value} (h : s.EnteredOnce Q (a :: way)) (hv : Lasting v) :
    ((s.leave a).remember a v).EnteredOnce Q way := by
  obtain ⟨cells, hnodup, hlen, hcells⟩ := h
  refine ⟨cells, hnodup, by rw [remember_evaluations]; exact hlen, fun c hc => ?_⟩
  obtain ⟨hQ, hc⟩ := hcells c hc
  refine ⟨hQ, ?_⟩
  rw [remember_of_lasting hv]
  show c ∈ way ∨ (s.memo.insert a v)[c]? ≠ none
  rw [Std.HashMap.getElem?_insert]
  split
  · exact .inr nofun
  · next hne =>
    refine hc.imp_left fun hc => (List.mem_cons.mp hc).resolve_left ?_
    rintro rfl
    exact hne (beq_self_eq_true c)

end EnteredOnce

end Session

namespace Cell

open Session

/-! ## Looking at a cell -/

variable {deeper : Option (Address → Eval Value)}

theorem valueWith_apply : valueWith w deeper a s =
    (match w.grid a with
    | none => pure (.error .ref)
    | some .blank => pure .empty
    | some (.literal v) => pure v
    | some (.formula source) => guarded w deeper a source : Eval Value) (s.looked a) := rfl

/-- A cell without a formula is worth what it is worth without a session. -/
theorem valueWith_of_not_isFormula (h : ¬w.IsFormula a) (f : Address → Value) :
    valueWith w deeper a s = (Cell.valueFrom w f a, s.looked a) := by
  rw [valueWith_apply, Cell.valueFrom]
  cases hg : w.grid a with
  | none => rfl
  | some c =>
    cases c with
    | blank => rfl
    | literal v => rfl
    | formula source => exact absurd ⟨source, hg⟩ h

theorem valueWith_of_formula {source : String} (h : w.grid a = some (.formula source)) :
    valueWith w deeper a s = guarded w deeper a source (s.looked a) := by
  rw [valueWith_apply, h]

/-! ## At a formula cell -/

/-- What can come of asking for a formula cell, in the order of the guards. -/
inductive Guarded (w : Setting) (deeper : Option (Address → Eval Value)) (a : Address)
    (source : String) (s : Session) : Value × Session → Prop where
  | remembered {v : Value} (hm : s.memo[a]? = some v) : Guarded w deeper a source s (v, s)
  | cycle (hm : s.memo[a]? = none) (hv : a ∈ s.visiting) :
      Guarded w deeper a source s (.error .cycle, s)
  | depth (hm : s.memo[a]? = none) (hv : a ∉ s.visiting) (hd : deeper = none) :
      Guarded w deeper a source s (.error .depth, s)
  | budget (hm : s.memo[a]? = none) (hv : a ∉ s.visiting)
      (hb : w.limits.maxEvaluations ≤ s.evaluations) : Guarded w deeper a source s (.error .calc, s)
  | computed {read : Address → Eval Value} (hm : s.memo[a]? = none) (hv : a ∉ s.visiting)
      (hd : deeper = some read) (hb : s.evaluations < w.limits.maxEvaluations) :
      Guarded w deeper a source s (compute w read a source s)

theorem guarded_apply {source : String} : guarded w deeper a source s =
    (match s.memo[a]? with
    | some v => pure v
    | none =>
      if s.isVisiting a then pure (.error .cycle) else
      match deeper with
      | none => pure (.error .depth)
      | some read =>
        if w.limits.maxEvaluations ≤ s.evaluations then pure (.error .calc)
        else compute w read a source : Eval Value) s := rfl

theorem guarded_spec (w : Setting) (deeper : Option (Address → Eval Value)) (a : Address)
    (source : String) (s : Session) :
    Guarded w deeper a source s (guarded w deeper a source s) := by
  rw [guarded_apply]
  cases hm : s.memo[a]? with
  | some v => exact .remembered hm
  | none =>
    by_cases hv : s.isVisiting a
    · simp only [hv, if_true]
      exact .cycle hm (isVisiting_iff.mp hv)
    · rw [isVisiting_iff] at hv
      simp only [isVisiting_iff, hv, if_false]
      cases deeper with
      | none => exact .depth hm hv rfl
      | some read =>
        by_cases hb : w.limits.maxEvaluations ≤ s.evaluations
        · simp only [hb, if_true]
          exact .budget hm hv hb
        · simp only [hb, if_false]
          exact .computed hm hv rfl (Nat.lt_of_not_le hb)

/-- A formula cell is computed behind all guards, or the session stays as it was. -/
theorem guarded_session (w : Setting) (deeper : Option (Address → Eval Value)) (a : Address)
    (source : String) (s : Session) : (guarded w deeper a source s).2 = s ∨
      ∃ read, deeper = some read ∧ s.memo[a]? = none ∧ a ∉ s.visiting ∧
        s.evaluations < w.limits.maxEvaluations ∧
        guarded w deeper a source s = compute w read a source s := by
  have hspec := guarded_spec w deeper a source s
  generalize guarded w deeper a source s = r at hspec ⊢
  cases hspec with
  | remembered => exact .inl rfl
  | cycle => exact .inl rfl
  | depth => exact .inl rfl
  | budget => exact .inl rfl
  | @computed read hm hv hd hb => exact .inr ⟨read, hd, hm, hv, hb, rfl⟩

/-- A formula cell that no guard stops is computed. -/
theorem guarded_eq_compute {read : Address → Eval Value} {source : String}
    (hm : s.memo[a]? = none) (hv : a ∉ s.visiting) (hb : s.evaluations < w.limits.maxEvaluations) :
    guarded w (some read) a source s = compute w read a source s := by
  have hvisit : ¬s.isVisiting a = true := fun h => hv (isVisiting_iff.mp h)
  have hbudget : ¬w.limits.maxEvaluations ≤ s.evaluations := Nat.not_le_of_lt hb
  rw [guarded_apply]
  simp only [hm, hvisit, hbudget, Bool.false_eq_true, if_false]

theorem valueWith_of_remembered {v : Value} (h : w.IsFormula a) (hm : s.memo[a]? = some v) :
    valueWith w deeper a s = (v, s.looked a) := by
  obtain ⟨source, hg⟩ := h
  rw [valueWith_of_formula hg, guarded_apply]
  simp only [looked_memo, hm]
  rfl

theorem compute_apply {read : Address → Eval Value} {source : String} :
    compute w read a source s =
      ((formulaValue w read source (s.enter a)).1,
        ((formulaValue w read source (s.enter a)).2.leave a).remember a
          (formulaValue w read source (s.enter a)).1) := rfl

/-! ## The value of a formula -/

theorem formulaValue_of_error {m : Type → Type} [Monad m] {read : Address → m Value}
    {source : String} {x : FormulaError}
    (h : Expr.ofText w.limits.maxNesting source = .error x) :
    formulaValue w read source = pure (.error x.toCellError) := by
  rw [formulaValue, h]

theorem formulaValue_of_ok {m : Type → Type} [Monad m] [LawfulMonad m] {read : Address → m Value}
    {source : String} {e : Expr} (h : Expr.ofText w.limits.maxNesting source = .ok e) :
    formulaValue w read source = finalize <$> e.value w read := by
  rw [formulaValue, h, map_eq_pure_bind]

/-- Where cells are read without an effect, a formula is one step of the values of cells. -/
theorem formulaValue_pure {m : Type → Type} [Monad m] [LawfulMonad m] (f : Address → Value)
    {source : String} (h : w.grid a = some (.formula source)) :
    formulaValue w (fun b => (pure (f b) : m Value)) source = pure (Cell.valueFrom w f a) := by
  cases he : Expr.ofText w.limits.maxNesting source with
  | error x =>
    rw [formulaValue_of_error he]
    simp only [Cell.valueFrom, h, he]
  | ok e =>
    rw [formulaValue_of_ok he, e.value_pure, map_pure]
    simp only [Cell.valueFrom, h, he]

/-! ## With a given room -/

/-- Deeper on the way there is room for one cell less. -/
theorem value_eq_valueWith (w : Setting) (room : Nat) :
    ∃ deeper, Cell.value w room = valueWith w deeper ∧
      ∀ read, deeper = some read → ∃ n, room = n + 1 ∧ read = Cell.value w n := by
  cases room with
  | zero => exact ⟨none, rfl, nofun⟩
  | succ n =>
    refine ⟨some (Cell.value w n), rfl, fun read hread => ?_⟩
    cases hread
    exact ⟨n, rfl, rfl⟩

theorem value_of_not_isFormula (room : Nat) (h : ¬w.IsFormula a) (f : Address → Value) :
    Cell.value w room a s = (Cell.valueFrom w f a, s.looked a) := by
  cases room <;> exact valueWith_of_not_isFormula h f

theorem value_of_remembered (room : Nat) {v : Value} (h : w.IsFormula a)
    (hm : s.memo[a]? = some v) : Cell.value w room a s = (v, s.looked a) := by
  cases room <;> exact valueWith_of_remembered h hm

theorem value_of_mem_visiting (room : Nat) (h : w.IsFormula a) (hm : s.memo[a]? = none)
    (hv : a ∈ s.visiting) : Cell.value w room a s = (.error .cycle, s.looked a) := by
  obtain ⟨source, hg⟩ := h
  have hvisit : (s.looked a).isVisiting a = true := isVisiting_iff.mpr hv
  cases room <;>
  · rw [Cell.value, valueWith_of_formula hg, guarded_apply]
    simp only [looked_memo, hm, hvisit, if_true]
    rfl

/-- Behind all guards the expression is evaluated with the cell on the way. -/
theorem value_succ_of_holds (room : Nat) {e : Expr} (h : w.Holds a e) (hm : s.memo[a]? = none)
    (hv : a ∉ s.visiting) (hb : s.evaluations < w.limits.maxEvaluations) :
    Cell.value w (room + 1) a s =
      (finalize (e.value w (Cell.value w room) ((s.looked a).enter a)).1,
        ((e.value w (Cell.value w room) ((s.looked a).enter a)).2.leave a).remember a
          (finalize (e.value w (Cell.value w room) ((s.looked a).enter a)).1)) := by
  obtain ⟨source, hg, he⟩ := h
  have hm' : (s.looked a).memo[a]? = none := hm
  rw [Cell.value, valueWith_of_formula hg, guarded_eq_compute hm' hv hb, compute_apply,
    formulaValue_of_ok he]
  rfl

end Cell

/-- The right side of an operator is computed in the session that the left side leaves. -/
theorem Session.evaluate_binary (op : BinaryOp) (l r : Expr) : evaluate w (.binary op l r) s =
    Expr.afterLeft w op (evaluate w l s).1 (r.value w (Cell.value w (s.room w)))
      (evaluate w l s).2 := by
  rw [evaluate, Expr.value_binary]
  rfl

end Spreadsheet
