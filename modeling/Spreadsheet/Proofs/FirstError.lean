import Spreadsheet.Proofs.Lockstep
import Spreadsheet.Proofs.Reading
import Spreadsheet.Proofs.Steady

/-!
# Up to the first error

An evaluation is ordinary business until it meets its first error, and that error is its result.
So two things need to be said of an evaluation only: what is kept as long as no error is met, and
what the first error tells. `UntilError` says both, and beside them that the same evaluation under
wider limits does the same thing as long as no error is met.

An operation finds only ordinary errors by itself, and the errors of the three guards are none of
these. They come from the cells.

Results:
1. `UntilError.map` to `UntilError.binary`: rules for the parts of an evaluation;
2. `UntilError.value`, `UntilError.formulaValue`: expressions and the formulas of cells.
-/

namespace Spreadsheet

open Value Formula

/-- The error of one of the guards of a formula cell. -/
def CellError.IsGuard : CellError → Prop
  | .cycle | .depth | .calc => True
  | _ => False

theorem CellError.IsOrdinary.not_isGuard {x : CellError} (h : x.IsOrdinary) : ¬x.IsGuard := by
  rcases h with rfl | rfl | rfl <;> exact id

/-- The same grid and the same functions under limits that are at least as wide. -/
structure Setting.Widens (w w' : Setting) : Prop where
  grid : w'.grid = w.grid
  functions : w'.functions = w.functions
  limits : w.limits.AtMost w'.limits

/-- A finished formula is worth the first error in its value, or `#VALUE!` where that is no list of
one value. -/
theorem fault?_finalize : ∀ {v : Value} {x : CellError}, (finalize v).fault? = some x →
    x = .value ∨ v.fault? = some x
  | .array [], _, h => .inl (Option.some.inj h).symm
  | .array [v], x, h => by
    rw [finalize_singleton] at h
    rw [fault?_array, firstError?_cons, firstError?_nil, Option.or_none]
    exact fault?_finalize h
  | .array (_ :: _ :: _), _, h => .inl (Option.some.inj h).symm
  | .error _, _, h => .inr h
  | .empty, _, h | .bool _, _, h | .int _, _, h | .float _, _, h | .text _, _, h => nomatch h

theorem Setting.Widens.refl (w : Setting) : w.Widens w :=
  ⟨rfl, rfl, .refl _⟩

variable {σ α β : Type}

/-- As long as the first computation meets no error it keeps `P`, and the second one does the same.
The first error that it meets has the cause `Cause`. -/
structure UntilError (P : σ → Prop) (Cause : CellError → Prop) (first : α → Option CellError)
    (x y : StateM σ α) : Prop where
  keeps : ∀ s, P s → first (x s).1 = none → P (x s).2 ∧ y s = x s
  cause : ∀ s e, P s → first (x s).1 = some e → Cause e

namespace UntilError

variable {P : σ → Prop} {Cause : CellError → Prop}

/-! ## The parts of an evaluation -/

section

variable {first : α → Option CellError} {first' : β → Option CellError} {x y : StateM σ α}

theorem pure {a : α} (h : first a = none) :
    UntilError P Cause first (pure a : StateM σ α) (pure a) where
  keeps _ hs _ := ⟨hs, rfl⟩
  cause _ _ _ he := nomatch h.symm.trans he

/-- Behind an error nothing is asked of the second computation. -/
theorem error {e : CellError} (he : Cause e) (y : StateM σ Value) :
    UntilError P Cause fault? (Pure.pure (Value.error e)) y where
  keeps _ _ hclean := nomatch (hclean : some e = none)
  cause _ e' _ hfault := by
    obtain rfl : e = e' := Option.some.inj hfault
    exact he

theorem map {f f' : α → β} (h : UntilError P Cause first x y)
    (hclean : ∀ s, first' (f (x s).1) = none → first (x s).1 = none ∧ f' (x s).1 = f (x s).1)
    (hcause : ∀ s e, first' (f (x s).1) = some e → first (x s).1 = some e ∨ Cause e) :
    UntilError P Cause first' (f <$> x) (f' <$> y) where
  keeps s hs hfa := by
    obtain ⟨ha, hf⟩ := hclean s hfa
    obtain ⟨hP, hxy⟩ := h.keeps s hs ha
    refine ⟨hP, ?_⟩
    show (f' (y s).1, (y s).2) = (f (x s).1, (x s).2)
    rw [hxy, hf]
  cause s e hs he := by
    rcases hcause s e he with ha | hc
    · exact h.cause s e hs ha
    · exact hc

/-- A strict operation whose arguments have `Q` hands on the first error, and finds only ordinary
ones by itself. -/
theorem operation {Q : α → Prop} {op op' : α → Value}
    (hordinary : ∀ e : CellError, e.IsOrdinary → Cause e)
    (hstrict : ∀ a e, Q a → first a = some e → op a = .error e)
    (hown : ∀ a, first a = none → (op a).IsOrdinary)
    (hsteady : ∀ a, (op a).fault? = none → op' a = op a) (hfit : ∀ s, Q (x s).1)
    (h : UntilError P Cause first x y) : UntilError P Cause fault? (op <$> x) (op' <$> y) := by
  refine h.map (fun s hclean => ⟨?_, hsteady _ hclean⟩) fun s e he => ?_
  · exact eq_none_of_fault?_eq_none (fun e => hstrict _ e (hfit s)) hclean
  · cases ha : first (x s).1 with
    | some e' =>
      rw [hstrict _ e' (hfit s) ha] at he
      exact .inl he
    | none =>
      right
      rcases hown _ ha with hclean | ⟨e', he', hop⟩
      · exact nomatch hclean.symm.trans he
      · rw [hop] at he
        obtain rfl : e' = e := Option.some.inj he
        exact hordinary _ he'

end

/-- The first error of a list is that of the first value that holds one. -/
theorem mapM {f g : β → StateM σ Value} {bs : List β}
    (h : ∀ b ∈ bs, UntilError P Cause fault? (f b) (g b)) :
    UntilError P Cause firstError? (bs.mapM f) (bs.mapM g) := by
  induction bs with
  | nil => exact pure rfl
  | cons b bs ih =>
    have hb := h b (by simp)
    have hbs := ih fun c hc => h c (by simp [hc])
    rw [List.mapM_cons, List.mapM_cons]
    constructor
    · intro s hs hclean
      change firstError? ((f b s).1 :: (bs.mapM f (f b s).2).1) = none at hclean
      rw [firstError?_cons, Option.or_eq_none_iff] at hclean
      obtain ⟨hP, hfg⟩ := hb.keeps s hs hclean.1
      obtain ⟨hP', hfg'⟩ := hbs.keeps _ hP hclean.2
      refine ⟨hP', ?_⟩
      show ((g b s).1 :: (bs.mapM g (g b s).2).1, (bs.mapM g (g b s).2).2) =
        ((f b s).1 :: (bs.mapM f (f b s).2).1, (bs.mapM f (f b s).2).2)
      rw [hfg, hfg']
    · intro s e hs he
      change firstError? ((f b s).1 :: (bs.mapM f (f b s).2).1) = some e at he
      rw [firstError?_cons] at he
      cases hfault : (f b s).1.fault? with
      | some e' =>
        rw [hfault] at he
        exact Option.some.inj he ▸ hb.cause s e' hs hfault
      | none =>
        rw [hfault] at he
        exact hbs.cause _ e (hb.keeps s hs hfault).1 he

/-! ## Formulas -/

variable {w w' : Setting}

theorem binary (hordinary : ∀ e : CellError, e.IsOrdinary → Cause e)
    (hww : w.Widens w') (op : BinaryOp) {x x' y y' : StateM σ Value}
    (h : UntilError P Cause fault? x y) (h' : UntilError P Cause fault? x' y') :
    UntilError P Cause fault? (x >>= fun u => Expr.afterLeft w op u x')
      (y >>= fun v => Expr.afterLeft w' op v y') := by
  -- behind a left side without an error the operator is an operation on the right side
  have hright : ∀ u, u.fault? = none → UntilError P Cause fault? (Expr.afterLeft w op u x')
      (Expr.afterLeft w' op u y') := by
    intro u hu
    have hfirst : ∀ v, firstError? [u, v] = v.fault? := by
      simp [firstError?_cons, firstError?_nil, hu]
    rw [Lockstep.afterLeft_of_clean op hu, Lockstep.afterLeft_of_clean op hu]
    exact operation (Q := fun _ => True) hordinary
      (fun v e _ hv => op.apply_strict w.limits u v e ((hfirst v).trans hv))
      (fun v hv => op.apply_isOrdinary w.limits u v hu hv)
      (fun v => op.apply_of_atMost hww.limits) (fun _ => trivial) h'
  constructor
  · intro s hs hclean
    change (Expr.afterLeft w op (x s).1 x' (x s).2).1.fault? = none at hclean
    cases hu : (x s).1.fault? with
    | some e =>
      rw [Lockstep.afterLeft_of_fault op hu] at hclean
      exact nomatch hclean
    | none =>
      obtain ⟨hP, hxy⟩ := h.keeps s hs hu
      show P (Expr.afterLeft w op (x s).1 x' (x s).2).2 ∧
        Expr.afterLeft w' op (y s).1 y' (y s).2 = Expr.afterLeft w op (x s).1 x' (x s).2
      rw [hxy]
      exact (hright _ hu).keeps _ hP hclean
  · intro s e hs he
    change (Expr.afterLeft w op (x s).1 x' (x s).2).1.fault? = some e at he
    cases hu : (x s).1.fault? with
    | some e' =>
      rw [Lockstep.afterLeft_of_fault op hu] at he
      exact Option.some.inj he ▸ h.cause s e' hs hu
    | none => exact (hright _ hu).cause _ e (h.keeps s hs hu).1 he

variable {read read' : Address → StateM σ Value}

/-- The first error that an expression meets is that of a cell, or one that is no guard's. -/
theorem value (hw : w.functions.Regular) (hww : w.Widens w')
    (hcause : ∀ e : CellError, ¬e.IsGuard → Cause e) {e : Expr} (he : e.Clean)
    (h : ∀ a ∈ e.cells, UntilError P Cause fault? (read a) (read' a)) :
    UntilError P Cause fault? (e.value w read) (e.value w' read') := by
  have hordinary : ∀ e : CellError, e.IsOrdinary → Cause e := fun e he => hcause e he.not_isGuard
  induction e using Expr.induction with
  | literal v =>
    cases he with
    | literal hv => exact pure hv
  | cell r => exact h r.address (by simp [Expr.cells_cell])
  | range r =>
    rw [Expr.cells_range] at h
    rw [Expr.value_range, Expr.value_range]
    split
    · exact error (hcause .ref id) _
    · next hsize =>
      rw [if_neg fun hlt => hsize (Nat.lt_of_le_of_lt hww.limits.maxRangeCells hlt)]
      refine (mapM h).map (fun s hvs => ⟨?_, rfl⟩) fun s e hvs => .inl ?_
      · exact (fault?_array _).symm.trans hvs
      · exact (fault?_array _).symm.trans hvs
  | unary op e ih =>
    rw [Expr.cells_unary] at h
    rw [Expr.value_unary, Expr.value_unary]
    cases he with
    | unary _ he =>
      exact operation (Q := fun _ => True) hordinary (fun v e _ => op.apply_of_fault)
        (fun v => op.apply_isOrdinary) (fun _ _ => rfl) (fun _ => trivial) (ih he h)
  | binary op l r ihl ihr =>
    rw [Expr.value_binary, Expr.value_binary]
    cases he with
    | binary _ hl hr =>
      exact binary hordinary hww op
        (ihl hl fun a ha => h a (Expr.mem_cells_binary.mpr (.inl ha)))
        (ihr hr fun a ha => h a (Expr.mem_cells_binary.mpr (.inr ha)))
  | call name args ih =>
    rw [Expr.value_call, Expr.value_call, hww.functions]
    cases hd : w.functions.find? name with
    | none => exact error (hcause (unknownFunction name) id) _
    | some d =>
      dsimp only
      split
      · next hc =>
        cases he with
        | call _ hargs =>
          have hvalues := mapM fun e he => ih e he (hargs e he) fun a ha =>
            h a (Expr.mem_cells_call.mpr ⟨e, he, ha⟩)
          refine operation (Q := fun vs => vs.length = args.length) hordinary
            (fun vs e hlen => hw.strict name d hd w.limits vs e (hlen ▸ hc))
            (fun vs => hw.ordinary name d hd w.limits vs)
            (fun vs => hw.steady name d hd w.limits w'.limits vs hww.limits)
            (length_mapM_state _ args) hvalues
      · exact error (hcause .value id) _

/-- The first error that the formula of a cell meets is that of a cell it names, or one that is no
guard's. -/
theorem formulaValue (hw : w.functions.Regular) (hww : w.Widens w')
    (hcause : ∀ e : CellError, ¬e.IsGuard → Cause e) {a : Address} {source : String}
    (hg : w.grid a = some (.formula source))
    (h : ∀ e, w.Holds a e → ∀ b ∈ e.cells, UntilError P Cause fault? (read b) (read' b)) :
    UntilError P Cause fault? (Cell.formulaValue w read source)
      (Cell.formulaValue w' read' source) := by
  cases he : Expr.ofText w.limits.maxNesting source with
  | error x =>
    rw [Cell.formulaValue_of_error he]
    exact error (hcause x.toCellError id) _
  | ok e =>
    rw [Cell.formulaValue_of_ok he,
      Cell.formulaValue_of_ok (Expr.ofText_of_le hww.limits.maxNesting he)]
    refine (value hw hww hcause (Expr.clean_of_ofText he) (h e ⟨source, hg, he⟩)).map
      (fun s hclean => ⟨fault?_of_fault?_finalize hclean, rfl⟩) fun s x hx => ?_
    rcases fault?_finalize hx with rfl | hfault
    · exact .inr (hcause .value id)
    · exact .inl hfault

end UntilError

end Spreadsheet
