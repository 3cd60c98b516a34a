import Spreadsheet.Proofs.Masking
import Spreadsheet.Proofs.Expression

/-!
# Two evaluations in lockstep

An expression may be evaluated by two computations with different states, one of which remembers
more than the other. They go in lockstep as long as no error is met. With the first error they may
part, since a cell read behind it can be worth different things to them; but that error decides the
value for both.

The computation on the right may give up, and what it says then is of no interest. `lost` marks the
states in which it has; a state that is lost stays so.

Results:
1. `Lockstep.mapM`, `Lockstep.map`: lockstep through lists and operations;
2. `Lockstep.value`: expressions are in lockstep where the cells are that they name;
3. `Lockstep.formulaValue`: so are the formulas of cells.
-/

namespace Spreadsheet

open Formula

/-! ## Values that cannot be told apart -/

/-- The same first error, if not the same value, and the same value of the finished formula. -/
def Same (u v : Value) : Prop :=
  Alike (fun _ => False) [u] [v] ∧ finalize u = finalize v

/-- The same for two lists of `n` values. -/
structure SameList (n : Nat) (us vs : List Value) : Prop where
  alike : Alike (fun _ => False) us vs
  length_left : us.length = n
  length_right : vs.length = n
  finalize_eq : finalize (.array us) = finalize (.array vs)

theorem Same.refl (v : Value) : Same v v :=
  ⟨.refl _, rfl⟩

theorem Near.eq {u v : Value} (h : Near (fun _ => False) u v) : u = v :=
  h.resolve_right fun ⟨_, hx, _⟩ => hx

theorem Same.fault?_eq {u v : Value} (h : Same u v) : u.fault? = v.fault? := by
  rcases h.1 with heq | ⟨x, hu, hx⟩
  · cases heq
    rfl
  · exact hu.trans (hx.resolve_left id).symm

theorem SameList.cons {n : Nat} {u v : Value} {us vs : List Value} (h : Same u v)
    (hu : us.length = n) (hv : vs.length = n) (hs : u.fault? = none → SameList n us vs) :
    SameList (n + 1) (u :: us) (v :: vs) where
  alike := h.1.cons fun hclean => (hs hclean).alike
  length_left := congrArg (· + 1) hu
  length_right := congrArg (· + 1) hv
  finalize_eq := by
    match us, vs, hu.trans hv.symm with
    | [], [], _ => rw [finalize_singleton, finalize_singleton, h.2]
    | _ :: _, _ :: _, _ => rw [finalize_of_length (by simp), finalize_of_length (by simp)]

theorem SameList.array {n : Nat} {us vs : List Value} (h : SameList n us vs) :
    Same (.array us) (.array vs) :=
  ⟨h.alike.array, h.finalize_eq⟩

/-! ## Lockstep -/

variable {σ τ α β : Type}

/-- From related states the two computations give related results, and states that are related
again if the result is clean, unless the one on the right is lost. -/
structure Lockstep (R : σ → τ → Prop) (lost : τ → Prop) (M : α → α → Prop) (clean : α → Prop)
    (x : StateM σ α) (y : StateM τ α) : Prop where
  keeps : ∀ t, lost t → lost (y t).2
  agree : ∀ s t, R s t → ¬lost (y t).2 →
    M (x s).1 (y t).1 ∧ (clean (y t).1 → R (x s).2 (y t).2)

/-- Lockstep to the same value, clean where it holds no error. -/
abbrev Together (R : σ → τ → Prop) (lost : τ → Prop) (x : StateM σ Value) (y : StateM τ Value) :
    Prop :=
  Lockstep R lost (· = ·) (·.fault? = none) x y

theorem length_mapM_state (f : β → StateM σ α) (bs : List β) (s : σ) :
    (bs.mapM f s).1.length = bs.length := by
  induction bs generalizing s with
  | nil => rfl
  | cons b bs ih =>
    rw [List.mapM_cons]
    exact congrArg (· + 1) (ih (f b s).2)

namespace Lockstep

variable {R : σ → τ → Prop} {lost : τ → Prop} {M : α → α → Prop} {clean : α → Prop}

theorem pure {a b : α} (h : M a b) : Lockstep R lost M clean (pure a) (pure b) where
  keeps _ ht := ht
  agree _ _ hst _ := ⟨h, fun _ => hst⟩

theorem map {M' : β → β → Prop} {clean' : β → Prop} {f : α → β} {x : StateM σ α} {y : StateM τ α}
    (h : Lockstep R lost M clean x y) (hM : ∀ a b, M a b → M' (f a) (f b))
    (hclean : ∀ a b, M a b → clean' (f b) → clean b) :
    Lockstep R lost M' clean' (f <$> x) (f <$> y) where
  keeps t ht := h.keeps t ht
  agree s t hst hlost := by
    obtain ⟨hab, hclose⟩ := h.agree s t hst hlost
    exact ⟨hM _ _ hab, fun hb => hclose (hclean _ _ hab hb)⟩

theorem same {x : StateM σ Value} {y : StateM τ Value} (h : Together R lost x y) :
    Lockstep R lost Same (·.fault? = none) x y where
  keeps := h.keeps
  agree s t hst hlost := by
    obtain ⟨heq, hclose⟩ := h.agree s t hst hlost
    exact ⟨heq ▸ .refl _, hclose⟩

/-- Lists are in lockstep item by item, up to the first error. -/
theorem mapM {f : β → StateM σ Value} {g : β → StateM τ Value} {bs : List β}
    (h : ∀ b ∈ bs, Lockstep R lost Same (·.fault? = none) (f b) (g b)) :
    Lockstep R lost (SameList bs.length) (Value.firstError? · = none) (bs.mapM f) (bs.mapM g) := by
  induction bs with
  | nil => exact pure ⟨.refl [], rfl, rfl, rfl⟩
  | cons b bs ih =>
    have hb := h b (by simp)
    have hbs := ih fun c hc => h c (by simp [hc])
    rw [List.mapM_cons, List.mapM_cons]
    constructor
    · intro t ht
      exact hbs.keeps _ (hb.keeps t ht)
    · intro s t hst hlost
      have hhead : ¬lost (g b t).2 := fun ht => hlost (hbs.keeps _ ht)
      obtain ⟨hsame, hrel⟩ := hb.agree s t hst hhead
      have htail := fun hclean => hbs.agree (f b s).2 (g b t).2 (hrel hclean) hlost
      refine ⟨.cons hsame (length_mapM_state f bs _) (length_mapM_state g bs _)
        fun hu => (htail (hsame.fault?_eq ▸ hu)).1, fun hclean => ?_⟩
      · change Value.firstError? ((g b t).1 :: (bs.mapM g (g b t).2).1) = none at hclean
        rw [Value.firstError?_cons, Option.or_eq_none_iff] at hclean
        exact (htail hclean.1).2 hclean.2

/-! ## Formulas -/

variable {w : Setting} {readx : Address → StateM σ Value} {ready : Address → StateM τ Value}

theorem afterLeft_of_fault (op : BinaryOp) {u : Value} {x : CellError} (hu : u.fault? = some x)
    (right : StateM σ Value) (s : σ) : (Expr.afterLeft w op u right s).1 = .error x := by
  cases u with
  | error y => exact congrArg Value.error (Option.some.inj hu)
  | array vs => exact op.apply_of_fault_left w.limits hu _
  | _ => exact nomatch hu

theorem afterLeft_of_clean (op : BinaryOp) {u : Value} (hu : u.fault? = none)
    (right : StateM σ Value) : Expr.afterLeft w op u right = op.apply w.limits u <$> right := by
  cases u with
  | error y => exact nomatch hu
  | _ => rfl

theorem afterLeft_keeps (op : BinaryOp) (v : Value) {right : StateM τ Value}
    (hright : ∀ t, lost t → lost (right t).2) (t : τ) (ht : lost t) :
    lost (Expr.afterLeft w op v right t).2 := by
  cases v with
  | error y => exact ht
  | _ => exact hright t ht

theorem binary {op : BinaryOp} {x x' : StateM σ Value} {y y' : StateM τ Value}
    (h : Lockstep R lost Same (·.fault? = none) x y)
    (h' : Lockstep R lost Same (·.fault? = none) x' y') :
    Lockstep R lost Same (·.fault? = none) (x >>= fun u => Expr.afterLeft w op u x')
      (y >>= fun v => Expr.afterLeft w op v y') where
  keeps t ht := afterLeft_keeps op _ h'.keeps _ (h.keeps t ht)
  agree s t hst hlost := by
    have hleft : ¬lost (y t).2 := fun ht => hlost (afterLeft_keeps op _ h'.keeps _ ht)
    obtain ⟨hsame, hrel⟩ := h.agree s t hst hleft
    change ¬lost (Expr.afterLeft w op (y t).1 y' (y t).2).2 at hlost
    show Same (Expr.afterLeft w op (x s).1 x' (x s).2).1
        (Expr.afterLeft w op (y t).1 y' (y t).2).1 ∧
      ((Expr.afterLeft w op (y t).1 y' (y t).2).1.fault? = none →
        R (Expr.afterLeft w op (x s).1 x' (x s).2).2 (Expr.afterLeft w op (y t).1 y' (y t).2).2)
    cases hv : (y t).1.fault? with
    | some e =>
      -- the error on the left decides for both, whether or not their right sides are computed
      rw [afterLeft_of_fault op hv, afterLeft_of_fault op (hsame.fault?_eq.trans hv)]
      exact ⟨.refl _, nofun⟩
    | none =>
      rw [afterLeft_of_clean op hv] at hlost ⊢
      rw [afterLeft_of_clean op (hsame.fault?_eq.trans hv)]
      obtain ⟨hsame', hrel'⟩ := h'.agree (x s).2 (y t).2 (hrel hv) hlost
      have heq : op.apply w.limits (x s).1 (x' (x s).2).1 =
          op.apply w.limits (y t).1 (y' (y t).2).1 :=
        ((hsame.1.cons fun _ => hsame'.1).binary op w.limits).eq
      refine ⟨?_, fun hclean => hrel' ?_⟩
      · show Same (op.apply w.limits (x s).1 _) _
        rw [heq]
        exact .refl _
      · have hboth := Value.eq_none_of_fault?_eq_none (op.apply_strict w.limits _ _) hclean
        exact Value.firstError?_eq_none_iff.mp hboth _ (by simp)

/-- Expressions are in lockstep where the cells are that they name. -/
theorem value (hw : w.functions.Strict) (e : Expr)
    (h : ∀ a ∈ e.cells, Together R lost (readx a) (ready a)) :
    Lockstep R lost Same (·.fault? = none) (e.value w readx) (e.value w ready) := by
  induction e using Expr.induction with
  | literal v => exact pure (.refl v)
  | cell r => exact (h r.address (by simp [Expr.cells_cell])).same
  | range r =>
    rw [Expr.cells_range] at h
    rw [Expr.value_range, Expr.value_range]
    split
    · exact pure (.refl _)
    · exact (mapM fun a ha => (h a ha).same).map (fun _ _ => SameList.array) fun _ vs _ hvs =>
        (Value.fault?_array vs).symm.trans hvs
  | unary op e ih =>
    rw [Expr.cells_unary] at h
    rw [Expr.value_unary, Expr.value_unary]
    refine (ih h).map (fun u v huv => ?_) fun u v _ hv => ?_
    · rw [(huv.1.unary op).eq]
      exact .refl _
    · exact Value.eq_none_of_fault?_eq_none (fun _ => op.apply_of_fault) hv
  | binary op l r ihl ihr =>
    rw [Expr.value_binary, Expr.value_binary]
    exact binary (ihl fun a ha => h a (Expr.mem_cells_binary.mpr (.inl ha)))
      (ihr fun a ha => h a (Expr.mem_cells_binary.mpr (.inr ha)))
  | call name args ih =>
    rw [Expr.value_call, Expr.value_call]
    split
    · exact pure (.refl _)
    · next d hd =>
      split
      · next hc =>
        have hargs := mapM fun e he => ih e he fun a ha =>
          h a (Expr.mem_cells_call.mpr ⟨e, he, ha⟩)
        refine hargs.map (fun us vs hs => ?_) fun us vs hs hv => ?_
        · rw [(hs.alike.call (hw name d hd) w.limits (hs.length_left ▸ hc)
            (hs.length_left.trans hs.length_right.symm)).eq]
          exact .refl _
        · exact Value.eq_none_of_fault?_eq_none
            (fun x => hw name d hd w.limits vs x (hs.length_right ▸ hc)) hv
      · exact pure (.refl _)

/-- The formulas of a cell are in lockstep, and their values are the same. -/
theorem formulaValue (hw : w.functions.Strict) {a : Address} {source : String}
    (hg : w.grid a = some (.formula source))
    (h : ∀ e, w.Holds a e → ∀ b ∈ e.cells, Together R lost (readx b) (ready b)) :
    Together R lost (Cell.formulaValue w readx source) (Cell.formulaValue w ready source) := by
  unfold Cell.formulaValue
  split
  · exact pure rfl
  · next e he =>
    rw [← map_eq_pure_bind, ← map_eq_pure_bind]
    exact (value hw e (h e ⟨source, hg, he⟩)).map (fun _ _ huv => huv.2)
      fun _ _ _ => fault?_of_fault?_finalize

end Lockstep

end Spreadsheet
