import Spreadsheet.Proofs.Strict
import Mathlib.Data.List.Forall2

/-!
# What the first error hides

Two lists of arguments with the same first error give the same result, and what stands behind that
error may differ. This is the only reason why a value that depends on the way to a cell can do so
little harm. Some errors are called stray in what follows: they may stand on the left where
something else stands on the right.

Results:
1. `Alike.unary`, `Alike.binary`, `Alike.call`: from lists that are alike an operation makes values
   that are near, that is, the same value or a stray error on the left;
2. `Close.finalize`: finishing a formula makes values near whose parts are near.
-/

namespace Spreadsheet

open Value Formula

variable {stray : CellError → Prop} {u v : Value} {us vs : List Value}

/-! ## Near values -/

/-- The same value, or a stray error on the left. -/
def Near (stray : CellError → Prop) (u v : Value) : Prop :=
  u = v ∨ ∃ x, stray x ∧ u = .error x

/-- Near, or lists of values that are near. -/
inductive Close (stray : CellError → Prop) : Value → Value → Prop where
  | near {u v : Value} (h : Near stray u v) : Close stray u v
  | array {us vs : List Value} (h : List.Forall₂ (Near stray) us vs) :
      Close stray (.array us) (.array vs)

theorem Near.refl (v : Value) : Near stray v v :=
  .inl rfl

theorem Near.of_stray {x : CellError} (h : stray x) : Near stray (.error x) v :=
  .inr ⟨x, h, rfl⟩

theorem Near.finalize (h : Near stray u v) : Near stray (finalize u) (finalize v) := by
  rcases h with rfl | ⟨x, hx, rfl⟩
  · exact .refl _
  · exact .of_stray hx

theorem Near.mono {stray' : CellError → Prop} (hs : ∀ x, stray x → stray' x)
    (h : Near stray u v) : Near stray' u v :=
  h.imp_right fun ⟨x, hx, hu⟩ => ⟨x, hs x hx, hu⟩

theorem Close.finalize (h : Close stray u v) : Near stray (finalize u) (finalize v) := by
  cases h with
  | near h => exact h.finalize
  | array h =>
    match h with
    | .nil => exact .refl _
    | .cons h .nil =>
      rw [finalize_singleton, finalize_singleton]
      exact h.finalize
    | .cons _ (.cons _ _) =>
      rw [finalize_of_length (by simp), finalize_of_length (by simp)]
      exact .refl _

/-- Close values are equal unless a stray error stands somewhere on the left. -/
theorem Close.eq_or_mem_leaves (h : Close stray u v) :
    u = v ∨ ∃ x, stray x ∧ .error x ∈ u.leaves := by
  cases h with
  | near h =>
    refine h.imp_right fun ⟨x, hx, hu⟩ => ⟨x, hx, ?_⟩
    rw [hu]
    exact List.mem_singleton.mpr rfl
  | array h =>
    induction h with
    | nil => exact .inl rfl
    | cons hu _ ih =>
      rcases hu with rfl | ⟨x, hx, rfl⟩
      · rcases ih with heq | ⟨x, hx, hmem⟩
        · exact .inl (by rw [Value.array.inj heq])
        · exact .inr ⟨x, hx, List.mem_append_right _ hmem⟩
      · exact .inr ⟨x, hx, List.mem_append_left _ (List.mem_singleton.mpr rfl)⟩

/-! ## Lists that are alike -/

/-- The same lists, or lists whose first errors are the same, or a stray error first on the
left. -/
def Alike (stray : CellError → Prop) (us vs : List Value) : Prop :=
  us = vs ∨ ∃ x, firstError? us = some x ∧ (stray x ∨ firstError? vs = some x)

namespace Alike

theorem refl (vs : List Value) : Alike stray vs vs :=
  .inl rfl

/-- Behind a first error on the left the lists may differ. -/
theorem cons (h : Alike stray [u] [v]) (hs : u.fault? = none → Alike stray us vs) :
    Alike stray (u :: us) (v :: vs) := by
  rcases h with heq | ⟨x, hu, hx⟩
  · obtain rfl : u = v := by simpa using heq
    cases hf : u.fault? with
    | some x =>
      have hfirst : ∀ ws, firstError? (u :: ws) = some x := by simp [firstError?_cons, hf]
      exact .inr ⟨x, hfirst us, .inr (hfirst vs)⟩
    | none =>
      rcases hs hf with rfl | ⟨x, hus, hx⟩
      · exact .refl _
      · exact .inr ⟨x, by simp [firstError?_cons, hf, hus], hx.imp_right fun hvs => by
          simp [firstError?_cons, hf, hvs]⟩
  · change u.fault? = some x at hu
    refine .inr ⟨x, by simp [firstError?_cons, hu], hx.imp_right fun hv => ?_⟩
    change v.fault? = some x at hv
    simp [firstError?_cons, hv]

theorem of_forall₂ (h : List.Forall₂ (fun u v => Alike stray [u] [v]) us vs) :
    Alike stray us vs := by
  induction h with
  | nil => exact .refl _
  | cons h _ ih => exact h.cons fun _ => ih

theorem array (h : Alike stray us vs) : Alike stray [.array us] [.array vs] := by
  refine h.imp (fun heq => by rw [heq]) fun ⟨x, hus, hx⟩ => ⟨x, ?_, hx.imp_right fun hvs => ?_⟩
  · exact (fault?_array us).trans hus
  · exact (fault?_array vs).trans hvs

/-- A strict operation cannot tell lists apart that are alike, but for the stray errors. -/
theorem apply (op : List Value → Value) (h : Alike stray us vs)
    (hu : ∀ x, firstError? us = some x → op us = .error x)
    (hv : ∀ x, firstError? vs = some x → op vs = .error x) : Near stray (op us) (op vs) := by
  rcases h with rfl | ⟨x, hus, hx | hvs⟩
  · exact .refl _
  · exact .inr ⟨x, hx, hu x hus⟩
  · exact .inl ((hu x hus).trans (hv x hvs).symm)

theorem unary (op : UnaryOp) (h : Alike stray [u] [v]) : Near stray (op.apply u) (op.apply v) :=
  h.apply (fun vs => op.apply (vs.headD .empty)) (fun _ hx => op.apply_of_fault hx)
    fun _ hx => op.apply_of_fault hx

theorem binary {u' v' : Value} (op : BinaryOp) (limits : Limits)
    (h : Alike stray [u, u'] [v, v']) :
    Near stray (op.apply limits u u') (op.apply limits v v') :=
  h.apply (fun vs => op.apply limits (vs.headD .empty) (vs.tail.headD .empty))
    (op.apply_strict limits u u') (op.apply_strict limits v v')

theorem call {d : FunctionDef} (hd : d.Strict) (limits : Limits) (hc : d.accepts us.length = true)
    (hlen : us.length = vs.length) (h : Alike stray us vs) :
    Near stray (d.implementation limits us) (d.implementation limits vs) :=
  h.apply (d.implementation limits) (fun x => hd limits us x hc)
    fun x => hd limits vs x (hlen ▸ hc)

end Alike

theorem Near.alike (h : Near stray u v) : Alike stray [u] [v] := by
  rcases h with rfl | ⟨x, hx, rfl⟩
  · exact .refl _
  · exact .inr ⟨x, rfl, .inl hx⟩

theorem Close.alike (h : Close stray u v) : Alike stray [u] [v] := by
  cases h with
  | near h => exact h.alike
  | array h => exact (Alike.of_forall₂ (h.imp fun _ _ h => h.alike)).array

/-- An error on the right is an error on the left, if perhaps another one. -/
theorem Close.fault?_ne_none (h : Close stray u v) (hv : v.fault? ≠ none) : u.fault? ≠ none := by
  rcases h.alike with heq | ⟨x, hx, -⟩
  · cases heq
    exact hv
  · exact Option.ne_none_iff_exists'.mpr ⟨x, hx⟩

end Spreadsheet
