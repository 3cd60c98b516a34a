import Spreadsheet.Proofs.Strict

/-!
# The errors of operations

Arguments without errors do not always make a result without one: a value does not convert, a
divisor is zero, a number is outside the domain. These are `#VALUE!`, `#DIV/0!` and `#NUM!`, and no
operation finds another error by itself. The rest tell of references, of the way to a cell or of a
text that is no formula, and an operation can only hand them on.

The body of an operation is a computation that may fail. `Yields Q x` says of both endings at once
that the result has `Q` or that the failure is an ordinary one, and it is proved along the body.

Results:
1. `yields_toNumber` to `yields_compare`: conversions fail by ordinary errors only;
2. `UnaryOp.apply_isOrdinary`, `BinaryOp.apply_isOrdinary`: so do the operators;
3. `standardEntries_ordinary`: so do all functions of the standard table;
4. `operations_hand_on_first_error`: what operations make of any arguments.
-/

namespace Spreadsheet

open Value Formula

/-! ## Ordinary errors -/

/-- The errors that an operation finds by itself. -/
def CellError.IsOrdinary (x : CellError) : Prop :=
  x = .value ∨ x = .divZero ∨ x = .num

/-- A value without errors, or an ordinary error. -/
def Value.IsOrdinary (v : Value) : Prop :=
  v.fault? = none ∨ ∃ x : CellError, x.IsOrdinary ∧ v = .error x

namespace CellError

theorem isOrdinary_value : IsOrdinary .value := .inl rfl

theorem isOrdinary_divZero : IsOrdinary .divZero := .inr (.inl rfl)

theorem isOrdinary_num : IsOrdinary .num := .inr (.inr rfl)

end CellError

open CellError

theorem Value.isOrdinary_error {x : CellError} (h : x.IsOrdinary) : (error x).IsOrdinary :=
  .inr ⟨x, h, rfl⟩

theorem Value.isOrdinary_finite (x : Float) : (finite x).IsOrdinary := by
  unfold finite
  split
  · exact .inl rfl
  · exact isOrdinary_error isOrdinary_num

/-! ## Computations that may fail -/

/-- The computation gives something with `Q`, or fails by an ordinary error. -/
def Yields {α : Type} (Q : α → Prop) : Except CellError α → Prop
  | .ok a => Q a
  | .error x => x.IsOrdinary

namespace Yields

variable {α β : Type} {Q : α → Prop} {R : β → Prop} {x : Except CellError α}

theorem pure {a : α} (h : Q a) : Yields Q (pure a) := h

theorem bind {f : α → Except CellError β} (hx : Yields Q x) (hf : ∀ a, Q a → Yields R (f a)) :
    Yields R (x >>= f) := by
  cases x with
  | ok a => exact hf a hx
  | error e => exact hx

/-- What the results are does not matter here, only how they fail. -/
theorem mapM {f : α → Except CellError β} {as : List α}
    (h : ∀ a ∈ as, Yields (fun _ => True) (f a)) : Yields (fun _ => True) (as.mapM f) := by
  induction as with
  | nil => exact pure trivial
  | cons a as ih =>
    rw [List.mapM_cons]
    refine bind (h a (by simp)) fun b _ => ?_
    refine bind (ih fun a ha => h a (by simp [ha])) fun bs _ => ?_
    exact pure trivial

theorem ofExcept {x : Except CellError Value} (h : Yields Value.IsOrdinary x) :
    (Value.ofExcept x).IsOrdinary := by
  cases x with
  | ok v => exact h
  | error e => exact isOrdinary_error h

end Yields

/-! ## Conversions -/

section Conversions

variable {u v : Value}

theorem yields_scalar : ∀ {v : Value}, v.fault? = none → Yields (·.fault? = none) v.scalar
  | .array [], _ => isOrdinary_value
  | .array [v], h => by
    rw [fault?_array, firstError?_cons, Option.or_eq_none_iff] at h
    rw [scalar]
    exact yields_scalar h.1
  | .array (_ :: _ :: _), _ => isOrdinary_value
  | .error _, h => nomatch h
  | .empty, _ | .bool _, _ | .int _, _ | .float _, _ | .text _, _ => rfl

theorem yields_toNumber (h : v.fault? = none) : Yields (fun _ => True) v.toNumber := by
  unfold toNumber
  refine (yields_scalar h).bind fun u hu => ?_
  cases u with
  | error x => exact nomatch hu
  | array vs => exact isOrdinary_value
  | text s =>
    dsimp only
    split
    · exact trivial
    · exact isOrdinary_value
  | _ => exact trivial

theorem yields_toCount (h : v.fault? = none) : Yields (fun _ => True) v.toCount := by
  unfold toCount
  refine (yields_toNumber h).bind fun x _ => ?_
  split
  · exact isOrdinary_value
  · dsimp only
    split
    · exact isOrdinary_value
    · exact trivial

theorem yields_toText (h : v.fault? = none) : Yields (fun _ => True) v.toText := by
  unfold toText
  refine (yields_scalar h).bind fun u hu => ?_
  cases u with
  | error x => exact nomatch hu
  | _ => exact trivial

theorem yields_toBool (h : v.fault? = none) : Yields (fun _ => True) v.toBool := by
  unfold Value.toBool
  refine (yields_scalar h).bind fun u hu => ?_
  cases u with
  | error x => exact nomatch hu
  | array vs => exact isOrdinary_value
  | text s =>
    dsimp only
    split
    · exact trivial
    · split
      · exact trivial
      · exact isOrdinary_value
  | _ => exact trivial

/-- Only numbers without an order fail to compare. -/
theorem yields_compareFilled (u v : Value) : Yields (fun _ => True) (compareFilled u v) := by
  unfold compareFilled
  split
  · exact trivial
  · exact trivial
  · exact trivial
  · split
    · split
      · exact trivial
      · exact isOrdinary_num
    · exact trivial

theorem yields_compareScalars (hu : u.fault? = none) (hv : v.fault? = none) :
    Yields (fun _ => True) (compareScalars u v) := by
  unfold compareScalars
  split
  · exact nomatch hu
  · exact nomatch hv
  · exact trivial
  · exact yields_compareFilled _ _
  · exact yields_compareFilled _ _
  · exact yields_compareFilled _ _

theorem yields_compare (hu : u.fault? = none) (hv : v.fault? = none) :
    Yields (fun _ => True) (u.compare v) :=
  (yields_scalar hu).bind fun _ hu => (yields_scalar hv).bind fun _ hv =>
    yields_compareScalars hu hv

end Conversions

namespace Builtin

/-! ## Operations on two values -/

/-- An operation of two values that finds only ordinary errors by itself. -/
def Ordinary2 (op : Value → Value → Value) : Prop :=
  ∀ a b, a.fault? = none → b.fault? = none → (op a b).IsOrdinary

theorem ordinary2_strict2 {body : Value → Value → Except CellError Value}
    (h : ∀ a b, a.fault? = none → b.fault? = none → Yields Value.IsOrdinary (body a b)) :
    Ordinary2 (strict2 body) := by
  intro a b ha hb
  have hab : firstError? [a, b] = none := by simp [firstError?_cons, firstError?_nil, ha, hb]
  unfold strict2
  rw [hab]
  exact (h a b ha hb).ofExcept

theorem ordinary2_exact (op : Int → Int → Int) (real : Float → Float → Float) :
    Ordinary2 (strict2 (exact op real)) := by
  refine ordinary2_strict2 fun a b ha hb => ?_
  unfold exact
  split
  · exact .inl rfl
  · refine (yields_toNumber ha).bind fun x _ => ?_
    refine (yields_toNumber hb).bind fun y _ => ?_
    exact isOrdinary_finite _

theorem ordinary2_divide : Ordinary2 divide := by
  refine ordinary2_strict2 fun a b ha hb => ?_
  refine (yields_toNumber ha).bind fun x _ => ?_
  refine (yields_toNumber hb).bind fun y _ => ?_
  dsimp only
  split
  · exact isOrdinary_divZero
  · exact isOrdinary_finite _

theorem ordinary2_power : Ordinary2 power := by
  refine ordinary2_strict2 fun a b ha hb => ?_
  refine (yields_toNumber ha).bind fun x _ => ?_
  refine (yields_toNumber hb).bind fun y _ => ?_
  dsimp only
  split
  · exact isOrdinary_divZero
  · split
    · exact isOrdinary_num
    · split
      · exact .inl rfl
      · exact isOrdinary_finite _

/-! ## Functions -/

/-- A function that finds only ordinary errors by itself. -/
def Ordinary (f : Implementation) : Prop :=
  ∀ (limits : Limits) (args : List Value), firstError? args = none →
    (f limits args).IsOrdinary

theorem ordinary_strict {body : Limits → List Value → Except CellError Value}
    (h : ∀ limits args, firstError? args = none → Yields Value.IsOrdinary (body limits args)) :
    Ordinary (strict body) := by
  intro limits args hargs
  unfold strict
  rw [hargs]
  exact (h limits args hargs).ofExcept

variable {args : List Value}

theorem fault?_of_getElem? (h : firstError? args = none) {i : Nat} {v : Value}
    (hv : args[i]? = some v) : v.fault? = none :=
  firstError?_eq_none_iff.mp h v (List.mem_of_getElem? hv)

/-- An argument that is left out is empty, so it holds no error either. -/
theorem fault?_arg (h : firstError? args = none) (i : Nat) : (arg args i).fault? = none := by
  unfold arg
  cases hv : args[i]? with
  | none => rfl
  | some v => exact fault?_of_getElem? h hv

theorem ordinary_ofOperation {op : Value → Value → Value} (h : Ordinary2 op) :
    Ordinary (ofOperation op) :=
  fun _ _ hargs => h _ _ (fault?_arg hargs 0) (fault?_arg hargs 1)

/-! ### Functions of numbers -/

theorem ordinary_ofNumber {f : Float → Except CellError Value}
    (h : ∀ x, Yields Value.IsOrdinary (f x)) : Ordinary (ofNumber f) := by
  refine ordinary_strict fun _ args hargs => ?_
  exact (yields_toNumber (fault?_arg hargs 0)).bind fun x _ => h x

theorem ordinary_real (f : Float → Float) : Ordinary (real f) :=
  ordinary_ofNumber fun _ => isOrdinary_finite _

theorem ordinary_realOn (domain : Float → Bool) (f : Float → Float) :
    Ordinary (realOn domain f) := by
  refine ordinary_ofNumber fun x => ?_
  split
  · exact isOrdinary_finite _
  · exact isOrdinary_num

theorem ordinary_absolute : Ordinary absolute := by
  refine ordinary_strict fun _ args hargs => ?_
  dsimp only
  split
  · exact .inl rfl
  · exact (yields_toNumber (fault?_arg hargs 0)).bind fun x _ => isOrdinary_finite _

theorem ordinary_sign : Ordinary sign :=
  ordinary_ofNumber fun _ => .inl rfl

theorem ordinary_factorial : Ordinary factorial := by
  refine ordinary_ofNumber fun x => ?_
  dsimp only
  split
  · split
    · exact .inl rfl
    · exact isOrdinary_finite _
  · exact isOrdinary_num

theorem ordinary_rounded (d : Number.Direction) : Ordinary (rounded d) := by
  refine ordinary_strict fun _ args hargs => ?_
  refine (yields_toNumber (fault?_arg hargs 0)).bind fun x _ => ?_
  refine (yields_toCount (fault?_arg hargs 1)).bind fun places _ => ?_
  dsimp only
  split
  · split
    · exact isOrdinary_finite _
    · exact isOrdinary_finite _
  · exact isOrdinary_finite _

theorem yields_multipleArgs (hargs : firstError? args = none) :
    Yields (fun _ => True) (multipleArgs args) := by
  unfold multipleArgs
  refine (yields_toNumber (fault?_arg hargs 0)).bind fun x _ => ?_
  split
  · next v hv => exact (yields_toNumber (fault?_of_getElem? hargs hv)).bind fun _ _ => trivial
  · exact trivial

theorem ordinary_floor : Ordinary floor := by
  refine ordinary_strict fun _ args hargs => ?_
  refine (yields_multipleArgs hargs).bind fun ⟨x, step⟩ _ => ?_
  dsimp only
  split
  · exact isOrdinary_divZero
  · split
    · exact isOrdinary_num
    · exact isOrdinary_finite _

theorem ordinary_ceiling : Ordinary ceiling := by
  refine ordinary_strict fun _ args hargs => ?_
  refine (yields_multipleArgs hargs).bind fun ⟨x, step⟩ _ => ?_
  dsimp only
  split
  · exact .inl rfl
  · split
    · exact isOrdinary_num
    · exact isOrdinary_finite _

theorem ordinary_remainder : Ordinary remainder := by
  refine ordinary_strict fun _ args hargs => ?_
  have onReals : Yields Value.IsOrdinary (do
      let x ← (arg args 0).toNumber
      let y ← (arg args 1).toNumber
      if y == 0.0 then
        throw .divZero
      return finite (x - y * Number.roundWhole .down (x / y))) := by
    refine (yields_toNumber (fault?_arg hargs 0)).bind fun x _ => ?_
    refine (yields_toNumber (fault?_arg hargs 1)).bind fun y _ => ?_
    dsimp only
    split
    · exact isOrdinary_divZero
    · exact isOrdinary_finite _
  dsimp only
  split
  · split
    · exact isOrdinary_divZero
    · split
      · exact .inl rfl
      · exact onReals
  · exact onReals

theorem ordinary_log : Ordinary log := by
  refine ordinary_strict fun _ args hargs => ?_
  refine (yields_toNumber (fault?_arg hargs 0)).bind fun x _ => ?_
  -- what follows once the base is known
  have hrest : ∀ base : Float, Yields Value.IsOrdinary (do
      if x ≤ 0.0 || base ≤ 0.0 then
        throw .num
      if base == 1.0 then
        throw .divZero
      return finite (x.log / base.log)) := by
    intro base
    dsimp only
    split
    · exact isOrdinary_num
    · split
      · exact isOrdinary_divZero
      · exact isOrdinary_finite _
  dsimp only
  split
  · next v hv =>
    exact (yields_toNumber (fault?_of_getElem? hargs hv)).bind fun base _ => hrest base
  · exact hrest 10.0

theorem ordinary_atan2 : Ordinary atan2 := by
  refine ordinary_strict fun _ args hargs => ?_
  refine (yields_toNumber (fault?_arg hargs 0)).bind fun x _ => ?_
  refine (yields_toNumber (fault?_arg hargs 1)).bind fun y _ => ?_
  dsimp only
  split
  · exact isOrdinary_divZero
  · exact isOrdinary_finite _

theorem ordinary_pi : Ordinary pi :=
  fun _ _ _ => .inl rfl

/-! ### Functions of texts -/

theorem yields_chars (hargs : firstError? args = none) (i : Nat) :
    Yields (fun _ => True) (chars args i) :=
  (yields_toText (fault?_arg hargs i)).bind fun _ _ => trivial

theorem yields_countArg (hargs : firstError? args = none) (i default : Nat) :
    Yields (fun _ => True) (countArg args i default) := by
  unfold countArg
  split
  · exact trivial
  · next v hv =>
    refine (yields_toCount (fault?_of_getElem? hargs hv)).bind fun n _ => ?_
    split
    · exact isOrdinary_value
    · exact trivial

theorem yields_positionArg (hargs : firstError? args = none) (i : Nat) :
    Yields (fun _ => True) (positionArg args i) := by
  unfold positionArg
  refine (yields_toCount (fault?_arg hargs i)).bind fun n _ => ?_
  split
  · exact isOrdinary_value
  · exact trivial

theorem yields_built (limits : Limits) (cs : List Char) :
    Yields Value.IsOrdinary (built limits cs) := by
  unfold built
  split
  · exact .inl rfl
  · exact isOrdinary_value

theorem ordinary_length : Ordinary length :=
  ordinary_strict fun _ _ hargs => (yields_chars hargs 0).bind fun _ _ => .inl rfl

theorem ordinary_left : Ordinary left := by
  refine ordinary_strict fun _ args hargs => ?_
  refine (yields_chars hargs 0).bind fun cs _ => ?_
  exact (yields_countArg hargs 1 1).bind fun n _ => .inl rfl

theorem ordinary_right : Ordinary right := by
  refine ordinary_strict fun _ args hargs => ?_
  refine (yields_chars hargs 0).bind fun cs _ => ?_
  exact (yields_countArg hargs 1 1).bind fun n _ => .inl rfl

theorem ordinary_middle : Ordinary middle := by
  refine ordinary_strict fun _ args hargs => ?_
  refine (yields_chars hargs 0).bind fun cs _ => ?_
  refine (yields_positionArg hargs 1).bind fun start _ => ?_
  exact (yields_countArg hargs 2 0).bind fun n _ => .inl rfl

theorem ordinary_replace : Ordinary replace := by
  refine ordinary_strict fun limits args hargs => ?_
  refine (yields_chars hargs 0).bind fun cs _ => ?_
  refine (yields_positionArg hargs 1).bind fun start _ => ?_
  refine (yields_countArg hargs 2 0).bind fun n _ => ?_
  exact (yields_chars hargs 3).bind fun new _ => yields_built limits _

theorem ordinary_substitute : Ordinary substitute := by
  refine ordinary_strict fun limits args hargs => ?_
  refine (yields_chars hargs 0).bind fun cs _ => ?_
  refine (yields_chars hargs 1).bind fun old _ => ?_
  refine (yields_chars hargs 2).bind fun new _ => ?_
  dsimp only
  split
  · exact .inl rfl
  · split
    · exact yields_built limits _
    · next v hv =>
      refine (yields_toCount (fault?_of_getElem? hargs hv)).bind fun n _ => ?_
      split
      · exact isOrdinary_value
      · split
        · exact yields_built limits _
        · exact .inl rfl

theorem ordinary_upper : Ordinary upper :=
  ordinary_strict fun _ _ hargs => (yields_toText (fault?_arg hargs 0)).bind fun _ _ => .inl rfl

theorem ordinary_lower : Ordinary lower :=
  ordinary_strict fun _ _ hargs => (yields_toText (fault?_arg hargs 0)).bind fun _ _ => .inl rfl

theorem ordinary_trimmed : Ordinary trimmed :=
  ordinary_strict fun _ _ hargs => (yields_chars hargs 0).bind fun _ _ => .inl rfl

theorem ordinary_repeated : Ordinary repeated := by
  refine ordinary_strict fun limits args hargs => ?_
  refine (yields_chars hargs 0).bind fun cs _ => ?_
  refine (yields_countArg hargs 1 0).bind fun n _ => ?_
  dsimp only
  split
  · exact isOrdinary_value
  · split
    · exact .inl rfl
    · exact .inl rfl

theorem ordinary_concat : Ordinary concat :=
  ordinary_strict fun limits _ _ => yields_built limits _

theorem ordinary_joinTexts : Ordinary joinTexts := by
  refine ordinary_strict fun limits args hargs => ?_
  refine (yields_chars hargs 0).bind fun delimiter _ => ?_
  exact (yields_toBool (fault?_arg hargs 1)).bind fun ignoresEmpty _ => yields_built limits _

/-! ### Aggregates -/

theorem Total.isOrdinary_toValue (t : Total) : t.toValue.IsOrdinary := by
  cases t with
  | whole n => exact .inl rfl
  | real x => exact isOrdinary_finite x

theorem ordinary_sum : Ordinary sum :=
  ordinary_strict fun _ _ _ => Total.isOrdinary_toValue _

theorem ordinary_product : Ordinary product := by
  refine ordinary_strict fun _ args _ => ?_
  dsimp only
  split
  · exact Total.isOrdinary_toValue _
  · exact .inl rfl

theorem ordinary_average : Ordinary average := by
  refine ordinary_strict fun _ args _ => ?_
  split
  · exact isOrdinary_divZero
  · exact isOrdinary_finite _

theorem ordinary_count : Ordinary count :=
  ordinary_strict fun _ _ _ => .inl rfl

theorem ordinary_counta : Ordinary counta :=
  ordinary_strict fun _ _ _ => .inl rfl

theorem fault?_of_number? {v : Value} {x : Float} (h : v.number? = some x) : v.fault? = none := by
  cases v with
  | int n => rfl
  | float y => rfl
  | _ => exact nomatch h

/-- The best number is a number, so it holds no error. -/
theorem fault?_best? (better : Float → Float → Bool) (vs : List Value) :
    ∀ p, best? better vs = some p → p.2.fault? = none := by
  unfold best?
  refine List.foldlRecOn (motive := fun best : Option (Float × Value) =>
    ∀ p, best = some p → p.2.fault? = none) vs _ (fun p hp => nomatch hp) ?_
  intro best hbest v _ p hp
  split at hp
  · exact hbest p hp
  · next hx =>
    cases hp
    exact fault?_of_number? hx
  · next hx =>
    split at hp
    · cases hp
      exact fault?_of_number? hx
    · exact hbest p hp

theorem ordinary_extreme (better : Float → Float → Bool) : Ordinary (extreme better) := by
  refine ordinary_strict fun _ args _ => ?_
  split
  · next hbest => exact .inl (fault?_best? better _ _ hbest)
  · exact .inl rfl

/-! ### Logic -/

theorem ordinary_choose : Ordinary choose := by
  refine ordinary_strict fun _ args hargs => ?_
  refine (yields_toBool (fault?_arg hargs 0)).bind fun b _ => ?_
  split
  · exact .inl (fault?_arg hargs 1)
  · refine .inl ?_
    cases hv : args[2]? with
    | none => rfl
    | some v => exact fault?_of_getElem? hargs hv

mutual

theorem fault?_of_mem_leaves : ∀ {v u : Value}, v.fault? = none → u ∈ v.leaves → u.fault? = none
  | .array vs, u, h, hu => by
    rw [fault?_array] at h
    rw [leaves] at hu
    exact fault?_of_mem_leavesOf h hu
  | .empty, u, h, hu | .bool _, u, h, hu | .int _, u, h, hu | .float _, u, h, hu
  | .text _, u, h, hu | .error _, u, h, hu => by
    obtain rfl := List.mem_singleton.mp hu
    exact h

theorem fault?_of_mem_leavesOf : ∀ {vs : List Value} {u : Value}, firstError? vs = none →
    u ∈ leavesOf vs → u.fault? = none
  | [], _, _, hu => absurd hu List.not_mem_nil
  | v :: vs, u, h, hu => by
    rw [firstError?_cons, Option.or_eq_none_iff] at h
    rw [leavesOf, List.mem_append] at hu
    rcases hu with hu | hu
    · exact fault?_of_mem_leaves h.1 hu
    · exact fault?_of_mem_leavesOf h.2 hu

end

theorem yields_truths {v : Value} (h : v.fault? = none) : Yields (fun _ => True) (truths v) := by
  unfold truths
  split
  · next cells =>
    rw [fault?_array] at h
    exact .mapM fun u hu =>
      yields_toBool (fault?_of_mem_leavesOf h (List.mem_filter.mp hu |>.1))
  · exact (yields_toBool h).bind fun _ _ => trivial

theorem ordinary_joined (join : List Bool → Bool) : Ordinary (joined join) := by
  refine ordinary_strict fun _ args hargs => ?_
  have htruths : ∀ v ∈ args, Yields (fun _ => True) (truths v) :=
    fun v hv => yields_truths (firstError?_eq_none_iff.mp hargs v hv)
  refine (Yields.mapM htruths).bind fun flags _ => ?_
  dsimp only
  split
  · exact isOrdinary_value
  · exact .inl rfl

theorem ordinary_allTrue : Ordinary allTrue := ordinary_joined _

theorem ordinary_anyTrue : Ordinary anyTrue := ordinary_joined _

theorem ordinary_negation : Ordinary negation :=
  ordinary_strict fun _ _ hargs => (yields_toBool (fault?_arg hargs 0)).bind fun _ _ => .inl rfl

end Builtin

open Builtin

/-! ## Operators -/

namespace Formula

theorem yields_negated {v : Value} (h : v.fault? = none) :
    Yields Value.IsOrdinary (negated v) := by
  unfold negated
  split
  · exact .inl rfl
  · exact (yields_toNumber h).bind fun x _ => isOrdinary_finite _

theorem UnaryOp.apply_isOrdinary (op : UnaryOp) {v : Value} (h : v.fault? = none) :
    (op.apply v).IsOrdinary := by
  unfold fault? at h
  unfold UnaryOp.apply
  rw [h]
  refine Yields.ofExcept ((yields_scalar h).bind fun u hu => ?_)
  cases op with
  | plus => exact .inl hu
  | negate => exact yields_negated hu

theorem ordinary2_joined (limits : Limits) : Ordinary2 (joined limits) := by
  refine ordinary2_strict2 fun a b ha hb => ?_
  refine (yields_toText ha).bind fun left _ => ?_
  exact (yields_toText hb).bind fun right _ => yields_built limits _

theorem ordinary2_ordered (test : Ordering → Bool) : Ordinary2 (ordered test) :=
  ordinary2_strict2 fun _ _ ha hb => (yields_compare ha hb).bind fun _ _ => .inl rfl

theorem BinaryOp.apply_isOrdinary (op : BinaryOp) (limits : Limits) :
    Ordinary2 (op.apply limits) := by
  cases op with
  | add | subtract | multiply => exact ordinary2_exact _ _
  | divide => exact ordinary2_divide
  | power => exact ordinary2_power
  | concat => exact ordinary2_joined limits
  | _ => exact ordinary2_ordered _

end Formula

/-! ## The standard table -/

/-- A table of functions that find only ordinary errors by themselves. -/
def Registry.Ordinary (r : Registry) : Prop :=
  ∀ (name : String) (d : FunctionDef), r.find? name = some d → Builtin.Ordinary d.implementation

namespace Registry

/-- What holds of all entries holds of the functions that are found. -/
theorem mem_of_find? {r : Registry} {name : String} {d : FunctionDef} (h : r.find? name = some d) :
    (Text.toUpper name, d) ∈ r.entries := by
  obtain ⟨l₁, l₂, hl, -⟩ := List.lookup_eq_some_iff.mp h
  rw [hl]
  simp

/-- The arithmetic functions are the operations of the operators, most functions of one number are
doubles on a domain, and the others have a body of their own. -/
theorem standardEntries_ordinary :
    ∀ p ∈ standardEntries, Builtin.Ordinary p.2.implementation := by
  simp only [standardEntries, List.forall_mem_cons, List.not_mem_nil, false_imp_iff, implies_true,
    and_true]
  exact ⟨
    ordinary_ofOperation (ordinary2_exact _ _), ordinary_ofOperation (ordinary2_exact _ _),
    ordinary_ofOperation (ordinary2_exact _ _), ordinary_ofOperation ordinary2_divide,
    ordinary_ofOperation ordinary2_power,
    ordinary_sum, ordinary_average, ordinary_count, ordinary_counta, ordinary_extreme _,
    ordinary_extreme _, ordinary_product,
    ordinary_absolute, ordinary_realOn _ _, ordinary_real _, ordinary_sign, ordinary_real _,
    ordinary_realOn _ _, ordinary_realOn _ _, ordinary_real _, ordinary_real _, ordinary_real _,
    ordinary_realOn _ _, ordinary_realOn _ _, ordinary_real _, ordinary_real _, ordinary_real _,
    ordinary_factorial, ordinary_rounded _, ordinary_rounded _, ordinary_rounded _,
    ordinary_rounded _, ordinary_floor, ordinary_ceiling, ordinary_ofOperation ordinary2_power,
    ordinary_remainder, ordinary_log, ordinary_atan2, ordinary_pi,
    ordinary_length, ordinary_left, ordinary_right, ordinary_middle, ordinary_replace,
    ordinary_substitute, ordinary_upper, ordinary_lower, ordinary_trimmed, ordinary_repeated,
    ordinary_concat, ordinary_concat, ordinary_joinTexts,
    ordinary_choose, ordinary_allTrue, ordinary_anyTrue, ordinary_negation⟩

theorem standard_ordinary : Registry.standard.Ordinary :=
  fun name d h => standardEntries_ordinary (Text.toUpper name, d) (mem_of_find? h)

end Registry

/-! ## Arguments and results -/

/-- The result is the first error among the arguments; without one it is a value without errors or
one of the three errors that an operation finds by itself. -/
def HandsOn (args : List Value) (result : Value) : Prop :=
  (∀ x, firstError? args = some x → result = .error x) ∧
    (firstError? args = none → result.fault? = none ∨ result = .error .value ∨
      result = .error .divZero ∨ result = .error .num)

theorem Value.isOrdinary_iff {v : Value} : v.IsOrdinary ↔
    v.fault? = none ∨ v = .error .value ∨ v = .error .divZero ∨ v = .error .num := by
  constructor
  · rintro (h | ⟨x, rfl | rfl | rfl, rfl⟩)
    · exact .inl h
    · exact .inr (.inl rfl)
    · exact .inr (.inr (.inl rfl))
    · exact .inr (.inr (.inr rfl))
  · rintro (h | rfl | rfl | rfl)
    · exact .inl h
    · exact isOrdinary_error isOrdinary_value
    · exact isOrdinary_error isOrdinary_divZero
    · exact isOrdinary_error isOrdinary_num

/-- Every function of the standard table, called with as many arguments as it accepts, and every
operator hands on the first error in its arguments, whatever else stands there and however deep in
lists the error is. Without an error in the arguments the result is a value without errors,
`#VALUE!`, `#DIV/0!` or `#NUM!`. -/
theorem operations_hand_on_first_error :
    (∀ name d, (name, d) ∈ Registry.standard.entries → ∀ (limits : Limits) (args : List Value),
      d.accepts args.length = true → HandsOn args (d.implementation limits args)) ∧
    (∀ (op : UnaryOp) (v : Value), HandsOn [v] (op.apply v)) ∧
    ∀ (op : BinaryOp) (limits : Limits) (a b : Value), HandsOn [a, b] (op.apply limits a b) := by
  refine ⟨fun name d hd limits args hc => ⟨fun x hx => ?_, fun hclean => ?_⟩,
    fun op v => ⟨fun x hx => op.apply_of_fault hx, fun hclean => ?_⟩,
    fun op limits a b => ⟨op.apply_strict limits a b, fun hclean => ?_⟩⟩
  · exact Registry.standardEntries_strict (name, d) hd limits args x hc hx
  · exact isOrdinary_iff.mp (Registry.standardEntries_ordinary (name, d) hd limits args hclean)
  · exact isOrdinary_iff.mp (op.apply_isOrdinary hclean)
  · rw [firstError?_eq_none_iff] at hclean
    exact isOrdinary_iff.mp
      (op.apply_isOrdinary limits a b (hclean a (by simp)) (hclean b (by simp)))

/-- The error deep in the third argument decides: not the delimiter, which is a list of two values
and so no text, and not the error that stands behind it. -/
theorem operations_hand_on_first_error_textjoin :
    let args : List Value := [.array [.int 1, .int 2], .bool true,
      .array [.text "a", .array [.empty, .error .divZero]], .error .ref]
    ∃ d, ("TEXTJOIN", d) ∈ Registry.standard.entries ∧ d.accepts args.length = true ∧
      firstError? args = some .divZero ∧ d.implementation {} args = .error .divZero := by
  intro args
  have hmem : ("TEXTJOIN", _) ∈ Registry.standard.entries := List.mem_of_getElem? (i := 51) rfl
  have hfirst : firstError? args = some .divZero := rfl
  exact ⟨_, hmem, rfl, hfirst,
    (operations_hand_on_first_error.1 "TEXTJOIN" _ hmem {} args rfl).1 _ hfirst⟩

end Spreadsheet
