import Spreadsheet.Proofs.Ordinary
import Spreadsheet.Proofs.Steady

/-!
# What operations can give

Most operations make their result themselves: an integer, a truth value, or a double that was
checked to be finite. Few hand a scalar of their arguments on, and the others make a text. So what
is to hold of all scalars that come out of formulas has to be looked at where texts are made, and
nowhere else.

Results:
1. `All.scalar`, `all_of_mem_leavesOf`: a property of all scalars in a value passes to its parts;
2. `UnaryOp.apply_all`, `BinaryOp.apply_all`: operators keep such a property, if joining texts does;
3. `standardEntries_preserve`: so do the functions of the standard table, if those that make texts
   do.
-/

namespace Spreadsheet

open Formula

/-! ## Properties of scalars -/

namespace Value

/-- A value that operations make without a text: nothing, a truth value, an integer, a finite
number or an error. -/
inductive IsBasic : Value → Prop where
  | empty : IsBasic .empty
  | bool (b : Bool) : IsBasic (.bool b)
  | int (n : Int64) : IsBasic (.int n)
  | float {x : Float} (h : x.isFinite = true) : IsBasic (.float x)
  | error (e : CellError) : IsBasic (.error e)

theorem isBasic_finite (x : Float) : (finite x).IsBasic := by
  unfold finite
  split
  · next h => exact .float h
  · exact .error .num

/-- All scalars in the value have the property. -/
def All (Q : Value → Prop) (v : Value) : Prop :=
  ∀ u ∈ v.leaves, Q u

variable {Q : Value → Prop} {u v : Value} {vs : List Value}

theorem all_array_iff : (array vs).All Q ↔ ∀ v ∈ vs, v.All Q := by
  unfold All
  rw [leaves]
  induction vs with
  | nil => exact ⟨fun _ _ => nofun, fun _ _ => nofun⟩
  | cons v vs ih => rw [leavesOf, List.forall_mem_append, List.forall_mem_cons, ih]

theorem IsBasic.all (h : v.IsBasic) (hQ : ∀ v, v.IsBasic → Q v) : v.All Q := by
  intro u hu
  have huv : u = v := by cases h <;> exact List.mem_singleton.mp hu
  exact huv ▸ hQ v h

theorem all_text_iff {s : String} : (text s).All Q ↔ Q (.text s) := by
  simp [All, leaves]

/-- A list that stands for one value has no other scalars. -/
theorem All.scalar : ∀ {v u : Value}, v.All Q → v.scalar = .ok u → u.All Q
  | .array [v], _, h, hu => by
    rw [Value.scalar] at hu
    exact All.scalar (all_array_iff.mp h v List.mem_cons_self) hu
  | .empty, _, h, rfl | .bool _, _, h, rfl | .int _, _, h, rfl | .float _, _, h, rfl
  | .text _, _, h, rfl | .error _, _, h, rfl => h

mutual

theorem all_of_mem_leaves : ∀ {v u : Value}, v.All Q → u ∈ v.leaves → u.All Q
  | .array vs, u, h, hu => all_of_mem_leavesOf (all_array_iff.mp h) (by rwa [leaves] at hu)
  | .empty, u, h, hu | .bool _, u, h, hu | .int _, u, h, hu | .float _, u, h, hu
  | .text _, u, h, hu | .error _, u, h, hu => by
    obtain rfl := List.mem_singleton.mp hu
    exact h

theorem all_of_mem_leavesOf : ∀ {vs : List Value} {u : Value}, (∀ v ∈ vs, v.All Q) →
    u ∈ leavesOf vs → u.All Q
  | [], _, _, hu => absurd hu List.not_mem_nil
  | v :: vs, u, h, hu => by
    obtain ⟨hv, hvs⟩ := List.forall_mem_cons.mp h
    rw [leavesOf, List.mem_append] at hu
    rcases hu with hu | hu
    · exact all_of_mem_leaves hv hu
    · exact all_of_mem_leavesOf hvs hu

end

end Value

open Value

/-! ## Computations that may fail -/

/-- If the computation gives something, it has `Q`. -/
def Gives {α : Type} (Q : α → Prop) (x : Except CellError α) : Prop :=
  ∀ a, x = .ok a → Q a

namespace Gives

variable {α β : Type} {Q : α → Prop} {R : β → Prop} {x : Except CellError α}

theorem pure {a : α} (h : Q a) : Gives Q (pure a) := by
  rintro _ ⟨⟩
  exact h

theorem throw {e : CellError} : Gives Q (throw e) := nofun

theorem bind {f : α → Except CellError β} (hx : Gives Q x) (hf : ∀ a, Q a → Gives R (f a)) :
    Gives R (x >>= f) := by
  cases x with
  | ok a => exact hf a (hx a rfl)
  | error e => exact nofun

/-- Whatever the first step gives. -/
theorem bind_any {f : α → Except CellError β} (hf : ∀ a, Gives R (f a)) : Gives R (x >>= f) :=
  bind (Q := fun _ => True) (fun _ _ => trivial) fun a _ => hf a

theorem mono {Q' : α → Prop} (hx : Gives Q x) (h : ∀ a, Q a → Q' a) : Gives Q' x :=
  fun a ha => h a (hx a ha)

theorem ofExcept {Q : Value → Prop} {x : Except CellError Value} (h : Gives Q x)
    (he : ∀ e, Q (.error e)) : Q (ofExcept x) := by
  cases x with
  | ok v => exact h v rfl
  | error e => exact he e

end Gives

namespace Builtin

/-! ## Operations that make basic values -/

section Basic

/-- An operation of two values whose result is basic, whatever the values are. -/
def Basic2 (op : Value → Value → Value) : Prop :=
  ∀ a b, (op a b).IsBasic

theorem basic2_strict2 {body : Value → Value → Except CellError Value}
    (h : ∀ a b, Gives IsBasic (body a b)) : Basic2 (strict2 body) := by
  intro a b
  unfold strict2
  split
  · exact .error _
  · exact (h a b).ofExcept .error

theorem basic2_exact (op : Int → Int → Int) (real : Float → Float → Float) :
    Basic2 (strict2 (exact op real)) := by
  refine basic2_strict2 fun a b => ?_
  unfold exact
  split
  · exact .pure (.int _)
  · exact .bind_any fun x => .bind_any fun y => .pure (isBasic_finite _)

theorem basic2_divide : Basic2 divide := by
  refine basic2_strict2 fun a b => .bind_any fun x => .bind_any fun y => ?_
  dsimp only
  split
  · exact .throw
  · exact .pure (isBasic_finite _)

theorem basic2_power : Basic2 power := by
  refine basic2_strict2 fun a b => .bind_any fun x => .bind_any fun y => ?_
  dsimp only
  split
  · exact .throw
  · split
    · exact .throw
    · split
      · exact .pure (.int _)
      · exact .pure (isBasic_finite _)

/-- A function whose result is basic, whatever its arguments are. -/
def Basic (f : Implementation) : Prop :=
  ∀ (limits : Limits) (args : List Value), (f limits args).IsBasic

theorem basic_strict {body : Limits → List Value → Except CellError Value}
    (h : ∀ limits args, Gives IsBasic (body limits args)) : Basic (strict body) := by
  intro limits args
  unfold strict
  split
  · exact .error _
  · exact (h limits args).ofExcept .error

theorem basic_ofOperation {op : Value → Value → Value} (h : Basic2 op) :
    Basic (ofOperation op) :=
  fun _ _ => h _ _

theorem basic_ofNumber {f : Float → Except CellError Value} (h : ∀ x, Gives IsBasic (f x)) :
    Basic (ofNumber f) :=
  basic_strict fun _ _ => .bind_any h

theorem basic_real (f : Float → Float) : Basic (real f) :=
  basic_ofNumber fun _ => .pure (isBasic_finite _)

theorem basic_realOn (domain : Float → Bool) (f : Float → Float) : Basic (realOn domain f) := by
  refine basic_ofNumber fun x => ?_
  split
  · exact .pure (isBasic_finite _)
  · exact .throw

theorem basic_absolute : Basic absolute := by
  refine basic_strict fun _ args => ?_
  dsimp only
  split
  · exact .pure (.int _)
  · exact .bind_any fun x => .pure (isBasic_finite _)

theorem basic_sign : Basic sign :=
  basic_ofNumber fun _ => .pure (.int _)

theorem basic_factorial : Basic factorial := by
  refine basic_ofNumber fun x => ?_
  dsimp only
  split
  · split
    · exact .pure (.int _)
    · exact .pure (isBasic_finite _)
  · exact .throw

theorem basic_rounded (d : Number.Direction) : Basic (rounded d) := by
  refine basic_strict fun _ args => .bind_any fun x => .bind_any fun places => ?_
  dsimp only
  split
  · split
    · exact .pure (isBasic_finite _)
    · exact .pure (isBasic_finite _)
  · exact .pure (isBasic_finite _)

theorem basic_floor : Basic floor := by
  refine basic_strict fun _ args => .bind_any fun ⟨x, step⟩ => ?_
  dsimp only
  split
  · exact .throw
  · split
    · exact .throw
    · exact .pure (isBasic_finite _)

theorem basic_ceiling : Basic ceiling := by
  refine basic_strict fun _ args => .bind_any fun ⟨x, step⟩ => ?_
  dsimp only
  split
  · exact .pure (.int _)
  · split
    · exact .throw
    · exact .pure (isBasic_finite _)

theorem basic_remainder : Basic remainder := by
  refine basic_strict fun _ args => ?_
  have onReals : Gives IsBasic (do
      let x ← (arg args 0).toNumber
      let y ← (arg args 1).toNumber
      if y == 0.0 then
        throw .divZero
      return finite (x - y * Number.roundWhole .down (x / y))) := by
    refine .bind_any fun x => .bind_any fun y => ?_
    dsimp only
    split
    · exact .throw
    · exact .pure (isBasic_finite _)
  dsimp only
  split
  · split
    · exact .throw
    · split
      · exact .pure (.int _)
      · exact onReals
  · exact onReals

theorem basic_log : Basic log := by
  refine basic_strict fun _ args => .bind_any fun x => ?_
  -- what follows once the base is known
  have hrest : ∀ base : Float, Gives IsBasic (do
      if x ≤ 0.0 || base ≤ 0.0 then
        throw .num
      if base == 1.0 then
        throw .divZero
      return finite (x.log / base.log)) := by
    intro base
    dsimp only
    split
    · exact .throw
    · split
      · exact .throw
      · exact .pure (isBasic_finite _)
  dsimp only
  split
  · exact .bind_any hrest
  · exact hrest 10.0

theorem basic_atan2 : Basic atan2 := by
  refine basic_strict fun _ args => .bind_any fun x => .bind_any fun y => ?_
  dsimp only
  split
  · exact .throw
  · exact .pure (isBasic_finite _)

theorem basic_pi : Basic pi :=
  fun _ _ => .float (by decide +kernel)

theorem basic_length : Basic length :=
  basic_strict fun _ _ => .bind_any fun _ => .pure (.int _)

theorem Total.isBasic_toValue (t : Total) : t.toValue.IsBasic := by
  cases t with
  | whole n => exact .int n
  | real x => exact isBasic_finite x

theorem basic_sum : Basic sum :=
  basic_strict fun _ _ => .pure (Total.isBasic_toValue _)

theorem basic_product : Basic product := by
  refine basic_strict fun _ args => ?_
  dsimp only
  split
  · exact .pure (Total.isBasic_toValue _)
  · exact .pure (.int _)

theorem basic_average : Basic average := by
  refine basic_strict fun _ args => ?_
  split
  · exact .throw
  · exact .pure (isBasic_finite _)

theorem basic_count : Basic count :=
  basic_strict fun _ _ => .pure (.int _)

theorem basic_counta : Basic counta :=
  basic_strict fun _ _ => .pure (.int _)

theorem basic_joined (join : List Bool → Bool) : Basic (joined join) := by
  refine basic_strict fun _ args => .bind_any fun flags => ?_
  dsimp only
  split
  · exact .throw
  · exact .pure (.bool _)

theorem basic_allTrue : Basic allTrue := basic_joined _

theorem basic_anyTrue : Basic anyTrue := basic_joined _

theorem basic_negation : Basic negation :=
  basic_strict fun _ _ => .bind_any fun _ => .pure (.bool _)

end Basic

/-! ## Operations that keep a property of scalars -/

section Preserves

/-- If all scalars in the arguments have `Q`, so have those in the result. -/
def Preserves (Q : Value → Prop) (limits : Limits) (f : Implementation) : Prop :=
  ∀ args, (∀ v ∈ args, v.All Q) → (f limits args).All Q

variable {Q : Value → Prop} {limits : Limits} {args : List Value}

theorem Basic.preserves {f : Implementation} (h : Basic f) (hQ : ∀ v, v.IsBasic → Q v) :
    Preserves Q limits f :=
  fun args _ => (h limits args).all hQ

theorem preserves_strict {body : Limits → List Value → Except CellError Value}
    (hQ : ∀ v, v.IsBasic → Q v)
    (h : ∀ args, firstError? args = none → (∀ v ∈ args, v.All Q) →
      Gives (·.All Q) (body limits args)) :
    Preserves Q limits (strict body) := by
  intro args hargs
  unfold strict
  split
  · exact (IsBasic.error _).all hQ
  · next hclean => exact (h args hclean hargs).ofExcept fun e => (IsBasic.error e).all hQ

/-- An argument that is left out is empty. -/
theorem all_arg (hQ : ∀ v, v.IsBasic → Q v) (h : ∀ v ∈ args, v.All Q) (i : Nat) :
    (arg args i).All Q := by
  unfold arg
  cases hv : args[i]? with
  | none => exact IsBasic.empty.all hQ
  | some v => exact h v (List.mem_of_getElem? hv)

/-- The best number is one of the numbers. -/
theorem mem_of_best? (better : Float → Float → Bool) (vs : List Value) :
    ∀ p, best? better vs = some p → p.2 ∈ vs := by
  unfold best?
  refine List.foldlRecOn (motive := fun best : Option (Float × Value) =>
    ∀ p, best = some p → p.2 ∈ vs) vs _ (fun p hp => nomatch hp) ?_
  intro best hbest v hv p hp
  split at hp
  · exact hbest p hp
  · cases hp
    exact hv
  · split at hp
    · cases hp
      exact hv
    · exact hbest p hp

theorem preserves_extreme (hQ : ∀ v, v.IsBasic → Q v) (better : Float → Float → Bool) :
    Preserves Q limits (extreme better) := by
  refine preserves_strict hQ fun args _ hargs => ?_
  split
  · next hbest => exact .pure (all_of_mem_leavesOf hargs (mem_of_best? better _ _ hbest))
  · exact .pure ((IsBasic.int 0).all hQ)

theorem preserves_choose (hQ : ∀ v, v.IsBasic → Q v) : Preserves Q limits choose := by
  refine preserves_strict hQ fun args _ hargs => .bind_any fun b => ?_
  split
  · exact .pure (all_arg hQ hargs 1)
  · cases hv : args[2]? with
    | none => exact .pure ((IsBasic.bool false).all hQ)
    | some v => exact .pure (hargs v (List.mem_of_getElem? hv))

/-- The functions that make texts, but for those that change the case. -/
def textFunctions : List Implementation :=
  [left, right, middle, replace, substitute, trimmed, repeated, concat, joinTexts]

end Preserves

end Builtin

open Builtin

/-! ## Operators -/

variable {Q : Value → Prop} {v : Value}

namespace Formula

theorem gives_negated (v : Value) : Gives IsBasic (negated v) := by
  unfold negated
  split
  · exact .pure (.int _)
  · exact .bind_any fun x => .pure (isBasic_finite _)

theorem UnaryOp.apply_all (op : UnaryOp) (hQ : ∀ v, v.IsBasic → Q v) (h : v.All Q) :
    (op.apply v).All Q := by
  unfold UnaryOp.apply
  split
  · exact (IsBasic.error _).all hQ
  · refine Gives.ofExcept ?_ fun e => (IsBasic.error e).all hQ
    refine .bind (fun u hu => h.scalar hu) fun u hu => ?_
    cases op with
    | plus => exact .pure hu
    | negate => exact (gives_negated u).mono fun _ hv => hv.all hQ

theorem basic2_ordered (test : Ordering → Bool) : Basic2 (ordered test) :=
  basic2_strict2 fun _ _ => .bind_any fun _ => .pure (.bool _)

theorem BinaryOp.apply_all (op : BinaryOp) (limits : Limits) (hQ : ∀ v, v.IsBasic → Q v)
    {a b : Value} (h : (joined limits a b).All Q) : (op.apply limits a b).All Q := by
  cases op with
  | concat => exact h
  | add | subtract | multiply => exact (basic2_exact _ _ a b).all hQ
  | divide => exact (basic2_divide a b).all hQ
  | power => exact (basic2_power a b).all hQ
  | _ => exact (basic2_ordered _ a b).all hQ

end Formula

theorem all_finalize (hQ : ∀ v, v.IsBasic → Q v) (h : v.All Q) : (finalize v).All Q := by
  have hscalar : (ofExcept v.scalar).All Q :=
    Gives.ofExcept (fun u hu => h.scalar hu) fun e => (IsBasic.error e).all hQ
  unfold finalize
  split
  · exact (IsBasic.int 0).all hQ
  · exact hscalar

/-! ## The standard table -/

namespace Registry

/-- Where the functions that make texts keep a property of scalars, and basic values have it, all
functions keep it. Those that change the case are asked for only if their names are. -/
theorem standardEntries_preserve {limits : Limits} (asked : String → Prop)
    (hQ : ∀ v, v.IsBasic → Q v) (htext : ∀ f ∈ textFunctions, Preserves Q limits f)
    (hupper : asked "UPPER" → Preserves Q limits upper)
    (hlower : asked "LOWER" → Preserves Q limits lower) :
    ∀ p ∈ standardEntries, asked p.1 → Preserves Q limits p.2.implementation := by
  simp only [textFunctions, List.forall_mem_cons] at htext
  obtain ⟨hleft, hright, hmiddle, hreplace, hsubstitute, htrimmed, hrepeated, hconcat,
    hjoinTexts, -⟩ := htext
  have basic {f : Implementation} {name : String} (h : Basic f) :
      asked name → Preserves Q limits f := fun _ => h.preserves hQ
  have any {f : Implementation} {name : String} (h : Preserves Q limits f) :
      asked name → Preserves Q limits f := fun _ => h
  simp only [standardEntries, List.forall_mem_cons, List.not_mem_nil, false_imp_iff, implies_true,
    and_true]
  exact ⟨
    basic (basic_ofOperation (basic2_exact _ _)), basic (basic_ofOperation (basic2_exact _ _)),
    basic (basic_ofOperation (basic2_exact _ _)), basic (basic_ofOperation basic2_divide),
    basic (basic_ofOperation basic2_power),
    basic basic_sum, basic basic_average, basic basic_count, basic basic_counta,
    any (preserves_extreme hQ _), any (preserves_extreme hQ _), basic basic_product,
    basic basic_absolute, basic (basic_realOn _ _), basic (basic_real _), basic basic_sign,
    basic (basic_real _), basic (basic_realOn _ _), basic (basic_realOn _ _),
    basic (basic_real _), basic (basic_real _), basic (basic_real _), basic (basic_realOn _ _),
    basic (basic_realOn _ _), basic (basic_real _), basic (basic_real _), basic (basic_real _),
    basic basic_factorial, basic (basic_rounded _), basic (basic_rounded _),
    basic (basic_rounded _), basic (basic_rounded _), basic basic_floor, basic basic_ceiling,
    basic (basic_ofOperation basic2_power), basic basic_remainder, basic basic_log,
    basic basic_atan2, basic basic_pi,
    basic basic_length, any hleft, any hright, any hmiddle, any hreplace, any hsubstitute, hupper,
    hlower, any htrimmed, any hrepeated, any hconcat, any hconcat, any hjoinTexts,
    any (preserves_choose hQ), basic basic_allTrue, basic basic_anyTrue, basic basic_negation⟩

end Registry

end Spreadsheet
