import Mathlib
import Spreadsheet.Proofs.Accepting
import Spreadsheet.Proofs.Calls

/-!
# How deep calls are nested

Evaluations of expressions are nested along the tree of a formula, and from cell to cell. The tree
of a formula is no taller than the limit on levels, and the way no longer than the limit on depth,
so each call has a bound on the evaluations that can be nested in it. A call hands on no more than
its own bound, and an expression hands on less. The grid has no part in this, cyclic or endless.
Since the calls get smaller, the whole tree of calls is finite.

Results:
1. `Call.makes_of_made`: what is left for a call that another one makes;
2. `Call.Makes.bound_le`: an expression hands on less than its own bound;
3. `Call.countP_le_bound`: no chain of nested calls has more evaluations than its first call allows;
4. `Call.induction`: induction on the tree of calls.
-/

namespace Spreadsheet

open Formula

variable {w : Setting} {s : Session}

namespace Call

/-! ## What a call makes -/

theorem fst_mem_of_mem_inTurn {cs : List Call} {q : Call × Session} (hq : q ∈ inTurn w cs s) :
    q.1 ∈ cs := by
  induction cs generalizing s with
  | nil => exact nomatch hq
  | cons c cs ih =>
    rcases List.mem_cons.mp hq with rfl | hq
    · exact List.mem_cons_self
    · exact List.mem_cons_of_mem c (ih hq)

theorem fst_mem_calls_of_made {p q : Call × Session} (hq : q ∈ made w p) :
    q.1 ∈ p.1.calls w p.2 :=
  fst_mem_of_mem_inTurn hq

/-- Calls that are made in turn leave the way as it was, so each finds the same room. -/
theorem room_of_mem_inTurn (h : s.Valid w) {cs : List Call} {q : Call × Session}
    (hq : q ∈ inTurn w cs s) : q.2.room w = s.room w := by
  induction cs generalizing s with
  | nil => exact nomatch hq
  | cons c cs ih =>
    obtain ⟨hvalid, hrestored⟩ := run_keeps h c
    rcases List.mem_cons.mp hq with rfl | hq
    · rfl
    · exact (ih hvalid hq).trans (hrestored.room_eq w)

theorem room_of_made {p q : Call × Session} (h : p.2.Valid w) (hq : q ∈ made w p) :
    q.2.room w = (p.1.inner p.2).room w := by
  refine room_of_mem_inTurn (inner_valid h fun hnone => ?_) hq
  rw [made, hnone] at hq
  exact absurd hq List.not_mem_nil

/-! ## The bound on nested evaluations -/

/-- Whether the call evaluates an expression. -/
def isEvaluate : Call → Bool
  | evaluate _ => true
  | _ => false

/-- The nested evaluations that the expression of a call takes by itself. -/
def levels : Call → Nat
  | evaluate e => e.height + 1
  | _ => 0

/-- The evaluations that can be nested in a call, it included: those of its own expression, and for
each formula cell that may still be entered as many as a formula can have. -/
def bound (w : Setting) (p : Call × Session) : Nat :=
  p.1.levels + p.2.room w * (w.limits.maxNesting + 1)

theorem height_le_heightOf {e : Expr} {es : List Expr} (h : e ∈ es) :
    e.height ≤ Expr.heightOf es := by
  induction es with
  | nil => exact nomatch h
  | cons e' es ih =>
    rw [Expr.heightOf]
    rcases List.mem_cons.mp h with rfl | h
    · exact Nat.le_max_left _ _
    · exact Nat.le_trans (ih h) (Nat.le_max_right _ _)

/-- An expression only calls for smaller ones. -/
theorem levels_le_height {e : Expr} {c : Call} (hc : c ∈ e.calls w s) : c.levels ≤ e.height := by
  cases e with
  | literal v => exact absurd hc List.not_mem_nil
  | cell r =>
    obtain rfl := List.mem_singleton.mp hc
    exact Nat.zero_le _
  | range r =>
    obtain rfl := List.mem_singleton.mp hc
    exact Nat.zero_le _
  | unary op e =>
    obtain rfl := List.mem_singleton.mp hc
    exact Nat.le_refl _
  | binary op l r =>
    have hmem : c = .evaluate l ∨ c = .evaluate r := by
      rw [Expr.calls] at hc
      split at hc
      · exact .inl (List.mem_singleton.mp hc)
      · simpa using hc
    rcases hmem with rfl | rfl
    · exact Nat.succ_le_succ (Nat.le_max_left _ _)
    · exact Nat.succ_le_succ (Nat.le_max_right _ _)
  | call name args =>
    rw [Expr.calls] at hc
    split at hc
    · exact absurd hc List.not_mem_nil
    · split at hc
      · obtain ⟨e, he, rfl⟩ := List.mem_map.mp hc
        exact Nat.succ_le_succ (height_le_heightOf he)
      · exact absurd hc List.not_mem_nil

theorem range_calls {maxCells : Nat} {first last : Reference} {c : Call}
    (hc : c ∈ (range maxCells first last).calls w s) : ∃ a, c = .cell a := by
  simp only [calls] at hc
  split at hc
  · exact absurd hc List.not_mem_nil
  · obtain ⟨a, -, rfl⟩ := List.mem_map.mp hc
    exact ⟨a, rfl⟩

/-- A cell only calls for the expression that it holds, and only where no guard stops it. -/
theorem cell_calls {a : Address} {c : Call} (hc : c ∈ Cell.calls w s a) :
    s.Admits w a ∧ ∃ e, w.Holds a e ∧ c = .evaluate e := by
  unfold Cell.calls at hc
  split at hc
  · next source hg =>
    split at hc
    · next hadmits =>
      split at hc
      · next e he => exact ⟨hadmits, e, ⟨source, hg, he⟩, List.mem_singleton.mp hc⟩
      · exact nomatch hc
    · exact nomatch hc
  · exact nomatch hc

/-- What is left for a call that is made: an expression calls for less than itself, and a cell gives
the room that it takes for the expression that it holds. -/
inductive Makes (w : Setting) : Call × Session → Call × Session → Prop where
  | evaluate {e : Expr} {c : Call} {s s' : Session} (hc : c.levels ≤ e.height)
      (hroom : s'.room w = s.room w) : Makes w (.evaluate e, s) (c, s')
  | range (maxCells : Nat) (first last : Reference) (a : Address) {s s' : Session}
      (hroom : s'.room w = s.room w) : Makes w (.range maxCells first last, s) (.cell a, s')
  | cell {a : Address} {e : Expr} {s s' : Session} (he : w.Holds a e)
      (hroom : s'.room w + 1 = s.room w) : Makes w (.cell a, s) (.evaluate e, s')

theorem makes_of_made {p q : Call × Session} (h : p.2.Valid w) (hq : q ∈ made w p) :
    Makes w p q := by
  have hcall := fst_mem_calls_of_made hq
  have hroom := room_of_made h hq
  obtain ⟨c, s⟩ := p
  obtain ⟨c', s'⟩ := q
  cases c with
  | evaluate e => exact .evaluate (levels_le_height hcall) hroom
  | range maxCells first last =>
    obtain ⟨a, rfl⟩ := range_calls hcall
    exact .range maxCells first last a hroom
  | cell a =>
    obtain ⟨hadmits, e, he, rfl⟩ := cell_calls hcall
    exact .cell he ((congrArg (· + 1) hroom).trans (Session.room_of_admits hadmits).symm)

/-- A call hands on no more than its bound, and an expression hands on less. -/
theorem Makes.bound_le {p q : Call × Session} (h : Makes w p q) :
    bound w q + p.1.isEvaluate.toNat ≤ bound w p := by
  cases h with
  | @evaluate e c s s' hc hroom =>
    show c.levels + s'.room w * _ + 1 ≤ e.height + 1 + s.room w * _
    rw [hroom]
    omega
  | @range maxCells first last a s s' hroom =>
    show 0 + s'.room w * _ + 0 ≤ 0 + s.room w * _
    rw [hroom]
    exact Nat.le_refl _
  | @cell a e s s' he hroom =>
    obtain ⟨source, -, he⟩ := he
    have hheight := Expr.height_le_of_ofText he
    show e.height + 1 + s'.room w * _ + 0 ≤ 0 + s.room w * _
    rw [← hroom, Nat.add_mul, Nat.one_mul]
    omega

/-- Whatever calls are nested, each made by the one before, no more of them evaluate an expression
than the first one allows. -/
theorem countP_le_bound {p : Call × Session} (h : p.2.Valid w) {ps : List (Call × Session)}
    (hchain : (p :: ps).IsChain fun p q => q ∈ made w p) :
    (p :: ps).countP (·.1.isEvaluate) ≤ bound w p := by
  induction ps generalizing p with
  | nil =>
    obtain ⟨c, s⟩ := p
    cases c with
    | evaluate e =>
      show 1 ≤ e.height + 1 + _
      omega
    | _ => exact Nat.zero_le _
  | cons q ps ih =>
    obtain ⟨hq, hchain⟩ := List.isChain_cons_cons.mp hchain
    have hrest := ih (made_valid h hq) hchain
    have hstep := (makes_of_made h hq).bound_le
    rw [List.countP_cons]
    cases hp : p.1.isEvaluate with
    | true =>
      rw [hp, Bool.toNat_true] at hstep
      simp only [if_true]
      omega
    | false =>
      rw [hp, Bool.toNat_false] at hstep
      simp only [Bool.false_eq_true, if_false]
      omega

/-! ## Induction on the tree of calls -/

/-- A range calls for cells and a cell for an expression, without a smaller bound. -/
def rank : Call → Nat
  | evaluate _ => 0
  | cell _ => 1
  | range _ _ _ => 2

/-- How far a call is from the end of the recursion. -/
def weight (w : Setting) (p : Call × Session) : Nat :=
  3 * bound w p + p.1.rank

theorem Makes.weight_lt {p q : Call × Session} (h : Makes w p q) : weight w q < weight w p := by
  have hbound := h.bound_le
  unfold weight
  cases h with
  | @evaluate e c s s' hc hroom =>
    have hrank : c.rank ≤ 2 := by cases c <;> simp [rank]
    show 3 * bound w (c, s') + c.rank < 3 * bound w (.evaluate e, s) + 0
    simp only [isEvaluate, Bool.toNat_true] at hbound
    omega
  | range maxCells first last a hroom =>
    simp only [isEvaluate, Bool.toNat_false] at hbound
    simp only [rank]
    omega
  | cell he hroom =>
    simp only [isEvaluate, Bool.toNat_false] at hbound
    simp only [rank]
    omega

/-- What holds of a call if it holds of all calls it makes holds of every call. -/
theorem induction {P : Call × Session → Prop}
    (step : ∀ p, p.2.Valid w → (∀ q ∈ made w p, P q) → P p) (p : Call × Session)
    (h : p.2.Valid w) : P p := by
  induction hn : weight w p using Nat.strongRecOn generalizing p with
  | _ n ih =>
    subst hn
    refine step p h fun q hq => ih _ ?_ q (made_valid h hq) rfl
    exact (makes_of_made h hq).weight_lt

end Call

end Spreadsheet
