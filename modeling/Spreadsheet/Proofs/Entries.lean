import Spreadsheet.Proofs.Nesting

/-!
# The formula cells that are entered

The tree of calls is finite, so the formula cells that are entered in it can be listed in the order
of time. A cell is entered where no guard stops it, and only this is counted as an evaluation.

Results:
1. `Call.exists_enters`, `Call.Enters.unique`: the formula cells that are entered, in order;
2. `Call.Enters.inTurn_induction`: induction on what is entered, call by call;
3. `Call.Enters.evaluations_eq`: the session counts what is entered.
-/

namespace Spreadsheet

open Formula

variable {w : Setting} {s : Session} {a : Address}

namespace Call

/-! ## The cells in the order of time -/

/-- The cell that a call enters, if it enters one. -/
def entry (w : Setting) : Call × Session → List Address
  | (cell a, s) =>
    match w.grid a with
    | some (.formula _) => if s.Admits w a then [a] else []
    | _ => []
  | _ => []

theorem entry_of_admits (hform : w.IsFormula a) (h : s.Admits w a) : entry w (cell a, s) = [a] := by
  obtain ⟨source, hg⟩ := hform
  simp only [entry, hg, if_pos h]

theorem entry_of_not_admits (h : w.IsFormula a → ¬s.Admits w a) : entry w (cell a, s) = [] := by
  rw [entry]
  split
  · next source hg => exact if_neg (h ⟨source, hg⟩)
  · rfl

theorem made_of_not_admits (h : w.IsFormula a → ¬s.Admits w a) : made w (cell a, s) = [] := by
  have hcalls : Cell.calls w s a = [] := by
    unfold Cell.calls
    split
    · next source hg => exact if_neg (h ⟨source, hg⟩)
    · rfl
  rw [made, calls, hcalls]
  rfl

/-- The cells that are entered in calls that are made in turn, in the order of time. -/
inductive Enters (w : Setting) : List (Call × Session) → List Address → Prop where
  | nil : Enters w [] []
  | cons {p : Call × Session} {ps : List (Call × Session)} {within behind : List Address}
      (hmade : Enters w (made w p) within) (hrest : Enters w ps behind) :
      Enters w (p :: ps) (entry w p ++ within ++ behind)

theorem Enters.unique {ps : List (Call × Session)} {cells cells' : List Address}
    (h : Enters w ps cells) (h' : Enters w ps cells') : cells = cells' := by
  induction h generalizing cells' with
  | nil =>
    cases h'
    rfl
  | cons _ _ ihmade ihrest =>
    cases h' with
    | cons hmade hrest => rw [ihmade hmade, ihrest hrest]

theorem exists_enters_of_forall {ps : List (Call × Session)}
    (h : ∀ p ∈ ps, ∃ cells, Enters w (made w p) cells) : ∃ cells, Enters w ps cells := by
  induction ps with
  | nil => exact ⟨[], .nil⟩
  | cons p ps ih =>
    obtain ⟨hp, hps⟩ := List.forall_mem_cons.mp h
    obtain ⟨within, hmade⟩ := hp
    obtain ⟨behind, hrest⟩ := ih hps
    exact ⟨_, .cons hmade hrest⟩

/-- The tree of calls is finite, whatever the grid. -/
theorem exists_enters (c : Call) (h : s.Valid w) : ∃ cells, Enters w [(c, s)] cells := by
  obtain ⟨within, hmade⟩ : ∃ cells, Enters w (made w (c, s)) cells :=
    induction (fun p _ ih => exists_enters_of_forall ih) (c, s) h
  exact ⟨_, .cons hmade .nil⟩

/-! ## Counting them -/

/-- What holds of calls that are made in turn and the cells that they enter, if each call adds its
own entry and what holds of the calls that it makes. -/
theorem Enters.inTurn_induction {P : List Call → Session → List Address → Prop}
    (nil : ∀ s, P [] s [])
    (cons : ∀ c cs s within behind, s.Valid w → Enters w (made w (c, s)) within →
      ((c.inner s).Valid w → P (c.calls w s) (c.inner s) within) → P cs (c.run w s) behind →
      P (c :: cs) s (entry w (c, s) ++ within ++ behind))
    {cs : List Call} {cells : List Address} (h : s.Valid w)
    (henters : Enters w (inTurn w cs s) cells) : P cs s cells := by
  generalize hps : inTurn w cs s = ps at henters
  induction henters generalizing cs s with
  | nil =>
    cases cs with
    | nil => exact nil s
    | cons c cs => exact nomatch hps
  | @cons p ps within behind hmade hrest ihmade ihrest =>
    cases cs with
    | nil => exact nomatch hps
    | cons c cs =>
      obtain ⟨rfl, rfl⟩ := List.cons.inj hps
      exact cons c cs s within behind h hmade (fun hinner => ihmade hinner rfl)
        (ihrest (run_keeps h c).1 rfl)

/-- What a call adds to the count: its own entry and those of the calls that it makes. -/
theorem evaluations_run {c : Call} {within : List Address} (h : s.Valid w)
    (hmade : Enters w (made w (c, s)) within)
    (hcalls : (c.inner s).Valid w → (runAll w (c.calls w s) (c.inner s)).evaluations =
      (c.inner s).evaluations + within.length) :
    (c.run w s).evaluations = s.evaluations + ((entry w (c, s)).length + within.length) := by
  cases c with
  | evaluate e =>
    rw [evaluate_run_eq_runAll h]
    exact (hcalls h).trans (by simp [inner, entry])
  | range maxCells first last =>
    rw [range_run_eq_runAll h]
    exact (hcalls h).trans (by simp [inner, entry])
  | cell a =>
    by_cases hadmits : w.IsFormula a ∧ s.Admits w a
    · obtain ⟨hform, hadmits⟩ := hadmits
      obtain ⟨v, hrun⟩ := cell_run_of_admits hform hadmits
      rw [hrun, Session.remember_evaluations, Session.leave_evaluations,
        hcalls (h.enter_of_admits hadmits), entry_of_admits hform hadmits, List.length_singleton,
        ← Nat.add_assoc]
      rfl
    · rw [not_and] at hadmits
      rw [made_of_not_admits hadmits] at hmade
      cases hmade
      rw [cell_run_of_not_admits hadmits, entry_of_not_admits hadmits]
      rfl

/-- Entering a cell is what counts as an evaluation, in a call and in all calls made during it. -/
theorem Enters.evaluations_eq {cs : List Call} {cells : List Address} (h : s.Valid w)
    (henters : Enters w (inTurn w cs s) cells) :
    (runAll w cs s).evaluations = s.evaluations + cells.length := by
  refine Enters.inTurn_induction (P := fun cs s cells =>
    (runAll w cs s).evaluations = s.evaluations + cells.length) (fun _ => rfl) ?_ h henters
  intro c cs s within behind hs hmade hcalls hrest
  have hcall := evaluations_run hs hmade hcalls
  show (runAll w cs (c.run w s)).evaluations = _
  rw [hrest, hcall, List.length_append, List.length_append]
  omega

end Call

end Spreadsheet
