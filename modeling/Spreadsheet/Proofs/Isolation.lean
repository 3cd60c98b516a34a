import Spreadsheet.Proofs.Editing
import Spreadsheet.Proofs.History

/-!
# Edits and the cells they can reach

A sheet lists for each cell the cells and ranges that its formula names. Whoever keeps results of
earlier evaluations relies on that list: after an edit, only the cells from which the edited one is
reached along the lists are computed again. So the lists must miss nothing that an evaluation can
look at, behind errors, in ranges and on cycles.

The argument compares two runs. Take a set of cells which no formula in it leaves; where two grids
agree on such a set, the runs from a cell of it are the same step by step, session included.

Results:
1. `Expr.value_congr`, `Cell.value_congr`: a run sees the set it starts in and nothing else;
2. `Sheet.Lists.of_holds`: what a formula in a rectangular sheet names is listed;
3. `edits_reach_only_dependents`: an edit leaves every cell alone that does not reach it.
-/

namespace Spreadsheet

open Formula

/-! ## Two grids -/

namespace Setting

/-- The other grid holds the same in a set of cells, and no formula in the set leaves it. -/
structure Undisturbed (w : Setting) (g : Grid) (cells : Address → Prop) : Prop where
  same : ∀ a, cells a → g a = w.grid a
  closed : ∀ a e, cells a → w.Holds a e → ∀ b ∈ e.cells, cells b

end Setting

section

variable {w : Setting} {g : Grid} {m : Type → Type} [Monad m] [LawfulMonad m]
  {read read' : Address → m Value}

/-- What an expression gives depends on how the cells are read that it names, and not on the grid
otherwise. -/
theorem Formula.Expr.value_congr (e : Expr) (h : ∀ a ∈ e.cells, read' a = read a) :
    e.value { w with grid := g } read' = e.value w read := by
  induction e using Expr.induction with
  | literal v => rfl
  | cell r => exact h r.address (by simp [cells_cell])
  | range r =>
    rw [cells_range] at h
    rw [value_range, value_range, mapM_congr h]
  | unary op e ih =>
    rw [cells_unary] at h
    rw [value_unary, value_unary, ih h]
  | binary op l r ihl ihr =>
    rw [value_binary, value_binary, ihl fun a ha => h a (mem_cells_binary.mpr (.inl ha)),
      ihr fun a ha => h a (mem_cells_binary.mpr (.inr ha))]
    rfl
  | call name args ih =>
    have hargs : args.mapM (value { w with grid := g } read') = args.mapM (value w read) :=
      mapM_congr fun e he => ih e he fun a ha => h a (mem_cells_call.mpr ⟨e, he, ha⟩)
    rw [value_call, value_call, hargs]

theorem Cell.formulaValue_congr {a : Address} {source : String}
    (hg : w.grid a = some (.formula source))
    (h : ∀ e, w.Holds a e → ∀ b ∈ e.cells, read' b = read b) :
    formulaValue { w with grid := g } read' source = formulaValue w read source := by
  cases he : Expr.ofText w.limits.maxNesting source with
  | error x =>
    rw [formulaValue_of_error he]
    exact formulaValue_of_error he
  | ok e =>
    rw [formulaValue_of_ok he, ← e.value_congr (h e ⟨source, hg, he⟩)]
    exact formulaValue_of_ok he

end

namespace Cell

variable {w : Setting} {g : Grid} {cells : Address → Prop} {a : Address}

theorem guarded_congr {read read' : Address → Eval Value} {source : String}
    (h : formulaValue { w with grid := g } read' source = formulaValue w read source) :
    guarded { w with grid := g } (some read') a source = guarded w (some read) a source := by
  simp only [guarded, compute, h]

/-- One cell further on the way in both grids. -/
theorem valueWith_congr (reads : Option ((Address → Eval Value) × (Address → Eval Value)))
    (ha : g a = w.grid a) (h : ∀ p, reads = some p → ∀ e, w.Holds a e → ∀ b ∈ e.cells,
      p.2 b = p.1 b) :
    valueWith { w with grid := g } (reads.map Prod.snd) a = valueWith w (reads.map Prod.fst) a := by
  funext s
  rw [valueWith_apply, valueWith_apply]
  dsimp only
  rw [ha]
  cases hg : w.grid a with
  | none => rfl
  | some c =>
    cases c with
    | blank => rfl
    | literal v => rfl
    | formula source =>
      cases reads with
      | none => rfl
      | some p => exact congrFun (guarded_congr (formulaValue_congr hg (h p rfl))) _

/-- A run from a cell of the set is the same in both grids. -/
theorem value_congr (h : w.Undisturbed g cells) (room : Nat) (ha : cells a) :
    value { w with grid := g } room a = value w room a := by
  induction room generalizing a with
  -- without room no cell is read from here
  | zero => exact valueWith_congr none (h.same a ha) nofun
  | succ room ih =>
    refine valueWith_congr (some (value w room, value { w with grid := g } room)) (h.same a ha)
      fun p hp e he b hb => ?_
    cases hp
    exact ih (h.closed a e ha he b hb)

end Cell

/-! ## Lists of precedents -/

/-- The row and the column. -/
def Address.position (a : Address) : Nat × Nat :=
  (a.row.toNat, a.col.toNat)

namespace Sheet

variable {s : Sheet} {p q : Nat × Nat} {a b : Address} {e : Expr}

/-- What the sheet lists for the cell `p` names the cell `q`, alone or inside a range. -/
def Lists (s : Sheet) (p q : Nat × Nat) : Prop :=
  ∃ ds, s.precedents p.1 p.2 = .ok ds ∧ ∃ d ∈ ds, ∃ a ∈ d.cells, a.position = q

theorem raw_of_text? {row col : Nat} {text : String} (hin : s.contains row col = true)
    (ht : s.text? row col = some text) : s.raw row col = .ok text := by
  rw [raw, checkBounds, if_pos hin, ht]
  rfl

/-- The formula of a cell is compiled for its list. -/
theorem precedents_of_holds (hs : s.Rectangular) (h : (s.engine.setting s.grid).Holds a e) :
    s.precedents a.position.1 a.position.2 = .ok e.references := by
  obtain ⟨source, hg, he⟩ := h
  obtain ⟨text, ht, hsource⟩ := Option.map_eq_some_iff.mp hg
  have hraw : s.raw a.position.1 a.position.2 = .ok text :=
    raw_of_text? (hs.contains_of_text? ht) ht
  have hcompile : s.engine.compile source = .ok ⟨source, e, e.references⟩ :=
    bind_eq_ok_iff.mpr ⟨e, he, rfl⟩
  refine bind_eq_ok_iff.mpr ⟨text, hraw, ?_⟩
  simp only [hsource, hcompile]
  rfl

/-- What the formula of a cell names is listed for it. -/
theorem Lists.of_holds (hs : s.Rectangular) (h : (s.engine.setting s.grid).Holds a e)
    (hb : b ∈ e.cells) : s.Lists a.position b.position := by
  obtain ⟨d, hd, hbd⟩ := List.mem_flatMap.mp hb
  exact ⟨e.references, precedents_of_holds hs h, d, hd, b, hbd, rfl⟩

/-- An address stands for the row and the column it was made from. -/
theorem position_of_address (h : s.address p.1 p.2 = .ok a) : a.position = p := by
  obtain ⟨_, -, h⟩ := bind_eq_ok_iff.mp h
  unfold address? at h
  split at h
  · next a' ha =>
    obtain ⟨⟨hrow, hcol⟩, heq⟩ := Option.ite_none_right_eq_some.mp ha
    cases heq
    cases h
    exact Prod.ext (UInt32.toNat_ofNat_of_lt hrow) (UInt32.toNat_ofNat_of_lt hcol)
  · exact nomatch h

/-! ## Edits -/

section

variable {row col : Nat} (r c : Nat) (text : String)

@[simp] theorem rowCount_withText : (s.withText row col text).rowCount = s.rowCount :=
  Array.size_modify

theorem address_withText : (s.withText row col text).address r c = s.address r c := by
  simp only [address, checkBounds, outOfBounds, contains_withText, rowCount_withText]
  rfl

theorem raw_withText_of_ne (h : (row, col) ≠ (r, c)) :
    (s.withText row col text).raw r c = s.raw r c := by
  simp only [raw, checkBounds, outOfBounds, contains_withText, rowCount_withText,
    text?_withText_of_ne h]
  rfl

theorem precedents_withText_of_ne (h : (row, col) ≠ (r, c)) :
    (s.withText row col text).precedents r c = s.precedents r c := by
  rw [precedents, precedents, raw_withText_of_ne r c text h]
  rfl

end

/-- The cells that are `p` or reached from it, but for the edited one, are the same before and
after, and no formula in them leaves them. -/
theorem undisturbed_withText (hs : s.Rectangular) (hne : p ≠ q)
    (hpq : ¬Relation.TransGen s.Lists p q) (text : String) :
    (s.engine.setting s.grid).Undisturbed (s.withText q.1 q.2 text).grid fun a =>
      Relation.ReflTransGen s.Lists p a.position where
  same a ha := by
    -- reaching the edited cell takes no step or some, and neither can be
    have haq : q ≠ a.position := by
      rintro rfl
      exact (Relation.reflTransGen_iff_eq_or_transGen.mp ha).elim (fun h => hne h.symm) hpq
    exact congrArg (Option.map Content.ofText) (text?_withText_of_ne haq)
  closed _ _ ha he _ hb := ha.tail (.of_holds hs he hb)

theorem evaluate_withText (hs : s.Rectangular) (hne : p ≠ q)
    (hpq : ¬Relation.TransGen s.Lists p q) (text : String) :
    (s.withText q.1 q.2 text).evaluate p.1 p.2 = s.evaluate p.1 p.2 := by
  rw [evaluate, evaluate, address_withText]
  cases ha : s.address p.1 p.2 with
  | error x => rfl
  | ok a =>
    have hrun := Cell.value_congr (undisturbed_withText hs hne hpq text)
      (Session.room (s.engine.setting s.grid) {}) (a := a) (position_of_address ha ▸ .refl)
    have hcell : s.engine.evaluateCell (s.withText q.1 q.2 text).grid a =
        s.engine.evaluateCell s.grid a := by
      rw [Engine.evaluateCell_eq, Engine.evaluateCell_eq]
      exact congrArg Prod.fst (congrFun hrun {})
    exact congrArg Except.ok hcell

end Sheet

/-! ## Edits reach only dependents -/

open Sheet

/-- An edit reaches no cell but the edited one and those that reach it along the lists of
precedents: every other cell keeps its value, what it shows and its own list. The sheet has to be a
rectangle, which every sheet is that is made (`Built.rectangular`). -/
theorem edits_reach_only_dependents {s : Sheet} (hs : s.Rectangular) {p q : Nat × Nat}
    (hq : s.contains q.1 q.2 = true) (hne : p ≠ q) (hpq : ¬Relation.TransGen s.Lists p q)
    (text : String) :
    ∃ s', s.setCell q.1 q.2 text = .ok s' ∧
      s'.evaluate p.1 p.2 = s.evaluate p.1 p.2 ∧
      s'.display p.1 p.2 = s.display p.1 p.2 ∧
      s'.precedents p.1 p.2 = s.precedents p.1 p.2 := by
  have hvalue := evaluate_withText hs hne hpq text
  refine ⟨s.withText q.1 q.2 text, setCell_eq_ok_iff.mpr ⟨hq, rfl⟩, hvalue, ?_, ?_⟩
  · rw [display, hvalue]
    rfl
  · exact precedents_withText_of_ne p.1 p.2 text hne.symm

/-! ## Three cells in a row -/

namespace ThreeCells

/-- The first cell names the second one, and nothing names the third. -/
def sheet : Sheet :=
  .ofRows #["A", "B", "C"] #[#["=B1", "1", "2"]]

theorem eq_of_lists {p : Nat × Nat} (h : sheet.Lists (0, 0) p) : p = (0, 1) := by
  have hlist : sheet.precedents 0 0 = .ok [.cell ⟨⟨0, 1⟩, false, false⟩] := by decide +kernel
  obtain ⟨ds, hds, d, hd, a, ha, rfl⟩ := h
  cases hlist.symm.trans hds
  obtain rfl := List.mem_singleton.mp hd
  obtain rfl := List.mem_singleton.mp ha
  rfl

theorem not_lists {p : Nat × Nat} : ¬sheet.Lists (0, 1) p := by
  have hlist : sheet.precedents 0 1 = .ok [] := by decide +kernel
  rintro ⟨ds, hds, d, hd, -⟩
  cases hlist.symm.trans hds
  exact List.not_mem_nil hd

/-- The third cell is not reached from the first. -/
theorem not_transGen : ¬Relation.TransGen sheet.Lists (0, 0) (0, 2) := by
  intro h
  obtain ⟨p, hp, hrest⟩ := Relation.TransGen.head'_iff.mp h
  obtain rfl := eq_of_lists hp
  rcases hrest.cases_head with heq | ⟨r, hr, -⟩
  · exact absurd heq (by decide)
  · exact not_lists hr

end ThreeCells

open ThreeCells in
/-- Even a formula that names the first cell may be typed into the third one: nothing changes in
the first. -/
theorem edits_reach_only_dependents_three_cells :
    sheet.Rectangular ∧ sheet.contains 0 2 = true ∧
      ((0, 0) : Nat × Nat) ≠ (0, 2) ∧ ¬Relation.TransGen sheet.Lists (0, 0) (0, 2) ∧
      ∃ s', sheet.setCell 0 2 "=A1" = .ok s' ∧
        s'.evaluate 0 0 = sheet.evaluate 0 0 ∧
        s'.display 0 0 = sheet.display 0 0 ∧
        s'.precedents 0 0 = sheet.precedents 0 0 := by
  have hshape : sheet.Rectangular := rectangular_ofRows _ _
  have hin : sheet.contains 0 2 = true := by decide +kernel
  have hne : ((0, 0) : Nat × Nat) ≠ (0, 2) := by decide
  exact ⟨hshape, hin, hne, not_transGen,
    edits_reach_only_dependents hshape hin hne not_transGen "=A1"⟩

end Spreadsheet
