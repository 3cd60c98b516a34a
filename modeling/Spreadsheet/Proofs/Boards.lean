import Spreadsheet.Proofs.Isolation

/-!
# Sheets as boards

Seen from outside a sheet is a board of fixed size: headers, a text in each cell and a style in some
of them. What is stored is less regular. The texts are lists in a list, and nothing in their type
says that they are as long as the headers, although all bounds are checked against the headers; the
styles are a list of entries in an order of their own.

Every sheet that is made has the right shape, and every edit keeps it. So what is inside the bounds
has a text, and an edit of the sheet is the same edit of its board: it replaces one text or one
style, or it fails and replaces nothing.

Results:
1. `Shaped.apply`: an edit keeps the shape of a sheet;
2. `after_eq`: an edit that fails changes nothing;
3. `board_apply`: an edit of a sheet is the same edit of its board;
4. `Shaped.answers`: what can be asked about a cell of a sheet has an answer;
5. `edits_act_on_boards`: all of this for every sheet that is made and every list of edits.
-/

namespace Spreadsheet

/-! ## Edits -/

/-- What can be done to a sheet that is made. -/
inductive Edit where
  | setCell (row col : Nat) (text : String)
  | setA1 (a1 text : String)
  | setStyle (row col : Nat) (style : Style)
  | clearStyle (row col : Nat)
  | withEngine (engine : Engine)

namespace Edit

/-- What is done, step by step. -/
def change : Edit → Sheet.Change Unit
  | setCell row col text => Sheet.enterText row col text
  | setA1 a1 text => Sheet.enterTextAt a1 text
  | setStyle row col style => Sheet.enterStyle row col style
  | clearStyle row col => modify fun s => (s.clearStyle row col).2
  | withEngine engine => modify (·.withEngine engine)

/-- The edited sheet, or why there is none. -/
def apply (s : Sheet) : Edit → Except SheetError Sheet
  | setCell row col text => s.setCell row col text
  | setA1 a1 text => s.setA1 a1 text
  | setStyle row col style => s.setStyle row col style
  | clearStyle row col => .ok (s.clearStyle row col).2
  | withEngine engine => .ok (s.withEngine engine)

/-- The cell whose style is edited. -/
def styled? : Edit → Option (Nat × Nat)
  | setStyle row col _ | clearStyle row col => some (row, col)
  | _ => none

end Edit

namespace Sheet

/-- The sheet that an edit leaves, whether or not it fails. -/
def after (s : Sheet) (e : Edit) : Sheet :=
  e.change.left s

/-- The sheet after some edits. -/
def edited (s : Sheet) (edits : List Edit) : Sheet :=
  edits.foldl after s

/-- The sheets that an edit can start from. -/
inductive Made : Sheet → Prop where
  | empty : Made {}
  | ofSize (rows cols : Nat) : Made (ofSize rows cols)
  | ofRows (columns : Array String) (data : Array (Array String)) : Made (ofRows columns data)
  | ofJson {j : Json} {s : Sheet} (h : Sheet.ofJson j = .ok s) : Made s

end Sheet

/-! ## Boards -/

/-- Texts and styles by their place, with the headers and the number of rows. -/
structure Board where
  headers : Array String
  rows : Nat
  text : Nat × Nat → Option String
  style : Nat × Nat → Option Style

namespace Board

/-- A place on the board. -/
def place (b : Board) (row col : Nat) : Except SheetError (Nat × Nat) :=
  if row < b.rows ∧ col < b.headers.size then .ok (row, col)
  else .error (.outOfBounds row col b.rows b.headers.size)

/-- Writes a text in one place. -/
def write (b : Board) (row col : Nat) (text : String) : Except SheetError Board := do
  let p ← b.place row col
  return { b with text := Function.update b.text p (some text) }

/-- The edited board, or why there is none. -/
def apply (b : Board) : Edit → Except SheetError Board
  | .setCell row col text => b.write row col text
  | .setA1 a1 text => do
    let (row, col) ← Sheet.indexOf a1
    b.write row col text
  | .setStyle row col style => do
    let p ← b.place row col
    return { b with style := Function.update b.style p (some style) }
  | .clearStyle row col => return { b with style := Function.update b.style (row, col) none }
  | .withEngine _ => return b

/-- The board after an edit; one that fails leaves it as it was. -/
def after (b : Board) (e : Edit) : Board :=
  match b.apply e with
  | .ok b' => b'
  | .error _ => b

/-- The board after some edits. -/
def edited (b : Board) (edits : List Edit) : Board :=
  edits.foldl after b

end Board

namespace Sheet

open Number

variable {s s' : Sheet} {row col : Nat} {text : String} {style : Style}

/-- The sheet as it is seen from outside. -/
def board (s : Sheet) : Board where
  headers := s.columns
  rows := s.rowCount
  text p := s.text? p.1 p.2
  style p := s.style? p.1 p.2

/-! ## Edits that fail -/

/-- Where the change fails, nothing has been changed. -/
def Change.Atomic (c : Change Unit) : Prop :=
  ∀ s e s', c.run s = .error e s' → s' = s

theorem atomic_enterText (row col : Nat) (text : String) : (enterText row col text).Atomic := by
  intro s e s' h
  rw [run_enterText] at h
  split at h <;> cases h
  rfl

theorem atomic_enterStyle (row col : Nat) (style : Style) : (enterStyle row col style).Atomic := by
  intro s e s' h
  rw [run_enterStyle] at h
  split at h <;> cases h
  rfl

theorem atomic_enterTextAt (a1 text : String) : (enterTextAt a1 text).Atomic := by
  intro s e s' h
  rw [run_enterTextAt] at h
  cases hindex : indexOf a1 with
  | ok cell =>
    rw [hindex] at h
    exact atomic_enterText cell.1 cell.2 text s e s' h
  | error x =>
    rw [hindex] at h
    cases h
    rfl

/-- All that can be done to a sheet is checked before anything is changed. -/
theorem atomic_change (e : Edit) : e.change.Atomic := by
  cases e with
  | setCell row col text => exact atomic_enterText row col text
  | setA1 a1 text => exact atomic_enterTextAt a1 text
  | setStyle row col style => exact atomic_enterStyle row col style
  | clearStyle row col => exact nofun
  | withEngine engine => exact nofun

theorem apply_change (s : Sheet) (e : Edit) : e.change.apply s = e.apply s := by
  cases e <;> rfl

/-- An edit that fails leaves the sheet as it was. -/
theorem after_eq (s : Sheet) (e : Edit) : s.after e = (e.apply s).toOption.getD s := by
  rw [after, ← apply_change, Change.left, Change.apply]
  cases hrun : e.change.run s with
  | ok _ s' => rfl
  | error x s' => exact atomic_change e s x s' hrun

/-! ## Shape -/

/-- All rows are as wide as the headers, and the styles belong to cells of the sheet, at most one to
each. -/
structure Shaped (s : Sheet) : Prop where
  rectangular : s.Rectangular
  nodup : (s.styles.map Prod.fst).Nodup
  inside : ∀ p ∈ s.styles, s.contains p.1.1 p.1.2 = true

theorem shaped_of_wellStyled (hs : s.Rectangular) (h : s.WellStyled) : s.Shaped :=
  ⟨hs, h.nodup, h.contains⟩

theorem Made.shaped (h : s.Made) : s.Shaped := by
  cases h with
  | empty => exact shaped_of_wellStyled nofun (.of_styles_eq_nil rfl)
  | ofSize rows cols =>
    exact shaped_of_wellStyled (rectangular_ofSize rows cols) (.of_styles_eq_nil rfl)
  | ofRows columns data =>
    exact shaped_of_wellStyled (rectangular_ofRows columns data) (.of_styles_eq_nil rfl)
  | ofJson h => exact shaped_of_wellStyled (rectangular_of_ofJson h) (wellStyled_of_ofJson h)

namespace Shaped

theorem withText (h : s.Shaped) (row col : Nat) (text : String) :
    (s.withText row col text).Shaped where
  rectangular := h.rectangular.withText row col text
  nodup := h.nodup
  inside p hp := (contains_withText p.1.1 p.1.2).trans (h.inside p hp)

theorem withStyle (h : s.Shaped) (hin : s.contains row col = true) (style : Style) :
    (s.withStyle row col style).Shaped where
  rectangular := h.rectangular
  nodup := nodup_insertStyle h.nodup
  inside p hp := by
    rcases mem_insertStyle hp with rfl | hp
    · exact hin
    · exact h.inside p hp

theorem clearStyle (h : s.Shaped) (row col : Nat) : (s.clearStyle row col).2.Shaped where
  rectangular := h.rectangular
  nodup := h.nodup.sublist (List.filter_sublist.map Prod.fst)
  inside p hp := h.inside p (List.mem_filter.mp hp).1

/-- An edit keeps the shape. -/
theorem apply (h : s.Shaped) {e : Edit} (he : e.apply s = .ok s') : s'.Shaped := by
  cases e with
  | setCell row col text =>
    obtain ⟨-, rfl⟩ := setCell_eq_ok_iff.mp he
    exact h.withText row col text
  | setA1 a1 text =>
    obtain ⟨cell, -, he⟩ := setA1_eq_ok_iff.mp he
    obtain ⟨-, rfl⟩ := setCell_eq_ok_iff.mp he
    exact h.withText cell.1 cell.2 text
  | setStyle row col style =>
    obtain ⟨hin, rfl⟩ := setStyle_eq_ok_iff.mp he
    exact h.withStyle hin style
  | clearStyle row col =>
    cases he
    exact h.clearStyle row col
  | withEngine engine =>
    cases he
    exact ⟨h.rectangular, h.nodup, h.inside⟩

theorem after (h : s.Shaped) (e : Edit) : (s.after e).Shaped := by
  rw [after_eq]
  cases he : e.apply s with
  | ok s' => exact h.apply he
  | error x => exact h

end Shaped

/-! ## Edits of the board -/

theorem place_of_contains (h : s.contains row col = true) :
    s.board.place row col = .ok (row, col) :=
  if_pos (contains_iff.mp h)

theorem place_of_not_contains (h : ¬s.contains row col = true) :
    s.board.place row col = .error (s.outOfBounds row col) :=
  if_neg (mt contains_iff.mpr h)

/-- The text that was written is there. -/
theorem text?_withText_self (hs : s.Rectangular) (hin : s.contains row col = true) :
    (s.withText row col text).text? row col = some text := by
  obtain ⟨hrow, hcol⟩ := contains_iff.mp hin
  rw [← hs s.data[row] (Array.getElem_mem hrow)] at hcol
  simp only [text?, withText, Array.getElem?_modify, if_true, Array.getElem?_eq_getElem hrow,
    Option.map_some, Option.bind_some, Array.getElem?_eq_getElem hcol]

theorem board_withText (hs : s.Rectangular) (hin : s.contains row col = true) :
    (s.withText row col text).board =
      { s.board with text := Function.update s.board.text (row, col) (some text) } := by
  have htext : (s.withText row col text).board.text =
      Function.update s.board.text (row, col) (some text) := by
    funext p
    by_cases hp : p = (row, col)
    · rw [hp, Function.update_self]
      exact text?_withText_self hs hin
    · rw [Function.update_of_ne hp]
      exact text?_withText_of_ne (Ne.symm hp)
  rw [← htext]
  simp only [board, rowCount_withText]
  rfl

theorem lookup_insertStyle (key k : Nat × Nat) (style : Style)
    (styles : List ((Nat × Nat) × Style)) :
    (insertStyle key style styles).lookup k = if k = key then some style else styles.lookup k := by
  induction styles with
  | nil => grind [insertStyle, List.lookup]
  | cons q styles ih => grind [insertStyle, List.lookup]

theorem lookup_filter_ne (key k : Nat × Nat) (styles : List ((Nat × Nat) × Style)) :
    (styles.filter (·.1 ≠ key)).lookup k = if k = key then none else styles.lookup k := by
  induction styles with
  | nil => grind [List.lookup]
  | cons q styles ih => grind [List.lookup]

theorem board_withStyle : (s.withStyle row col style).board =
    { s.board with style := Function.update s.board.style (row, col) (some style) } := by
  have hstyle : (s.withStyle row col style).board.style =
      Function.update s.board.style (row, col) (some style) := by
    funext p
    rw [Function.update_apply]
    exact lookup_insertStyle (row, col) p style s.styles
  rw [← hstyle]
  rfl

theorem board_clearStyle : (s.clearStyle row col).2.board =
    { s.board with style := Function.update s.board.style (row, col) none } := by
  have hstyle : (s.clearStyle row col).2.board.style =
      Function.update s.board.style (row, col) none := by
    funext p
    rw [Function.update_apply]
    exact lookup_filter_ne (row, col) p s.styles
  rw [← hstyle]
  rfl

/-- Writing a text into a sheet writes it on the board, and fails where that fails. -/
theorem board_setCell (hs : s.Rectangular) (row col : Nat) (text : String) :
    (s.setCell row col text).map board = s.board.write row col text := by
  rw [setCell_eq, Board.write]
  by_cases hin : s.contains row col = true
  · rw [if_pos hin, place_of_contains hin]
    exact congrArg Except.ok (board_withText hs hin)
  · rw [if_neg hin, place_of_not_contains hin]
    rfl

theorem board_setStyle (s : Sheet) (row col : Nat) (style : Style) :
    (s.setStyle row col style).map board = s.board.apply (.setStyle row col style) := by
  rw [setStyle_eq, Board.apply]
  by_cases hin : s.contains row col = true
  · rw [if_pos hin, place_of_contains hin]
    exact congrArg Except.ok board_withStyle
  · rw [if_neg hin, place_of_not_contains hin]
    rfl

/-- An edit of a sheet is the same edit of its board, and fails where that fails. -/
theorem board_apply (h : s.Shaped) (e : Edit) : (e.apply s).map board = s.board.apply e := by
  cases e with
  | setCell row col text => exact board_setCell h.rectangular row col text
  | setA1 a1 text =>
    rw [Edit.apply, setA1, Change.apply, run_enterTextAt, Board.apply]
    cases hindex : indexOf a1 with
    | error x => rfl
    | ok cell => exact board_setCell h.rectangular cell.1 cell.2 text
  | setStyle row col style => exact board_setStyle s row col style
  | clearStyle row col => exact congrArg Except.ok board_clearStyle
  | withEngine engine => rfl

theorem board_after (h : s.Shaped) (e : Edit) : (s.after e).board = s.board.after e := by
  rw [after_eq, Board.after, ← board_apply h e]
  cases e.apply s <;> rfl

theorem board_edited (h : s.Shaped) (edits : List Edit) :
    (s.edited edits).Shaped ∧ (s.edited edits).board = s.board.edited edits := by
  induction edits generalizing s with
  | nil => exact ⟨h, rfl⟩
  | cons e edits ih =>
    obtain ⟨hshaped, hboard⟩ := ih (h.after e)
    exact ⟨hshaped, hboard.trans (congrArg (·.edited edits) (board_after h e))⟩

end Sheet

/-- An edit keeps the headers and the number of rows. -/
theorem Board.size_of_apply {b b' : Board} {e : Edit} (h : b.apply e = .ok b') :
    b'.headers = b.headers ∧ b'.rows = b.rows := by
  have hwrite : ∀ row col text, b.write row col text = .ok b' →
      b'.headers = b.headers ∧ b'.rows = b.rows := by
    intro row col text h
    obtain ⟨p, -, h⟩ := Sheet.bind_eq_ok_iff.mp h
    cases h
    exact ⟨rfl, rfl⟩
  cases e with
  | setCell row col text => exact hwrite row col text h
  | setA1 a1 text =>
    obtain ⟨cell, -, h⟩ := Sheet.bind_eq_ok_iff.mp h
    exact hwrite cell.1 cell.2 text h
  | setStyle row col style =>
    obtain ⟨p, -, h⟩ := Sheet.bind_eq_ok_iff.mp h
    cases h
    exact ⟨rfl, rfl⟩
  | clearStyle row col =>
    cases h
    exact ⟨rfl, rfl⟩
  | withEngine engine =>
    cases h
    exact ⟨rfl, rfl⟩

theorem Board.size_edited (b : Board) (edits : List Edit) :
    (b.edited edits).headers = b.headers ∧ (b.edited edits).rows = b.rows := by
  induction edits generalizing b with
  | nil => exact ⟨rfl, rfl⟩
  | cons e edits ih =>
    have hstep : (b.after e).headers = b.headers ∧ (b.after e).rows = b.rows := by
      unfold Board.after
      split
      · next h => exact Board.size_of_apply h
      · exact ⟨rfl, rfl⟩
    exact ⟨(ih _).1.trans hstep.1, (ih _).2.trans hstep.2⟩

namespace Sheet

variable {s : Sheet} {row col : Nat}

/-! ## Entries of styles -/

theorem filter_insertStyle (key : Nat × Nat) (style : Style)
    (styles : List ((Nat × Nat) × Style)) :
    (insertStyle key style styles).filter (some key ≠ some ·.1) =
      styles.filter (some key ≠ some ·.1) := by
  induction styles with
  | nil => simp [insertStyle]
  | cons q styles ih =>
    rw [insertStyle]
    split
    · next heq => simp [heq]
    · rw [List.filter_cons, List.filter_cons, ih]

/-- The entries of all other cells stay as they were, in their order. -/
theorem filter_styles_after (s : Sheet) (e : Edit) :
    (s.after e).styles.filter (e.styled? ≠ some ·.1) =
      s.styles.filter (e.styled? ≠ some ·.1) := by
  rw [after_eq]
  cases he : e.apply s with
  | error x => rfl
  | ok s' =>
    cases e with
    | setCell row col text =>
      obtain ⟨-, rfl⟩ := setCell_eq_ok_iff.mp he
      rfl
    | setA1 a1 text =>
      obtain ⟨_, -, he⟩ := setA1_eq_ok_iff.mp he
      obtain ⟨-, rfl⟩ := setCell_eq_ok_iff.mp he
      rfl
    | setStyle row col style =>
      obtain ⟨-, rfl⟩ := setStyle_eq_ok_iff.mp he
      exact filter_insertStyle (row, col) style s.styles
    | clearStyle row col =>
      cases he
      show (s.styles.filter _).filter _ = _
      rw [List.filter_filter]
      refine List.filter_congr fun p _ => ?_
      simp [Edit.styled?, eq_comm]
    | withEngine engine =>
      cases he
      rfl

/-! ## Questions about cells -/

/-- What can be asked about a cell has an answer: it has a text, and a list of precedents; if it has
an address it has a value and shows a text, and its value has its place among all values. -/
structure Answers (s : Sheet) (row col : Nat) : Prop where
  raw : ∃ text, s.text? row col = some text ∧ s.raw row col = .ok text
  precedents : ∃ ds, s.precedents row col = .ok ds
  value : (address? row col).isSome → ∃ v, s.evaluate row col = .ok v ∧
    s.display row col = .ok (s.formatValue row col v)
  recalculate : ∃ v, s.recalculate[row]?.bind (·[col]?) = some v ∧
    ∀ u, s.evaluate row col = .ok u → v = u

theorem Rectangular.text?_of_contains (h : s.Rectangular) (hin : s.contains row col = true) :
    ∃ text, s.text? row col = some text := by
  obtain ⟨hrow, hcol⟩ := contains_iff.mp hin
  rw [← h s.data[row] (Array.getElem_mem hrow)] at hcol
  exact ⟨s.data[row][col], by simp [text?, hrow, hcol]⟩

theorem length_recalculate : s.recalculate.length = s.rowCount := by
  rw [recalculate, List.length_map, List.length_range]

theorem length_of_mem_recalculate {values : List Value} (h : values ∈ s.recalculate) :
    values.length = s.colCount := by
  obtain ⟨n, -, rfl⟩ := List.mem_map.mp h
  rw [List.length_map, List.length_range]

/-- Each value is computed on its own, and a cell that has none gives an error. -/
theorem getElem?_recalculate (hin : s.contains row col = true) :
    s.recalculate[row]?.bind (·[col]?) =
      some ((s.evaluate row col).toOption.getD (.error .ref)) := by
  obtain ⟨hrow, hcol⟩ : row < s.rowCount ∧ col < s.colCount := contains_iff.mp hin
  rw [recalculate, List.getElem?_map, List.getElem?_range hrow, Option.map_some,
    Option.bind_some, List.getElem?_map, List.getElem?_range hcol, Option.map_some]
  cases s.evaluate row col <;> rfl

/-- What is asked inside the bounds has an answer. -/
theorem Shaped.answers (h : s.Shaped) (hin : s.contains row col = true) : s.Answers row col := by
  obtain ⟨text, htext⟩ := h.rectangular.text?_of_contains hin
  have hraw : s.raw row col = .ok text := raw_of_text? hin htext
  refine ⟨⟨text, htext, hraw⟩, ?_, fun haddress => ?_, ?_⟩
  · rw [precedents, hraw]
    dsimp only [bind, Except.bind]
    split
    · split <;> exact ⟨_, rfl⟩
    · exact ⟨_, rfl⟩
  · obtain ⟨a, ha⟩ := Option.isSome_iff_exists.mp haddress
    have haddr : s.address row col = .ok a := by
      rw [address, checkBounds, if_pos hin, ha]
      rfl
    have hvalue : s.evaluate row col = .ok (s.engine.evaluateCell s.grid a) :=
      bind_eq_ok_iff.mpr ⟨a, haddr, rfl⟩
    exact ⟨_, hvalue, bind_eq_ok_iff.mpr ⟨_, hvalue, rfl⟩⟩
  · refine ⟨(s.evaluate row col).toOption.getD (.error .ref), getElem?_recalculate hin,
      fun u hu => ?_⟩
    rw [hu]
    rfl

/-! ## All sheets that are made -/

/-- Whatever is done to a sheet after it was made, it keeps its size and its shape, and what is
asked about one of its cells has an answer. Its board is the first board with all these edits. An
edit does to the sheet what it does to the board, which is to replace one text or one style or to
fail; it keeps the styles of all other cells in their order, and the sheet that it leaves when it
fails is the sheet as it was. -/
theorem edits_act_on_boards {s₀ : Sheet} (hs : s₀.Made) (edits : List Edit) :
    let s := s₀.edited edits
    (s.rowCount = s₀.rowCount ∧ s.colCount = s₀.colCount) ∧
    (∀ cells ∈ s.data, cells.size = s.colCount) ∧
    ((s.styles.map Prod.fst).Nodup ∧ ∀ p ∈ s.styles, s.contains p.1.1 p.1.2 = true) ∧
    (∀ row col, s.contains row col = true → s.Answers row col) ∧
    s.board = s₀.board.edited edits ∧
    ∀ e : Edit, (e.apply s).map board = s.board.apply e ∧
      (s.after e).styles.filter (e.styled? ≠ some ·.1) = s.styles.filter (e.styled? ≠ some ·.1) ∧
      ∀ x, e.apply s = .error x → s.after e = s := by
  intro s
  obtain ⟨hshaped, hboard⟩ : s.Shaped ∧ s.board = s₀.board.edited edits :=
    board_edited hs.shaped edits
  obtain ⟨hheaders, hrows⟩ := s₀.board.size_edited edits
  rw [← hboard] at hheaders hrows
  refine ⟨⟨hrows, congrArg Array.size hheaders⟩, hshaped.rectangular,
    ⟨hshaped.nodup, hshaped.inside⟩, fun _ _ => hshaped.answers, hboard, fun e => ?_⟩
  refine ⟨board_apply hshaped e, filter_styles_after s e, fun x hx => ?_⟩
  rw [after_eq, hx]
  rfl

theorem edits_act_on_boards_row_that_is_short :
    let s₀ := Sheet.ofRows #["x", "y"] #[#["1"]]
    let s := s₀.edited [.setCell 0 1 "=A1", .setCell 0 2 "2", .setA1 "A2" "3"]
    s₀.Made ∧ s.rowCount = 1 ∧ s.Answers 0 1 ∧ s.text? 0 1 = some "=A1" ∧ s.text? 0 2 = none := by
  intro s₀ s
  have hmade : s₀.Made := .ofRows _ _
  have hs₀ : s₀ = { columns := #["x", "y"], data := #[#["1", ""]] } := by
    simp [s₀, ofRows, width, pad]
  obtain ⟨⟨hrows, hcols⟩, -, -, hanswers, hboard, -⟩ := edits_act_on_boards hmade
    [.setCell 0 1 "=A1", .setCell 0 2 "2", .setA1 "A2" "3"]
  replace hrows : s.rowCount = 1 := hrows.trans (congrArg rowCount hs₀)
  replace hcols : s.colCount = 2 := hcols.trans (congrArg colCount hs₀)
  have hin : s.contains 0 1 = true :=
    contains_iff.mpr ⟨Nat.zero_lt_one.trans_eq hrows.symm, Nat.one_lt_two.trans_eq hcols.symm⟩
  have htext : ∀ p, s.text? p.1 p.2 = (s₀.board.edited _).text p :=
    fun p => congrArg (·.text p) hboard
  rw [hs₀] at htext
  exact ⟨hmade, hrows, hanswers 0 1 hin, htext (0, 1), htext (0, 2)⟩

end Sheet

end Spreadsheet
