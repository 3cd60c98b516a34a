import Spreadsheet.Proofs.Members
import Spreadsheet.Proofs.StyleKeys
import Spreadsheet.Sheet.Document

/-!
# Sheets as they are made

A sheet starts as a size, as rows or as a document, and from then on it is only edited. The type
says nothing about the shape of a sheet, but whatever is made this way has one: all rows are as
wide as the headers, and styles belong to cells of the sheet, at most one to each.

Results:
1. `setCell_eq_ok_iff`, `setStyle_eq_ok_iff`, `setA1_eq_ok_iff`: what an edit does, and when;
2. `text?_withText_of_ne`: an edit changes the text of one cell and of no other;
3. `Built.rectangular`: every sheet that is made is a rectangle;
4. `Built.wellStyled`: and its styles belong to its cells.
-/

namespace Spreadsheet

open Number

namespace Sheet

variable {s s' : Sheet} {row col : Nat} {text : String} {style : Style}

/-! ## Edits -/

/-- A computation of two steps gives a result when both do. -/
theorem bind_eq_ok_iff {ε α β : Type} {x : Except ε α} {f : α → Except ε β} {b : β} :
    (x >>= f) = .ok b ↔ ∃ a, x = .ok a ∧ f a = .ok b := by
  cases x with
  | error e => exact ⟨nofun, fun ⟨_, h, _⟩ => nomatch h⟩
  | ok a => exact ⟨fun h => ⟨a, rfl, h⟩, fun ⟨_, h, hb⟩ => Except.ok.inj h ▸ hb⟩

theorem contains_iff : s.contains row col = true ↔ row < s.data.size ∧ col < s.columns.size := by
  rw [contains, Bool.and_eq_true, decide_eq_true_eq, decide_eq_true_eq]
  exact Iff.rfl

/-- A change behind a check of the bounds is made in them, and outside nothing is changed. -/
theorem run_requireCell_bind (s : Sheet) (row col : Nat) (c : Unit → Change Unit) :
    (requireCell row col >>= c).run s =
      if s.contains row col then (c ()).run s else .error (s.outOfBounds row col) s := by
  have hcheck : requireCell row col s =
      if s.contains row col then .ok () s else .error (s.outOfBounds row col) s := by
    show (MonadExcept.ofExcept (s.checkBounds row col) : Change Unit) s = _
    unfold checkBounds
    split <;> rfl
  show EStateM.bind (requireCell row col) c s = _
  rw [EStateM.bind, hcheck]
  by_cases h : s.contains row col = true
  · rw [if_pos h, if_pos h]
    rfl
  · rw [if_neg h, if_neg h]

theorem run_enterText (s : Sheet) (row col : Nat) (text : String) : (enterText row col text).run s =
    if s.contains row col then .ok () (s.withText row col text)
    else .error (s.outOfBounds row col) s :=
  run_requireCell_bind s row col _

theorem run_enterStyle (s : Sheet) (row col : Nat) (style : Style) :
    (enterStyle row col style).run s =
      if s.contains row col then .ok () (s.withStyle row col style)
      else .error (s.outOfBounds row col) s :=
  run_requireCell_bind s row col _

/-- A change at a written address is the change at its row and column. -/
theorem run_enterTextAt (s : Sheet) (a1 text : String) : (enterTextAt a1 text).run s =
    match indexOf a1 with
    | .ok cell => (enterText cell.1 cell.2 text).run s
    | .error e => .error e s := by
  show EStateM.bind (MonadExcept.ofExcept (indexOf a1)) _ s = _
  cases indexOf a1 <;> rfl

theorem setCell_eq (s : Sheet) (row col : Nat) (text : String) : s.setCell row col text =
    if s.contains row col then .ok (s.withText row col text)
    else .error (s.outOfBounds row col) := by
  rw [setCell, Change.apply, run_enterText]
  by_cases h : s.contains row col = true
  · rw [if_pos h, if_pos h]
  · rw [if_neg h, if_neg h]

theorem setStyle_eq (s : Sheet) (row col : Nat) (style : Style) : s.setStyle row col style =
    if s.contains row col then .ok (s.withStyle row col style)
    else .error (s.outOfBounds row col) := by
  rw [setStyle, Change.apply, run_enterStyle]
  by_cases h : s.contains row col = true
  · rw [if_pos h, if_pos h]
  · rw [if_neg h, if_neg h]

theorem setCell_eq_ok_iff :
    s.setCell row col text = .ok s' ↔ s.contains row col = true ∧ s' = s.withText row col text := by
  rw [setCell_eq, eq_comm (a := s')]
  split
  · next h => exact ⟨fun heq => ⟨h, Except.ok.inj heq⟩, fun heq => congrArg Except.ok heq.2⟩
  · next h => exact ⟨nofun, fun heq => absurd heq.1 h⟩

theorem setStyle_eq_ok_iff :
    s.setStyle row col style = .ok s' ↔
      s.contains row col = true ∧ s' = s.withStyle row col style := by
  rw [setStyle_eq, eq_comm (a := s')]
  split
  · next h => exact ⟨fun heq => ⟨h, Except.ok.inj heq⟩, fun heq => congrArg Except.ok heq.2⟩
  · next h => exact ⟨nofun, fun heq => absurd heq.1 h⟩

/-- An edit at a written address is an edit at its row and column. -/
theorem setA1_eq_ok_iff {a1 : String} : s.setA1 a1 text = .ok s' ↔
    ∃ cell, indexOf a1 = .ok cell ∧ s.setCell cell.1 cell.2 text = .ok s' := by
  unfold setA1 Change.apply
  rw [run_enterTextAt]
  cases indexOf a1 with
  | ok cell => exact ⟨fun h => ⟨cell, rfl, h⟩, fun ⟨_, hcell, h⟩ => Except.ok.inj hcell ▸ h⟩
  | error e => exact ⟨nofun, fun ⟨_, hcell, _⟩ => nomatch hcell⟩

@[simp] theorem contains_withText (r c : Nat) :
    (s.withText row col text).contains r c = s.contains r c := by
  rw [Bool.eq_iff_iff, contains_iff, contains_iff, withText, Array.size_modify]

/-- A cell other than the one that is edited keeps its text. -/
theorem text?_withText_of_ne {r c : Nat} (h : (row, col) ≠ (r, c)) :
    (s.withText row col text).text? r c = s.text? r c := by
  simp only [text?, withText, Array.getElem?_modify]
  split
  · next hr =>
    have hc : col ≠ c := fun hc => h (by rw [hr, hc])
    cases s.data[r]? with
    | none => rfl
    | some cells => simp [Array.getElem?_modify, hc]
  · rfl

/-! ## Shape -/

/-- All rows are as wide as the headers. -/
def Rectangular (s : Sheet) : Prop :=
  ∀ cells ∈ s.data, cells.size = s.columns.size

/-- What a rectangle has a text for is a cell. -/
theorem Rectangular.contains_of_text? (h : s.Rectangular) (ht : s.text? row col = some text) :
    s.contains row col = true := by
  obtain ⟨cells, hcells, hc⟩ := Option.bind_eq_some_iff.mp ht
  obtain ⟨hrow, heq⟩ := Array.getElem?_eq_some_iff.mp hcells
  obtain ⟨hcol, -⟩ := Array.getElem?_eq_some_iff.mp hc
  rw [contains_iff, ← h cells (heq ▸ Array.getElem_mem hrow)]
  exact ⟨hrow, hcol⟩

theorem rectangular_ofSize (rows cols : Nat) : (ofSize rows cols).Rectangular := by
  intro cells hcells
  rw [(Array.mem_replicate.mp hcells).2]
  simp [ofSize]

/-- The widest thing of a list, where nothing is narrower than `n`. -/
theorem isGreatest_foldl_max {α : Type} (f : α → Nat) (xs : List α) (n : Nat) :
    IsGreatest {m | m ∈ n :: xs.map f} (xs.foldl (fun w x => max w (f x)) n) := by
  induction xs generalizing n with
  | nil => exact ⟨List.mem_cons_self, fun m hm => (List.mem_singleton.mp hm).le⟩
  | cons x xs ih =>
    obtain ⟨hmem, hle⟩ := ih (max n (f x))
    have hstart : max n (f x) ≤ xs.foldl (fun w x => max w (f x)) (max n (f x)) :=
      hle List.mem_cons_self
    refine ⟨?_, fun m hm => ?_⟩
    · rcases List.mem_cons.mp hmem with hmax | hrest
      · rw [List.foldl_cons, hmax]
        rcases Nat.le_total n (f x) with hn | hn
        · rw [Nat.max_eq_right hn]
          exact List.mem_cons_of_mem _ List.mem_cons_self
        · rw [Nat.max_eq_left hn]
          exact List.mem_cons_self
      · exact List.mem_cons_of_mem _ (List.mem_cons_of_mem _ hrest)
    · rcases List.mem_cons.mp hm with rfl | hm
      · exact (Nat.le_max_left m (f x)).trans hstart
      rcases List.mem_cons.mp hm with rfl | hm
      · exact (Nat.le_max_right n (f x)).trans hstart
      · exact hle (List.mem_cons_of_mem _ hm)

/-- The width of headers and rows is the greatest of their lengths. -/
theorem isGreatest_width (columns : Array String) (data : Array (Array String)) :
    IsGreatest {n | n ∈ columns.size :: data.toList.map Array.size} (width columns data) := by
  rw [width, ← Array.foldl_toList]
  exact isGreatest_foldl_max Array.size data.toList columns.size

theorem le_width (columns : Array String) (data : Array (Array String)) :
    columns.size ≤ width columns data ∧ ∀ cells ∈ data, cells.size ≤ width columns data := by
  have hle := (isGreatest_width columns data).2
  exact ⟨hle List.mem_cons_self, fun cells hcells => hle (List.mem_cons_of_mem _
    (List.mem_map_of_mem (Array.mem_toList_iff.mpr hcells)))⟩

theorem rectangular_ofRows (columns : Array String) (data : Array (Array String)) :
    (ofRows columns data).Rectangular := by
  obtain ⟨hcolumns, hdata⟩ := le_width columns data
  intro cells hcells
  obtain ⟨row, hrow, rfl⟩ := Array.mem_map.mp hcells
  have := hdata row hrow
  simp [ofRows, pad]
  omega

theorem Rectangular.withText (h : s.Rectangular) (row col : Nat) (text : String) :
    (s.withText row col text).Rectangular := by
  intro cells hcells
  obtain ⟨r, hr, rfl⟩ := Array.mem_iff_getElem.mp hcells
  simp only [Sheet.withText, Array.size_modify] at hr
  have hrow := h s.data[r] (Array.getElem_mem hr)
  simp only [Sheet.withText, Array.getElem_modify]
  split
  · rwa [Array.size_modify]
  · exact hrow

/-- The styles belong to cells of the sheet, at most one to each, and the numbers of these cells
are 64-bit words. -/
structure WellStyled (s : Sheet) : Prop where
  nodup : (s.styles.map Prod.fst).Nodup
  contains : ∀ p ∈ s.styles, s.contains p.1.1 p.1.2 = true
  words : ∀ p ∈ s.styles, p.1.1 < wordSize ∧ p.1.2 < wordSize

theorem mem_insertStyle {cell : Nat × Nat} {styles : List ((Nat × Nat) × Style)}
    {p : (Nat × Nat) × Style} (h : p ∈ insertStyle cell style styles) :
    p = (cell, style) ∨ p ∈ styles := by
  induction styles with
  | nil => exact .inl (List.mem_singleton.mp h)
  | cons q styles ih =>
    rw [insertStyle] at h
    split at h
    · next heq =>
      subst heq
      exact (List.mem_cons.mp h).imp_right (List.mem_cons_of_mem q)
    · rcases List.mem_cons.mp h with rfl | h
      · exact .inr List.mem_cons_self
      · exact (ih h).imp_right (List.mem_cons_of_mem q)

theorem nodup_insertStyle {cell : Nat × Nat} {styles : List ((Nat × Nat) × Style)}
    (h : (styles.map Prod.fst).Nodup) : ((insertStyle cell style styles).map Prod.fst).Nodup := by
  induction styles with
  | nil => exact List.nodup_singleton cell
  | cons q styles ih =>
    obtain ⟨hq, hstyles⟩ := List.nodup_cons.mp h
    rw [insertStyle]
    split
    · exact h
    · next hne =>
      refine List.nodup_cons.mpr ⟨fun hmem => ?_, ih hstyles⟩
      obtain ⟨p, hp, hpq⟩ := List.mem_map.mp hmem
      rcases mem_insertStyle hp with rfl | hp
      · exact hne hpq.symm
      · exact hq (List.mem_map.mpr ⟨p, hp, hpq⟩)

theorem WellStyled.of_styles_eq_nil (h : s.styles = []) : s.WellStyled where
  nodup := by simp [h]
  contains := by simp [h]
  words := by simp [h]

theorem WellStyled.withText (h : s.WellStyled) (row col : Nat) (text : String) :
    (s.withText row col text).WellStyled where
  nodup := h.nodup
  contains p hp := by
    rw [contains_withText]
    exact h.contains p hp
  words := h.words

theorem WellStyled.withStyle (h : s.WellStyled) (hin : s.contains row col = true)
    (hrow : row < wordSize) (hcol : col < wordSize) (style : Style) :
    (s.withStyle row col style).WellStyled where
  nodup := nodup_insertStyle h.nodup
  contains p hp := by
    rcases mem_insertStyle hp with rfl | hp
    · exact hin
    · exact h.contains p hp
  words p hp := by
    rcases mem_insertStyle hp with rfl | hp
    · exact ⟨hrow, hcol⟩
    · exact h.words p hp

theorem WellStyled.clearStyle (h : s.WellStyled) (row col : Nat) :
    (s.clearStyle row col).2.WellStyled where
  nodup := h.nodup.sublist (List.filter_sublist.map Prod.fst)
  contains p hp := h.contains p (List.mem_filter.mp hp).1
  words p hp := h.words p (List.mem_filter.mp hp).1

/-! ## Sheets of documents -/

/-- The sheet of a document is that of its headers and rows, with its styles. -/
theorem exists_of_ofJson {j : Json} (h : ofJson j = .ok s) :
    ∃ ms columns data styles, j = .object ms ∧ s = { ofRows columns data with styles } ∧
      readStyles (ofRows columns data) ((Json.sortMembers ms).lookup "styles") = .ok styles := by
  cases j with
  | object ms =>
    obtain ⟨columns, -, h⟩ := bind_eq_ok_iff.mp h
    obtain ⟨data, -, h⟩ := bind_eq_ok_iff.mp h
    obtain ⟨styles, hstyles, h⟩ := bind_eq_ok_iff.mp h
    exact ⟨ms, _, _, styles, rfl, (Except.ok.inj h).symm, hstyles⟩
  | _ => exact nomatch h

theorem mem_foldl_insertStyle {read styles : List ((Nat × Nat) × Style)} {p : (Nat × Nat) × Style}
    (h : p ∈ read.foldl (fun styles (cell, style) => insertStyle cell style styles) styles) :
    p ∈ read ∨ p ∈ styles := by
  induction read generalizing styles with
  | nil => exact .inr h
  | cons q read ih =>
    rcases ih h with h | h
    · exact .inl (List.mem_cons_of_mem q h)
    · rcases mem_insertStyle h with rfl | h
      · exact .inl List.mem_cons_self
      · exact .inr h

theorem nodup_foldl_insertStyle (read : List ((Nat × Nat) × Style))
    {styles : List ((Nat × Nat) × Style)} (h : (styles.map Prod.fst).Nodup) :
    ((read.foldl (fun styles (cell, style) => insertStyle cell style styles) styles).map
      Prod.fst).Nodup := by
  induction read generalizing styles with
  | nil => exact h
  | cons q read ih => exact ih (nodup_insertStyle h)

/-- The styles of a document come from its members, the last for each cell. -/
theorem of_readStyles {members : Option Json} {styles : List ((Nat × Nat) × Style)}
    (h : readStyles s members = .ok styles) : (styles.map Prod.fst).Nodup ∧
      ∀ p ∈ styles, ∃ ms, members = some (.object ms) ∧
        ∃ m ∈ Json.sortMembers ms, readStyle? s m.1 m.2 = some p := by
  unfold readStyles at h
  split at h
  · cases h
    exact ⟨List.nodup_nil, fun _ hp => absurd hp List.not_mem_nil⟩
  · cases h
    exact ⟨List.nodup_nil, fun _ hp => absurd hp List.not_mem_nil⟩
  · next ms =>
    cases h
    refine ⟨nodup_foldl_insertStyle _ List.nodup_nil, fun p hp => ⟨ms, rfl, ?_⟩⟩
    rcases mem_foldl_insertStyle hp with hp | hp
    · exact List.mem_filterMap.mp hp
    · exact absurd hp List.not_mem_nil
  · exact nomatch h

/-- A style is only read for a cell of the sheet that its key names. -/
theorem of_readStyle? {key : String} {j : Json} {p : (Nat × Nat) × Style}
    (h : readStyle? s key j = some p) : Style.parseKey? key = some p.1 ∧
      s.contains p.1.1 p.1.2 = true ∧ Style.ofJson? j = some p.2 := by
  obtain ⟨⟨row, col⟩, hkey, h⟩ := Option.bind_eq_some_iff.mp h
  dsimp only at h
  split at h
  · next hin =>
    obtain ⟨style, hstyle, h⟩ := Option.bind_eq_some_iff.mp h
    cases h
    exact ⟨hkey, hin, hstyle⟩
  · exact nomatch h

/-- The numbers of a key are words. -/
theorem words_of_parseKey? {key : String} {p : Nat × Nat} (h : Style.parseKey? key = some p) :
    p.1 < wordSize ∧ p.2 < wordSize := by
  obtain ⟨-, hrow, hcol⟩ := Style.parseKey?_eq_some_iff.mp h
  exact ⟨hrow.lt_wordSize, hcol.lt_wordSize⟩

theorem rectangular_of_ofJson {j : Json} (h : ofJson j = .ok s) : s.Rectangular := by
  obtain ⟨_, columns, data, _, -, rfl, -⟩ := exists_of_ofJson h
  exact rectangular_ofRows columns data

theorem wellStyled_of_ofJson {j : Json} (h : ofJson j = .ok s) : s.WellStyled := by
  obtain ⟨_, columns, data, styles, -, rfl, hstyles⟩ := exists_of_ofJson h
  obtain ⟨hnodup, hread⟩ := of_readStyles hstyles
  refine ⟨hnodup, fun p hp => ?_, fun p hp => ?_⟩ <;>
    obtain ⟨_, -, m, -, hm⟩ := hread p hp
  · exact (of_readStyle? hm).2.1
  · exact words_of_parseKey? (of_readStyle? hm).1

/-! ## All sheets that are made -/

/-- The sheets that are made from a size, rows or a document and then edited, where the styles that
are set have the property `Q`. Rows and columns are 64-bit words, and an edit that fails changes
nothing. -/
inductive Built (Q : Style → Prop) : Sheet → Prop where
  | empty : Built Q {}
  | ofSize (rows cols : Nat) : Built Q (ofSize rows cols)
  | ofRows (columns : Array String) (data : Array (Array String)) : Built Q (ofRows columns data)
  /-- The document is a value as readers leave it. -/
  | ofJson {j : Json} {s : Sheet} (sorted : j.IsSorted) (h : Sheet.ofJson j = .ok s) : Built Q s
  | withEngine {s : Sheet} (hs : Built Q s) (e : Engine) : Built Q (s.withEngine e)
  | setCell {s s' : Sheet} {row col : Nat} {text : String} (hs : Built Q s)
      (h : s.setCell row col text = .ok s') : Built Q s'
  | setA1 {s s' : Sheet} {a1 text : String} (hs : Built Q s) (h : s.setA1 a1 text = .ok s') :
      Built Q s'
  | setStyle {s s' : Sheet} {row col : Nat} {style : Style} (hs : Built Q s)
      (hrow : row < wordSize) (hcol : col < wordSize) (hstyle : Q style)
      (h : s.setStyle row col style = .ok s') : Built Q s'
  | clearStyle {s : Sheet} (hs : Built Q s) (row col : Nat) : Built Q (s.clearStyle row col).2

variable {Q : Style → Prop}

theorem Built.rectangular (h : s.Built Q) : s.Rectangular := by
  induction h with
  | empty => exact nofun
  | ofSize rows cols => exact rectangular_ofSize rows cols
  | ofRows columns data => exact rectangular_ofRows columns data
  | ofJson _ h => exact rectangular_of_ofJson h
  | withEngine _ _ ih => exact ih
  | setCell _ h ih =>
    obtain ⟨-, rfl⟩ := setCell_eq_ok_iff.mp h
    exact ih.withText _ _ _
  | setA1 _ h ih =>
    obtain ⟨_, -, h⟩ := setA1_eq_ok_iff.mp h
    obtain ⟨-, rfl⟩ := setCell_eq_ok_iff.mp h
    exact ih.withText _ _ _
  | setStyle _ _ _ _ h ih =>
    obtain ⟨-, rfl⟩ := setStyle_eq_ok_iff.mp h
    exact ih
  | clearStyle _ _ _ ih => exact ih

theorem Built.wellStyled (h : s.Built Q) : s.WellStyled := by
  induction h with
  | empty => exact .of_styles_eq_nil rfl
  | ofSize rows cols => exact .of_styles_eq_nil rfl
  | ofRows columns data => exact .of_styles_eq_nil rfl
  | ofJson _ h => exact wellStyled_of_ofJson h
  | withEngine _ _ ih => exact ⟨ih.nodup, ih.contains, ih.words⟩
  | setCell _ h ih =>
    obtain ⟨-, rfl⟩ := setCell_eq_ok_iff.mp h
    exact ih.withText _ _ _
  | setA1 _ h ih =>
    obtain ⟨_, -, h⟩ := setA1_eq_ok_iff.mp h
    obtain ⟨-, rfl⟩ := setCell_eq_ok_iff.mp h
    exact ih.withText _ _ _
  | setStyle _ hrow hcol _ h ih =>
    obtain ⟨hin, rfl⟩ := setStyle_eq_ok_iff.mp h
    exact ih.withStyle hin hrow hcol _
  | clearStyle _ row col ih => exact ih.clearStyle row col

end Sheet

end Spreadsheet
