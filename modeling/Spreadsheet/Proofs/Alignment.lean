import Spreadsheet.Proofs.Boards
import Spreadsheet.Sheet.Table

/-!
# Tables whose columns are aligned

The widths of a table are measured down its columns and used along its lines, and a line joins
three lists that have to be equally long. The row numbers are as wide as the number of rows, which
is the last number that is written. What comes of it is stated by position: every line has the
same number of characters, and in every line the text of a column stands at the same place, whole
and pushed to one side. A line is read from left to right for this. What has been written up to a
column has a length that only depends on the widths, as each text before it was filled up to its
width.

No field is wider than `maxWidth`, and then there are no lines at all: the line of headers has a
field for each column, so a column that is too wide already stops the first line. All widths are
asked for there, so it is enough to look at them.

Widths are counted in characters. The texts may be any, but a text is only as wide on a terminal
as it has characters if each of them takes one place.

Results:
1. `isGreatest_columnWidth`: a column is as wide as its longest text;
2. `length_line`, `exists_line_eq`: where the texts of a line stand;
3. `render?_eq_some`, `render?_eq_none`: when a table has lines;
4. `aligned_lines`: lines of values and texts that belong together are aligned;
5. `wide_column_has_no_table`: a header that is too long;
6. `tables_are_aligned`: the table that shows a sheet is aligned.
-/

namespace Spreadsheet

namespace Table

/-! ## Places in a line -/

/-- The characters that stand in a line from a place on. -/
def field (start width : Nat) (l : String) : List Char :=
  (l.toList.drop start).take width

/-- A text that was pushed to the right or to the left of a field. -/
def pushed (right : Bool) (width : Nat) (text : String) : List Char :=
  let blanks := List.replicate (width - text.length) ' '
  if right then blanks ++ text.toList else text.toList ++ blanks

/-- Where a column starts: behind the row number and the columns before it, each with a bar. -/
def columnStart (gutter : Nat) (widths : List Nat) (col : Nat) : Nat :=
  gutter + 3 + ((widths.take col).map (· + 3)).sum

theorem field_of_eq {l u text v : String} (h : l = u ++ text ++ v) :
    field u.length text.length l = text.toList := by
  rw [h, field, String.toList_append, String.toList_append, List.append_assoc, ← u.length_toList,
    List.drop_left, ← text.length_toList, List.take_left]

section Lines

variable {g cell : String} {cells : List String} {col : Nat}

theorem line_singleton (g cell : String) : line g [cell] = g ++ " | " ++ cell := by
  rw [line, String.intercalate_singleton]

/-- The first text of a line may be counted to what is before it. -/
theorem line_cons_cons (g c d : String) (cs : List String) :
    line g (c :: d :: cs) = line (g ++ " | " ++ c) (d :: cs) := by
  simp only [line, String.intercalate_cons_cons, String.append_assoc]

theorem length_append_bar (g c : String) : (g ++ " | " ++ c).length = g.length + 3 + c.length := by
  rw [String.length_append, String.length_append]
  rfl

theorem length_line (g : String) (cells : List String) : (line g cells).length =
    g.length + 3 + (cells.map String.length).sum + 3 * (cells.length - 1) := by
  induction cells generalizing g with
  | nil => exact length_append_bar g ""
  | cons c cs ih =>
    cases cs with
    | nil => rw [line_singleton, length_append_bar]; rfl
    | cons d cs =>
      rw [line_cons_cons, ih, length_append_bar]
      simp only [List.map_cons, List.sum_cons, List.length_cons]
      omega

/-- A text of a line stands where its column starts, behind a bar. -/
theorem exists_line_eq (g : String) (hcell : cells[col]? = some cell) : ∃ before after : String,
    line g cells = before ++ " | " ++ cell ++ after ∧
      before.length + 3 = columnStart g.length (cells.map String.length) col := by
  -- The texts in front of the column join the row number one by one, so it grows.
  induction cells generalizing g col with
  | nil => exact nomatch hcell
  | cons c cs ih =>
    cases col with
    | zero =>
      obtain rfl : c = cell := Option.some.inj hcell
      cases cs with
      | nil => exact ⟨g, "", by rw [line_singleton, String.append_empty], rfl⟩
      | cons d cs => exact ⟨g, " | " ++ " | ".intercalate (d :: cs),
          by rw [line_cons_cons, line, String.append_assoc], rfl⟩
    | succ col =>
      cases cs with
      | nil => exact nomatch hcell
      | cons d cs =>
        obtain ⟨before, after, hline, hlength⟩ := ih (g ++ " | " ++ c) hcell
        refine ⟨before, after, (line_cons_cons g c d cs).trans hline, hlength.trans ?_⟩
        simp only [columnStart, length_append_bar, List.map_cons, List.take_succ_cons,
          List.sum_cons]
        omega

theorem field_line (g : String) (hcell : cells[col]? = some cell) :
    field (columnStart g.length (cells.map String.length) col) cell.length (line g cells) =
      cell.toList := by
  obtain ⟨before, after, hline, hlength⟩ := exists_line_eq g hcell
  rw [← hlength, ← field_of_eq hline, String.length_append]
  rfl

theorem field_line_bar (g : String) (hcell : cells[col]? = some cell) :
    field (columnStart g.length (cells.map String.length) col - 3) 3 (line g cells) =
      [' ', '|', ' '] := by
  obtain ⟨before, after, hline, hlength⟩ := exists_line_eq g hcell
  rw [String.append_assoc] at hline
  rw [← hlength, Nat.add_sub_cancel]
  exact field_of_eq hline

theorem field_line_gutter (g : String) (cells : List String) :
    field 0 g.length (line g cells) = g.toList := by
  refine field_of_eq (u := "") (v := " | " ++ " | ".intercalate cells) ?_
  rw [line, String.empty_append, String.append_assoc]

end Lines

/-! ## Texts in fields -/

section Fields

variable {w : Nat} {text : String}

theorem toList_inField (right : Bool) (w : Nat) (text : String) :
    (inField right w text).toList = pushed right w text := by
  cases right <;> exact (String.toList_append).trans (by rw [String.toList_ofList]; rfl)

theorem length_inField (right : Bool) (h : text.length ≤ w) :
    (inField right w text).length = w := by
  rw [← String.length_toList, toList_inField]
  cases right <;> simp [pushed, String.length_toList, h]

theorem length_toString_mono {m n : Nat} (h : m ≤ n) :
    (toString m).length ≤ (toString n).length := by
  have hdigits : ∀ k : Nat, (toString k).length = (Nat.toDigits 10 k).length := fun k => by
    rw [Nat.toString_eq_repr, Nat.repr_eq_ofList_toDigits, String.length_ofList]
  have hpos : 0 < (Nat.toDigits 10 n).length := List.length_pos_iff.mpr Nat.toDigits_ne_nil
  rw [hdigits, hdigits, Nat.length_toDigits_le_iff (by decide) hpos]
  exact h.trans_lt ((Nat.length_toDigits_le_iff (by decide) hpos).mp le_rfl)

end Fields

/-! ## Widths -/

section Widths

variable {columns : List String} {shown : List (List String)} {col : Nat}

/-- The lengths of a header and of the texts below it. -/
def lengths (header : String) (col : Nat) (shown : List (List String)) : Set Nat :=
  {n | n = header.length ∨
    ∃ (row : Nat) (text : String), shown[row]?.bind (·[col]?) = some text ∧ n = text.length}

theorem mem_column_iff {text : String} :
    text ∈ shown.filterMap (·[col]?) ↔ ∃ row : Nat, shown[row]?.bind (·[col]?) = some text := by
  rw [List.mem_filterMap]
  constructor
  · rintro ⟨texts, hmem, htext⟩
    obtain ⟨row, hrow⟩ := List.mem_iff_getElem?.mp hmem
    exact ⟨row, Option.bind_eq_some_iff.mpr ⟨texts, hrow, htext⟩⟩
  · rintro ⟨row, hat⟩
    obtain ⟨texts, hrow, htext⟩ := Option.bind_eq_some_iff.mp hat
    exact ⟨texts, List.mem_of_getElem? hrow, htext⟩

/-- A column is as wide as the longest text in it. -/
theorem isGreatest_columnWidth (header : String) (col : Nat) (shown : List (List String)) :
    IsGreatest (lengths header col shown) (columnWidth header col shown) := by
  have hlengths : lengths header col shown =
      {n | n ∈ header.length :: (shown.filterMap (·[col]?)).map String.length} := by
    ext n
    simp only [lengths, Set.mem_ofPred_eq, List.mem_cons, List.mem_map, mem_column_iff]
    exact or_congr_right ⟨fun ⟨row, text, hat, hn⟩ => ⟨text, ⟨row, hat⟩, hn.symm⟩,
      fun ⟨text, ⟨row, hat⟩, hn⟩ => ⟨row, text, hat, hn.symm⟩⟩
  rw [hlengths]
  exact Sheet.isGreatest_foldl_max String.length _ header.length

theorem length_columnWidths (columns : List String) (shown : List (List String)) :
    (columnWidths columns shown).length = columns.length := by
  rw [columnWidths, List.length_map, List.length_zipIdx]

theorem getElem?_columnWidths (columns : List String) (shown : List (List String)) (col : Nat) :
    (columnWidths columns shown)[col]? = columns[col]?.map (columnWidth · col shown) := by
  rw [columnWidths, List.getElem?_map, List.getElem?_zipIdx, Option.map_map, Nat.zero_add]
  rfl

theorem columnWidths_of_header {header : String} (h : columns[col]? = some header) :
    (columnWidths columns shown)[col]? = some (columnWidth header col shown) := by
  rw [getElem?_columnWidths, h, Option.map_some]

theorem length_le_of_shown {w row : Nat} {text : String}
    (hw : (columnWidths columns shown)[col]? = some w)
    (htext : shown[row]?.bind (·[col]?) = some text) : text.length ≤ w := by
  rw [getElem?_columnWidths, Option.map_eq_some_iff] at hw
  obtain ⟨header, -, rfl⟩ := hw
  exact (isGreatest_columnWidth header col shown).2 (.inr ⟨row, text, htext, rfl⟩)

end Widths

/-! ## Lines -/

/-- Values and the texts shown for them, where all rows are as wide as the headers. -/
structure Fits (columns : List String) (values : List (List Value)) (shown : List (List String)) :
    Prop where
  height : values.length = shown.length
  valuesWidth : ∀ vs ∈ values, vs.length = columns.length
  shownWidth : ∀ texts ∈ shown, texts.length = columns.length

section Rendering

variable {columns : List String} {values : List (List Value)} {shown : List (List String)}
variable {row col : Nat} {texts : List String} {vs : List Value} {l : String}

/-- The headers in fields of any width. -/
def headerCells (columns : List String) (widths : List Nat) : List String :=
  (columns.zip widths).map fun (name, w) => inField false w name

/-- The texts of a row in fields of any width. -/
def rowCells (widths : List Nat) (texts : List String) (vs : List Value) : List String :=
  ((texts.zip vs).zip widths).map fun ((text, v), w) => inField v.isNumber w text

/-- The lines of a table without colours, with fields of any width. -/
def lines (columns : List String) (values : List (List Value)) (shown : List (List String)) :
    List String :=
  let gutter := (toString shown.length).length
  let widths := columnWidths columns shown
  line (inField false gutter "") (headerCells columns widths) ::
    (shown.zip values).zipIdx.map fun ((texts, vs), row) =>
      line (inField true gutter (toString (row + 1))) (rowCells widths texts vs)

theorem mapM_eq_some_map {α β : Type} {f : α → Option β} {g : α → β} {l : List α}
    (h : ∀ x ∈ l, f x = some (g x)) : l.mapM f = some (l.map g) := by
  induction l with
  | nil => rfl
  | cons x l ih =>
    rw [List.mapM_cons, h x List.mem_cons_self, ih fun y hy => h y (List.mem_cons_of_mem _ hy)]
    rfl

theorem mapM_eq_none {α β : Type} {f : α → Option β} {x : α} {l : List α} (hx : x ∈ l)
    (h : f x = none) : l.mapM f = none := by
  induction l with
  | nil => exact nomatch hx
  | cons y l ih =>
    rw [List.mapM_cons]
    rcases List.mem_cons.mp hx with rfl | hx
    · rw [h]
      rfl
    · rw [ih hx]
      cases f y <;> rfl

/-- A line of headers is set if all its fields can be. -/
theorem headerLine?_eq_some {gutter : Nat} {widths : List Nat}
    (h : ∀ w ∈ gutter :: widths, w ≤ maxWidth) : headerLine? false gutter columns widths =
      some (line (inField false gutter "") (headerCells columns widths)) := by
  have hcells : ((columns.zip widths).mapM fun (name, w) =>
      (pad? false w name).map (paint false .bold)) = some (headerCells columns widths) := by
    refine mapM_eq_some_map fun (name, w) hmem => ?_
    dsimp only
    rw [pad?, if_pos (h w (List.mem_cons_of_mem _ (List.of_mem_zip hmem).2))]
    exact congrArg some (if_neg Bool.false_ne_true)
  rw [headerLine?, hcells, pad?, if_pos (h gutter List.mem_cons_self)]
  rfl

/-- So is the line of a row. -/
theorem rowLine?_eq_some {gutter : Nat} {widths : List Nat}
    (h : ∀ w ∈ gutter :: widths, w ≤ maxWidth) : rowLine? false gutter widths row texts vs =
      some (line (inField true gutter (toString (row + 1))) (rowCells widths texts vs)) := by
  have hcells : (((texts.zip vs).zip widths).mapM fun ((text, v), w) =>
      cellText? false w v text) = some (rowCells widths texts vs) := by
    refine mapM_eq_some_map fun ((text, v), w) hmem => ?_
    dsimp only
    rw [cellText?, pad?, if_pos (h w (List.mem_cons_of_mem _ (List.of_mem_zip hmem).2))]
    exact congrArg some (ite_self _)
  rw [rowLine?, hcells, pad?, if_pos (h gutter List.mem_cons_self)]
  rfl

/-- A table whose fields can all be set has its lines. -/
theorem render?_eq_some
    (h : ∀ w ∈ (toString shown.length).length :: columnWidths columns shown, w ≤ maxWidth) :
    render? false columns values shown = some (lines columns values shown) := by
  have hrows : ((shown.zip values).zipIdx.mapM fun ((texts, vs), row) =>
      rowLine? false (toString shown.length).length (columnWidths columns shown) row texts vs) =
      some (lines columns values shown).tail :=
    mapM_eq_some_map fun ((texts, vs), row) _ => rowLine?_eq_some h
  rw [render?, headerLine?_eq_some h, hrows]
  rfl

/-- A table with a field that is too wide has none. -/
theorem render?_eq_none (coloured : Bool)
    (h : ∃ w ∈ (toString shown.length).length :: columnWidths columns shown, maxWidth < w) :
    render? coloured columns values shown = none := by
  have hheader : headerLine? coloured (toString shown.length).length columns
      (columnWidths columns shown) = none := by
    obtain ⟨w, hw, hwide⟩ := h
    have hpad : ∀ text, pad? false w text = none := fun _ => if_neg hwide.not_ge
    rcases List.mem_cons.mp hw with rfl | hw
    · rw [headerLine?, hpad]
      cases (columns.zip (columnWidths columns shown)).mapM fun (name, w) =>
        (pad? false w name).map (paint coloured .bold) <;> rfl
    · -- the column has a header, which has to be set in the same field
      obtain ⟨col, hcol⟩ := List.mem_iff_getElem?.mp hw
      have hname := hcol
      rw [getElem?_columnWidths, Option.map_eq_some_iff] at hname
      obtain ⟨name, hname, -⟩ := hname
      have hmem : (name, w) ∈ columns.zip (columnWidths columns shown) :=
        List.mem_of_getElem? (List.getElem?_zip_eq_some.mpr ⟨hname, hcol⟩)
      rw [headerLine?, mapM_eq_none hmem]
      · rfl
      · dsimp only
        rw [hpad]
        rfl
  rw [render?, hheader]
  rfl

theorem getElem?_lines_zero : (lines columns values shown)[0]? =
    some (line (inField false (toString shown.length).length "")
      (headerCells columns (columnWidths columns shown))) :=
  rfl

theorem getElem?_lines_succ (htexts : shown[row]? = some texts) (hvs : values[row]? = some vs) :
    (lines columns values shown)[row + 1]? =
      some (line (inField true (toString shown.length).length (toString (row + 1)))
        (rowCells (columnWidths columns shown) texts vs)) := by
  have hzip : (shown.zip values)[row]? = some (texts, vs) :=
    List.getElem?_zip_eq_some.mpr ⟨htexts, hvs⟩
  rw [lines, List.getElem?_cons_succ, List.getElem?_map, List.getElem?_zipIdx, hzip, Nat.zero_add]
  rfl

theorem getElem?_headerCells {header : String} (hheader : columns[col]? = some header) :
    (headerCells columns (columnWidths columns shown))[col]? =
      some (inField false (columnWidth header col shown) header) := by
  have hzip : (columns.zip (columnWidths columns shown))[col]? =
      some (header, columnWidth header col shown) :=
    List.getElem?_zip_eq_some.mpr ⟨hheader, columnWidths_of_header hheader⟩
  rw [headerCells, List.getElem?_map, hzip]
  rfl

/-- A header fits into its column. -/
theorem length_header_le (header : String) (col : Nat) (shown : List (List String)) :
    header.length ≤ columnWidth header col shown :=
  (isGreatest_columnWidth header col shown).2 (.inl rfl)

theorem map_length_headerCells (columns : List String) (shown : List (List String)) :
    (headerCells columns (columnWidths columns shown)).map String.length =
      columnWidths columns shown := by
  refine List.ext_getElem? fun col => ?_
  rw [List.getElem?_map]
  cases hheader : columns[col]? with
  | none =>
    have hcol := List.getElem?_eq_none_iff.mp hheader
    rw [getElem?_columnWidths, hheader, List.getElem?_eq_none]
    · rfl
    · rw [headerCells, List.length_map, List.length_zip]
      exact (Nat.min_le_left _ _).trans hcol
  | some header =>
    rw [getElem?_headerCells hheader, columnWidths_of_header hheader]
    exact congrArg some (length_inField false (length_header_le header col shown))

theorem map_length_rowCells (h : Fits columns values shown) (htexts : shown[row]? = some texts)
    (hvs : values[row]? = some vs) :
    (rowCells (columnWidths columns shown) texts vs).map String.length =
      columnWidths columns shown := by
  have hwidths := length_columnWidths columns shown
  have htextsLength := h.shownWidth texts (List.mem_of_getElem? htexts)
  have hvsLength := h.valuesWidth vs (List.mem_of_getElem? hvs)
  have hlength : (rowCells (columnWidths columns shown) texts vs).length = columns.length := by
    simp [rowCells, hwidths, htextsLength, hvsLength]
  refine List.ext_getElem (by rw [List.length_map, hlength, hwidths]) fun col _ hcol => ?_
  have hin : col < texts.length := by omega
  have htext : shown[row]?.bind (·[col]?) = some texts[col] := by
    rw [htexts]
    exact List.getElem?_eq_getElem hin
  simp only [rowCells, List.getElem_map, List.getElem_zip]
  exact length_inField _ (length_le_of_shown (List.getElem?_eq_getElem hcol) htext)

theorem getElem?_rowCells {widths : List Nat} {w : Nat} {text : String} {v : Value}
    (htext : texts[col]? = some text) (hv : vs[col]? = some v) (hw : widths[col]? = some w) :
    (rowCells widths texts vs)[col]? = some (inField v.isNumber w text) := by
  have hzip : ((texts.zip vs).zip widths)[col]? = some ((text, v), w) :=
    List.getElem?_zip_eq_some.mpr ⟨List.getElem?_zip_eq_some.mpr ⟨htext, hv⟩, hw⟩
  rw [rowCells, List.getElem?_map, hzip]
  rfl

/-- No row number is wider than the number of rows. -/
theorem length_rowNumber (hrow : row < shown.length) :
    (inField true (toString shown.length).length (toString (row + 1))).length =
      (toString shown.length).length :=
  length_inField true (length_toString_mono hrow)

theorem length_noNumber (w : Nat) : (inField false w "").length = w :=
  length_inField false (Nat.zero_le w)

/-- All lines have a row number of one width and texts of the widths of their columns. -/
theorem exists_line_of_mem (h : Fits columns values shown)
    (hl : l ∈ lines columns values shown) :
    ∃ g cells, l = line g cells ∧ g.length = (toString shown.length).length ∧
      cells.map String.length = columnWidths columns shown := by
  obtain ⟨n, hn⟩ := List.mem_iff_getElem?.mp hl
  cases n with
  | zero =>
    rw [getElem?_lines_zero, Option.some.injEq] at hn
    exact ⟨_, _, hn.symm, length_noNumber _, map_length_headerCells columns shown⟩
  | succ row =>
    -- There are as many lines as rows that both lists have.
    have hrow : row < shown.length := by
      have hlt := (List.getElem?_eq_some_iff.mp hn).1
      simp only [lines, List.length_cons, List.length_map, List.length_zipIdx,
        List.length_zip] at hlt
      omega
    have htexts := List.getElem?_eq_getElem hrow
    have hvs := List.getElem?_eq_getElem (hrow.trans_eq h.height.symm)
    rw [getElem?_lines_succ htexts hvs, Option.some.injEq] at hn
    exact ⟨_, _, hn.symm, length_rowNumber hrow, map_length_rowCells h htexts hvs⟩

/-! ## Aligned tables -/

/-- Each column is as wide as its header or the longest text below it. -/
structure Measured (columns : List String) (shown : List (List String)) (widths : List Nat) :
    Prop where
  length : widths.length = columns.length
  widest : ∀ (col : Nat) header, columns[col]? = some header →
    ∃ w, widths[col]? = some w ∧ IsGreatest (lengths header col shown) w

theorem measured_columnWidths (columns : List String) (shown : List (List String)) :
    Measured columns shown (columnWidths columns shown) where
  length := length_columnWidths columns shown
  widest col header hheader :=
    ⟨_, columnWidths_of_header hheader, isGreatest_columnWidth header col shown⟩

/-- The lines of a table stand in columns of these widths, behind row numbers of one width. -/
structure Aligned (columns : List String) (values : List (List Value)) (shown : List (List String))
    (gutter : Nat) (widths : List Nat) (lines : List String) : Prop where
  /-- There is a line of headers and one for each row. -/
  count : lines.length = shown.length + 1
  length : ∀ l ∈ lines, l.length = gutter + 3 + widths.sum + 3 * (columns.length - 1)
  bars : ∀ l ∈ lines, ∀ col < columns.length,
    field (columnStart gutter widths col - 3) 3 l = [' ', '|', ' ']
  header : ∀ (col : Nat) header, columns[col]? = some header → ∃ l w, lines[0]? = some l ∧
    widths[col]? = some w ∧ field (columnStart gutter widths col) w l = pushed false w header
  /-- Numbers stand at the right of their columns and all else at the left. -/
  cell : ∀ (row col : Nat) text v, shown[row]?.bind (·[col]?) = some text →
    values[row]?.bind (·[col]?) = some v → ∃ l w, lines[row + 1]? = some l ∧ widths[col]? = some w ∧
      field (columnStart gutter widths col) w l = pushed v.isNumber w text
  noNumber : ∃ l, lines[0]? = some l ∧ field 0 gutter l = pushed false gutter ""
  number : ∀ row < shown.length, ∃ l, lines[row + 1]? = some l ∧
    field 0 gutter l = pushed true gutter (toString (row + 1))

/-- The lines of values and texts that fit together are aligned. -/
theorem aligned_lines (h : Fits columns values shown) :
    Aligned columns values shown (toString shown.length).length (columnWidths columns shown)
      (lines columns values shown) where
  count := by
    simp only [lines, List.length_cons, List.length_map, List.length_zipIdx, List.length_zip]
    rw [h.height, Nat.min_self]
  length l hl := by
    obtain ⟨g, cells, rfl, hg, hcells⟩ := exists_line_of_mem h hl
    have hlength : cells.length = columns.length := by
      rw [← length_columnWidths columns shown, ← hcells, List.length_map]
    rw [length_line, hg, hcells, hlength]
  bars l hl col hcol := by
    obtain ⟨g, cells, rfl, hg, hcells⟩ := exists_line_of_mem h hl
    have hin : col < cells.length := by
      rwa [← List.length_map String.length, hcells, length_columnWidths]
    rw [← hg, ← hcells]
    exact field_line_bar g (List.getElem?_eq_getElem hin)
  header col header hheader := by
    have hcell : (headerCells columns (columnWidths columns shown))[col]? =
        some (inField false (columnWidth header col shown) header) := getElem?_headerCells hheader
    have hfield := field_line (inField false (toString shown.length).length "") hcell
    rw [length_noNumber, map_length_headerCells, toList_inField,
      length_inField false (length_header_le header col shown)] at hfield
    exact ⟨_, _, getElem?_lines_zero, columnWidths_of_header hheader, hfield⟩
  cell row col text v htext hv := by
    obtain ⟨texts, htexts, htext'⟩ := Option.bind_eq_some_iff.mp htext
    obtain ⟨vs, hvs, hv'⟩ := Option.bind_eq_some_iff.mp hv
    have hrow : row < shown.length := (List.getElem?_eq_some_iff.mp htexts).1
    have hcol : col < (columnWidths columns shown).length := by
      rw [length_columnWidths, ← h.shownWidth texts (List.mem_of_getElem? htexts)]
      exact (List.getElem?_eq_some_iff.mp htext').1
    have hw := List.getElem?_eq_getElem hcol
    have hfield := field_line (inField true (toString shown.length).length (toString (row + 1)))
      (getElem?_rowCells htext' hv' hw)
    rw [length_rowNumber hrow, map_length_rowCells h htexts hvs, toList_inField,
      length_inField _ (length_le_of_shown hw htext)] at hfield
    exact ⟨_, _, getElem?_lines_succ htexts hvs, hw, hfield⟩
  noNumber := by
    have hfield := field_line_gutter (inField false (toString shown.length).length "")
      (headerCells columns (columnWidths columns shown))
    rw [length_noNumber, toList_inField] at hfield
    exact ⟨_, getElem?_lines_zero, hfield⟩
  number row hrow := by
    have htexts := List.getElem?_eq_getElem hrow
    have hrow' : row < values.length := hrow.trans_eq h.height.symm
    have hvs := List.getElem?_eq_getElem hrow'
    have hfield := field_line_gutter
      (inField true (toString shown.length).length (toString (row + 1)))
      (rowCells (columnWidths columns shown) shown[row] values[row])
    rw [length_rowNumber hrow, toList_inField] at hfield
    exact ⟨_, getElem?_lines_succ htexts hvs, hfield⟩

/-- A number under a header that is as wide, and a text under a wider one. -/
example : render? false ["A", "Label"] [[.int 5, .text "x"]] [["5", "x"]] =
    some ["  | A | Label", "1 | 5 | x    "] := by
  decide +kernel

end Rendering

end Table

/-! ## The table of a sheet -/

namespace Sheet

variable {s : Sheet} {row col : Nat}

theorem length_formatValues (s : Sheet) (values : List (List Value)) :
    (s.formatValues values).length = values.length := by
  rw [formatValues, List.length_map, List.length_zipIdx]

/-- The text shown for a value depends on the value and its place. -/
theorem getElem?_formatValues (s : Sheet) (values : List (List Value)) (row col : Nat) :
    (s.formatValues values)[row]?.bind (·[col]?) =
      (values[row]?.bind (·[col]?)).map (s.formatValue row col) := by
  rw [formatValues, List.getElem?_map, List.getElem?_zipIdx, Nat.zero_add]
  cases values[row]? with
  | none => rfl
  | some vs =>
    rw [Option.map_some, Option.map_some, Option.bind_some, Option.bind_some, List.getElem?_map,
      List.getElem?_zipIdx, Nat.zero_add, Option.map_map]
    rfl

theorem length_of_mem_formatValues {values : List (List Value)} {texts : List String} {w : Nat}
    (hvalues : ∀ vs ∈ values, vs.length = w) (h : texts ∈ s.formatValues values) :
    texts.length = w := by
  obtain ⟨⟨vs, row⟩, hvs, rfl⟩ := List.mem_map.mp h
  rw [List.length_map, List.length_zipIdx]
  exact hvalues vs (List.fst_mem_of_mem_zipIdx hvs)

/-- Values and texts of a sheet are as many as its cells. -/
theorem fits_recalculate (s : Sheet) :
    Table.Fits s.columns.toList s.recalculate (s.formatValues s.recalculate) where
  height := (s.length_formatValues s.recalculate).symm
  valuesWidth _ h := length_of_mem_recalculate h
  shownWidth _ h := length_of_mem_formatValues (fun _ => length_of_mem_recalculate) h

/-- A header of 65536 characters is one too many, so a sheet with nothing but this header has no
table. -/
theorem wide_column_has_no_table : ¬∀ s : Sheet, ∃ lines,
    Table.render? false s.columns.toList s.recalculate (s.formatValues s.recalculate) =
      some lines := by
  intro h
  obtain ⟨header, hlength⟩ : ∃ header : String, header.length = 65536 :=
    ⟨String.ofList (List.replicate 65536 'a'), by rw [String.length_ofList, List.length_replicate]⟩
  have hwide : Table.render? false [header] [] [] = none :=
    Table.render?_eq_none false ⟨header.length, List.mem_cons_of_mem _ List.mem_cons_self,
      (Nat.lt_succ_self Table.maxWidth).trans_eq hlength.symm⟩
  obtain ⟨lines, hlines⟩ := h { columns := #[header] }
  exact nomatch hwide.symm.trans hlines

/-- The table that shows a sheet is aligned, whatever its texts and its engine are. It has a line
for each row, and in it a text for each cell. Only if a column is wider than a field can be there is
no table. -/
theorem tables_are_aligned (s : Sheet) :
    let values := s.recalculate
    let shown := s.formatValues values
    let gutter := (toString s.rowCount).length
    let table := Table.render? false s.columns.toList values shown
    shown.length = s.rowCount ∧
    (∀ row col, s.contains row col = true → ∃ v, values[row]?.bind (·[col]?) = some v ∧
      shown[row]?.bind (·[col]?) = some (s.formatValue row col v)) ∧
    ∃ widths, Table.Measured s.columns.toList shown widths ∧
      ((∀ w ∈ gutter :: widths, w ≤ Table.maxWidth) → ∃ lines, table = some lines ∧
        Table.Aligned s.columns.toList values shown gutter widths lines) ∧
      ((∃ w ∈ gutter :: widths, Table.maxWidth < w) → table = none) := by
  intro values shown gutter table
  have hcount : shown.length = s.rowCount :=
    (s.length_formatValues values).trans length_recalculate
  have hgutter : (toString shown.length).length = gutter := by rw [hcount]
  refine ⟨hcount, fun row col hin => ?_, Table.columnWidths s.columns.toList shown,
    Table.measured_columnWidths _ _, fun hfit => ?_, fun hwide => ?_⟩
  · refine ⟨_, getElem?_recalculate hin, ?_⟩
    rw [getElem?_formatValues, getElem?_recalculate hin, Option.map_some]
  · rw [← hgutter] at hfit ⊢
    exact ⟨_, Table.render?_eq_some hfit, Table.aligned_lines s.fits_recalculate⟩
  · rw [← hgutter] at hwide
    exact Table.render?_eq_none false hwide

end Sheet

end Spreadsheet
