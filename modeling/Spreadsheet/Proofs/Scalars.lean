import Spreadsheet.Command
import Spreadsheet.Proofs.DocumentNumbers
import Spreadsheet.Proofs.Loading

/-!
# Scalars that pass through a sheet

A document gives scalars for the cells of a sheet, and the values of the cells are printed as JSON
again. Between the two a scalar is a text, then what that text stands for in a cell, then a value.
Each of these steps has a branch of its own for blanks, truth values, integers, doubles and texts,
and all that was a type in the document has to be found again from the text alone. It is found: a
scalar that a cell can hold at all is printed as the scalar it was. Cells that were filled up to
make the rows equally long are printed as `null`.

No engine takes part in this, since no cell holds a formula. What does take part is the address: a
cell is asked for by its address, and a row or a column beyond all 32-bit words has none. And a
scalar is what the document was read as: a number with a point or a power is a double from then on.

Results:
1. `exists_value_of_fitsCell`: a scalar is found again from the text of its cell;
2. `evaluate_of_value?`, `recalculate_of_value?`: cells without formulas are worth what they hold;
3. `printSheet_json`, `printed_of_fitsCell`: what is printed for a sheet and for a cell of it;
4. `long_column_is_not_printed`: a cell without an address, and a number of too many digits;
5. `scalars_survive_sheets`: the scalars of a document are printed in their places.
-/

namespace Spreadsheet

open Text Number Sheet

/-! ## Scalars and cells -/

/-- The value of a cell that holds no formula. -/
def Content.value? : Content → Option Value
  | .blank => some .empty
  | .literal v => some v
  | .formula _ => none

/-- A cell that holds a text keeps all of it. -/
theorem eq_of_ofText_text {s t : String} (h : Content.ofText s = .literal (.text t)) : t = s := by
  have hliteral : literalOf s = .text t := by
    unfold Content.ofText at h
    split at h
    · exact nomatch h
    · exact nomatch h
    · exact Content.literal.inj h
  unfold literalOf at hliteral
  dsimp only at hliteral
  split at hliteral
  · exact nomatch hliteral
  split at hliteral
  · exact nomatch hliteral
  split at hliteral
  · exact nomatch hliteral
  split at hliteral
  · exact nomatch hliteral
  · exact (Value.text.inj hliteral).symm

namespace Json

/-- A scalar that a cell can hold as it is: an integer of 64 bits, a finite double, or a text that
is not read as something else. -/
inductive FitsCell : Json → Prop where
  | null : FitsCell .null
  | bool (b : Bool) : FitsCell (.bool b)
  | int {n : Int} (low : -2 ^ 63 ≤ n) (high : n < 2 ^ 63) : FitsCell (.int n)
  | float {x : Float} (h : x.isFinite = true) : FitsCell (.float x)
  | text {s t : String} (h : Content.ofText s = .literal (.text t)) : FitsCell (.text s)

/-- A scalar is found again from the text of its cell. -/
theorem exists_value_of_fitsCell {item : Json} {t : String} (h : item.FitsCell)
    (ht : CellText item t) :
    ∃ v, (Content.ofText t).value? = some v ∧ Command.valueJson v = item := by
  cases h with
  | null =>
    cases ht
    exact ⟨.empty, rfl, rfl⟩
  | bool b =>
    cases ht with
    | true => exact ⟨.bool true, rfl, rfl⟩
    | false => exact ⟨.bool false, rfl, rfl⟩
  | @int n low high =>
    cases ht
    have hn : (Int64.ofInt n).toInt = n := Int64.toInt_ofInt_of_le low high
    refine ⟨.int (Int64.ofInt n), ?_, congrArg Json.int hn⟩
    have hcell := ofText_intText (Int64.ofInt n)
    rw [hn] at hcell
    exact congrArg Content.value? hcell
  | @float x h =>
    cases ht
    exact ⟨.float x, congrArg Content.value? (ofText_floatText h), if_pos h⟩
  | text h =>
    cases ht
    rw [h, eq_of_ofText_text h]
    exact ⟨_, rfl, rfl⟩

end Json

/-! ## Cells without formulas -/

/-- A cell without a formula is worth what it holds, for every engine. -/
theorem Engine.evaluateCell_of_value? (e : Engine) {g : Grid} {a : Address} {c : Content}
    {v : Value} (ha : g a = some c) (hv : c.value? = some v) : e.evaluateCell g a = v := by
  have hformula : ¬(e.setting g).IsFormula a := by
    rintro ⟨source, hg⟩
    cases ha.symm.trans hg
    exact nomatch hv
  have hvalue : Cell.valueFrom (e.setting g) (fun _ => .empty) a = v := by
    have hg : (e.setting g).grid a = some c := ha
    rw [Cell.valueFrom, hg]
    cases c with
    | blank => exact Option.some.inj hv
    | literal u => exact Option.some.inj hv
    | formula source => exact nomatch hv
  rw [evaluateCell_eq, Session.cellValue, Cell.value_of_not_isFormula _ hformula fun _ => .empty]
  exact hvalue

namespace Sheet

variable {s : Sheet} {row col : Nat} {t : String} {v : Value}

theorem evaluate_of_value? (hin : s.contains row col = true)
    (haddress : (address? row col).isSome = true) (ht : s.text? row col = some t)
    (hv : (Content.ofText t).value? = some v) : s.evaluate row col = .ok v := by
  obtain ⟨a, ha⟩ := Option.isSome_iff_exists.mp haddress
  have haddr : s.address row col = .ok a := by
    rw [address, checkBounds, if_pos hin, ha]
    rfl
  have hposition : (a.row.toNat, a.col.toNat) = (row, col) :=
    position_of_address (p := (row, col)) haddr
  obtain ⟨hrow, hcol⟩ := Prod.mk.inj hposition
  have hgrid : s.grid a = some (Content.ofText t) := by
    rw [grid, hrow, hcol, ht]
    rfl
  refine bind_eq_ok_iff.mpr ⟨a, haddr, ?_⟩
  rw [s.engine.evaluateCell_of_value? hgrid hv]
  rfl

/-- A cell without an address is not evaluated. -/
theorem evaluate_of_no_address (hin : s.contains row col = true)
    (haddress : address? row col = none) : s.evaluate row col = .error (s.outOfBounds row col) := by
  rw [evaluate, address, checkBounds, if_pos hin, haddress]
  rfl

/-- The values of a sheet, where there are no formulas. -/
theorem recalculate_of_value? (hin : s.contains row col = true) (ht : s.text? row col = some t)
    (hv : (Content.ofText t).value? = some v) : s.recalculate[row]?.bind (·[col]?) =
      some (if (address? row col).isSome then v else .error .ref) := by
  rw [getElem?_recalculate hin]
  cases haddress : address? row col with
  | none =>
    rw [evaluate_of_no_address hin haddress]
    rfl
  | some a =>
    rw [evaluate_of_value? hin (by rw [haddress]; rfl) ht hv]
    rfl

end Sheet

/-! ## Printed values -/

namespace Command

variable {s : Sheet} {row col : Nat}

/-- The values of a sheet as they are printed. -/
def printed (s : Sheet) : List (List Json) :=
  s.recalculate.map (·.map valueJson)

theorem printSheet_json (coloured : Bool) (s : Sheet) : printSheet coloured .json s =
    { output := (Json.object [("columns", .array (s.columns.toList.map .text)),
        ("values", .array ((printed s).map .array))]).pretty ++ "\n" } := by
  rw [printed, List.map_map]
  rfl

theorem length_printed (s : Sheet) : (printed s).length = s.rowCount := by
  rw [printed, List.length_map, length_recalculate]

theorem length_of_mem_printed {cells : List Json} (h : cells ∈ printed s) :
    cells.length = s.colCount := by
  obtain ⟨values, hvalues, rfl⟩ := List.mem_map.mp h
  rw [List.length_map, length_of_mem_recalculate hvalues]

/-- What is printed for a cell that holds the text of a scalar. -/
theorem printed_of_fitsCell {item : Json} {t : String} (hitem : item.FitsCell)
    (hcell : Json.CellText item t) (hin : s.contains row col = true)
    (ht : s.text? row col = some t) : (printed s)[row]?.bind (·[col]?) =
      some (if (address? row col).isSome then item else .text "#REF!") := by
  obtain ⟨v, hv, hjson⟩ := Json.exists_value_of_fitsCell hitem hcell
  obtain ⟨values, hvalues, hat⟩ := Option.bind_eq_some_iff.mp (recalculate_of_value? hin ht hv)
  rw [printed, List.getElem?_map, hvalues, Option.map_some, Option.bind_some, List.getElem?_map,
    hat, Option.map_some, ← hjson]
  split <;> rfl

end Command

/-! ## Documents of scalars -/

namespace Json

variable {j : Json} {rows : List (List Json)} {s : Sheet} {row col w : Nat}

/-- The document has these rows, and nothing else in it is an error. -/
structure Tabulates (j : Json) (rows : List (List Json)) : Prop where
  isObject : j.IsObject
  columns : j.value "columns" = .null ∨ (j.value "columns").IsArray
  headers : ∀ item ∈ j.headers, item.IsScalar
  data : j.value "data" = .array (rows.map .array)
  styles : j.value "styles" = .null ∨ (j.value "styles").IsObject

/-- A document with nothing but rows. -/
theorem tabulates_data (rows : List (List Json)) :
    (object [("data", .array (rows.map .array))]).Tabulates rows where
  isObject := ⟨_, rfl⟩
  columns := .inl rfl
  headers := nofun
  data := rfl
  styles := .inl rfl

namespace Tabulates

variable (h : j.Tabulates rows)
include h

theorem rows_eq : j.rows = rows.map .array := by
  rw [Json.rows, h.data]
  rfl

theorem cell?_eq (row col : Nat) : j.cell? row col = rows[row]?.bind (·[col]?) := by
  rw [cell?, h.rows_eq, List.getElem?_map]
  cases rows[row]? <;> rfl

theorem not_offends {e : DocumentError} : ¬j.Offends e := by
  intro hoffends
  cases hoffends with
  | notObject hnot => exact hnot h.isObject
  | columnsNotList hgiven hnot => exact h.columns.elim hgiven hnot
  | columnNotScalar hgiven hnot => exact hnot (h.headers _ (List.mem_of_getElem? hgiven))
  | dataNotList hgiven hnot => exact hnot ⟨_, h.data⟩
  | rowNotList hgiven hnot =>
    rw [h.rows_eq] at hgiven
    obtain ⟨cells, -, hcells⟩ := List.mem_map.mp (List.mem_of_getElem? hgiven)
    exact hnot ⟨cells, hcells.symm⟩
  | stylesNotObject hgiven hnot => exact h.styles.elim hgiven hnot

theorem exists_loadsAs : ∃ s, ofJson j = .ok s ∧ j.LoadsAs s := by
  cases hload : ofJson j with
  | error e => exact absurd (offends_of_ofJson hload) h.not_offends
  | ok s =>
    obtain ⟨columns, data, hparts⟩ := exists_parts hload
    exact ⟨s, rfl, hparts.loadsAs⟩

end Tabulates

/-- A row filled up with `null`. -/
def filled (width : Nat) (row : List Json) : List Json :=
  row ++ List.replicate (width - row.length) .null

theorem length_filled {cells : List Json} (h : cells.length ≤ w) : (filled w cells).length = w := by
  rw [filled, List.length_append, List.length_replicate]
  omega

theorem getElem?_filled {cells : List Json} (hcol : col < w) (h : cells.length ≤ w) :
    (filled w cells)[col]? = some (cells[col]?.getD .null) := by
  rw [filled]
  rcases Nat.lt_or_ge col cells.length with hlt | hge
  · simp [List.getElem?_append, hlt]
  · have hrest : col - cells.length < w - cells.length := by omega
    simp [List.getElem?_append, Nat.not_lt.mpr hge, hrest]

theorem getElem?_map_filled (hw : ∀ cells ∈ rows, cells.length ≤ w) (hrow : row < rows.length)
    (hcol : col < w) : (rows.map (filled w))[row]?.bind (·[col]?) =
      some ((rows[row]?.bind (·[col]?)).getD .null) := by
  rw [List.getElem?_map, List.getElem?_eq_getElem hrow]
  exact getElem?_filled hcol (hw _ (List.getElem_mem hrow))

/-- Every cell of the sheet holds the text of a scalar, `null` where the document gives none. -/
theorem LoadsAs.exists_cellText (h : j.LoadsAs s) (hin : s.contains row col = true) :
    ∃ t, s.text? row col = some t ∧ CellText ((j.cell? row col).getD .null) t := by
  cases hcell : j.cell? row col with
  | none => exact ⟨"", h.padding row col hin hcell, .null⟩
  | some item => exact h.cell row col item hcell

/-- Tables of the same size are equal if their cells are. -/
theorem table_ext {α : Type} {t u : List (List α)} (hlen : t.length = u.length)
    (ht : ∀ cells ∈ t, cells.length = w) (hu : ∀ cells ∈ u, cells.length = w)
    (hcells : ∀ row col, row < u.length → col < w →
      t[row]?.bind (·[col]?) = u[row]?.bind (·[col]?)) : t = u := by
  refine List.ext_getElem hlen fun row hrow hrow' => ?_
  have htrow : t[row].length = w := ht _ (List.getElem_mem hrow)
  have hurow : u[row].length = w := hu _ (List.getElem_mem hrow')
  refine List.ext_getElem? fun col => ?_
  rcases Nat.lt_or_ge col w with hcol | hcol
  · have hcell := hcells row col hrow' hcol
    rwa [List.getElem?_eq_getElem hrow, List.getElem?_eq_getElem hrow'] at hcell
  · rw [List.getElem?_eq_none (htrow ▸ hcol), List.getElem?_eq_none (hurow ▸ hcol)]

section Documents

variable (hj : j.Tabulates rows) (hs : j.LoadsAs s)
include hj hs

theorem Tabulates.rowCount_eq : s.rowCount = rows.length := by
  rw [hs.rowCount, hj.rows_eq, List.length_map]

theorem Tabulates.isGreatest_colCount :
    IsGreatest {n | n ∈ j.headers.length :: rows.map List.length} s.colCount := by
  have hcount := hs.colCount
  rwa [hj.rows_eq, List.map_map] at hcount

theorem Tabulates.length_le_colCount : ∀ cells ∈ rows, cells.length ≤ s.colCount := fun _ h =>
  (hj.isGreatest_colCount hs).2 (List.mem_cons_of_mem _ (List.mem_map_of_mem h))

/-- What is printed for a cell of the sheet of a document. Cells that it leaves out are `null`. -/
theorem Tabulates.getElem?_printed (hrows : ∀ cells ∈ rows, ∀ item ∈ cells, item.FitsCell)
    (e : Engine) (hrow : row < rows.length) (hcol : col < s.colCount) :
    (Command.printed (s.withEngine e))[row]?.bind (·[col]?) =
      some (if (address? row col).isSome then (rows[row]?.bind (·[col]?)).getD .null
        else .text "#REF!") := by
  have hin : s.contains row col = true :=
    contains_iff.mpr ⟨hrow.trans_eq (hj.rowCount_eq hs).symm, hcol⟩
  obtain ⟨t, ht, htext⟩ := hs.exists_cellText hin
  rw [hj.cell?_eq] at htext
  -- No engine is part of what the sheet holds, so the sheet may have any.
  refine Command.printed_of_fitsCell ?_ htext (s := s.withEngine e) hin ht
  cases hitem : rows[row]?.bind (·[col]?) with
  | none => exact .null
  | some item =>
    obtain ⟨cells, hat, hat'⟩ := Option.bind_eq_some_iff.mp hitem
    exact hrows cells (List.mem_of_getElem? hat) item (List.mem_of_getElem? hat')

end Documents

/-- The number `0.30000000000000001`, as it is spelled in a document. -/
def longFraction : Numeral :=
  ⟨false, ['0'], some "30000000000000001".toList, none⟩

/-- It has more digits than the double that it is read as. -/
theorem toJson?_longFraction : longFraction.toJson? = some (float 0.3) := by
  have hscaled : Numeral.scaled? (Float.ofNat 30000000000000001) (-17) = some 0.3 := by
    rw [Numeral.scaled?, if_pos (by decide), if_pos (by decide)]
    exact congrArg some (by decide +kernel)
  show (Numeral.scaled? (Float.ofNat 30000000000000001) (-17)).map _ = _
  rw [hscaled]
  rfl

/-- In a column of more rows than there are 32-bit words the last cell has no address, and is
printed as an error whatever it holds. And a number is a double as soon as it was read from the
document, so one of more digits is printed with fewer. -/
theorem long_column_is_not_printed :
    (¬∀ (j : Json) (rows : List (List Json)), j.Tabulates rows →
      (∀ cells ∈ rows, ∀ item ∈ cells, item.FitsCell) → ∃ s, ofJson j = .ok s ∧
        ∀ e : Engine, Command.printed (s.withEngine e) = rows.map (filled s.colCount)) ∧
    longFraction.toJson? = some (float 0.3) ∧ (float 0.3).compact = "0.3" := by
  refine ⟨fun h => ?_, toJson?_longFraction, by decide +kernel⟩
  obtain ⟨n, hn⟩ : ∃ n, n = UInt32.size := ⟨_, rfl⟩
  have hj : (object [("data", .array ((List.replicate (n + 1) [bool true]).map .array))]).Tabulates
    (List.replicate (n + 1) [bool true]) := tabulates_data _
  have hrows : ∀ cells ∈ List.replicate (n + 1) [bool true], ∀ item ∈ cells, item.FitsCell := by
    intro cells hcells item hitem
    obtain ⟨-, rfl⟩ := List.mem_replicate.mp hcells
    obtain rfl := List.mem_singleton.mp hitem
    exact .bool true
  obtain ⟨s, hload, hprinted⟩ := h _ _ hj hrows
  obtain ⟨s', hload', hs⟩ := hj.exists_loadsAs
  obtain rfl : s = s' := Except.ok.inj (hload.symm.trans hload')
  have hlast : (List.replicate (n + 1) [bool true])[n]? = some [bool true] :=
    List.getElem?_replicate_of_lt (Nat.lt_succ_self n)
  have hrow : n < (List.replicate (n + 1) [bool true]).length :=
    List.length_replicate.symm ▸ Nat.lt_succ_self n
  have hcol : 0 < s.colCount := hj.length_le_colCount hs _ (List.mem_of_getElem? hlast)
  have haddress : ¬(address? n 0).isSome = true := by
    rw [address?, if_neg fun hin => hin.1.ne hn]
    exact Bool.false_ne_true
  have hcell := hj.getElem?_printed hs hrows {} hrow hcol
  rw [hprinted {}, getElem?_map_filled (hj.length_le_colCount hs) hrow hcol, if_neg haddress,
    hlast] at hcell
  exact nomatch hcell

/-- A document of scalars that cells can hold is printed as it was, with its short rows filled up by
`null`, whatever the engine and its limits are. Cells beyond the 32-bit words have no address, so
they are printed as reference errors. -/
theorem scalars_survive_sheets (hj : j.Tabulates rows)
    (hrows : ∀ cells ∈ rows, ∀ item ∈ cells, item.FitsCell) :
    ∃ s, ofJson j = .ok s ∧
      IsGreatest {n | n ∈ j.headers.length :: rows.map List.length} s.colCount ∧
      ∀ e : Engine,
        let given := rows.map (filled s.colCount)
        let printed := Command.printed (s.withEngine e)
        (rows.length ≤ UInt32.size → s.colCount ≤ UInt32.size → printed = given) ∧
        printed.length = given.length ∧ (∀ cells ∈ printed, cells.length = s.colCount) ∧
        ∀ row col item, given[row]?.bind (·[col]?) = some item →
          printed[row]?.bind (·[col]?) =
            some (if (address? row col).isSome then item else .text "#REF!") := by
  obtain ⟨s, hload, hs⟩ := hj.exists_loadsAs
  have hle := hj.length_le_colCount hs
  refine ⟨s, hload, hj.isGreatest_colCount hs, fun e => ?_⟩
  intro given printed
  have hgiven : ∀ cells ∈ given, cells.length = s.colCount := by
    intro cells hcells
    obtain ⟨short, hshort, rfl⟩ := List.mem_map.mp hcells
    exact length_filled (hle short hshort)
  have hprinted : ∀ cells ∈ printed, cells.length = s.colCount := fun _ =>
    Command.length_of_mem_printed
  have hheight : given.length = rows.length := List.length_map _
  have hlength : printed.length = given.length := by
    rw [Command.length_printed, hheight, ← hj.rowCount_eq hs]
    rfl
  refine ⟨fun hrowsFit hcolsFit => ?_, hlength, hprinted, fun row col item hitem => ?_⟩
  · refine table_ext hlength hprinted hgiven fun row col hrow hcol => ?_
    rw [hheight] at hrow
    have haddress : (address? row col).isSome = true := by
      rw [address?, if_pos ⟨hrow.trans_le hrowsFit, hcol.trans_le hcolsFit⟩]
      rfl
    rw [hj.getElem?_printed hs hrows e hrow hcol, if_pos haddress,
      getElem?_map_filled hle hrow hcol]
  · obtain ⟨cells, hat, hat'⟩ := Option.bind_eq_some_iff.mp hitem
    have hrow : row < rows.length := hheight ▸ (List.getElem?_eq_some_iff.mp hat).1
    have hcol : col < s.colCount :=
      (List.getElem?_eq_some_iff.mp hat').1.trans_eq (hgiven cells (List.mem_of_getElem? hat))
    rw [getElem?_map_filled hle hrow hcol, Option.some.injEq] at hitem
    rw [hj.getElem?_printed hs hrows e hrow hcol, hitem]

/-- Scalars of every kind in rows of two lengths: the least integer, a double that is whole and a
text with blanks around it. -/
theorem scalars_survive_sheets_of_each_kind :
    ∃ s, ofJson (object [("data", .array [.array [null, bool true, int (-2 ^ 63)],
        .array [float 100, text " abc "]])]) = .ok s ∧
      ∀ e : Engine, Command.printed (s.withEngine e) =
        [[null, bool true, int (-2 ^ 63)], [float 100, text " abc ", null]] := by
  have hrows : ∀ cells ∈ [[null, bool true, int (-2 ^ 63)], [float 100, text " abc "]],
      ∀ item ∈ cells, item.FitsCell := by
    intro cells hcells item hitem
    simp only [List.mem_cons, List.not_mem_nil, or_false] at hcells
    rcases hcells with rfl | rfl <;> simp only [List.mem_cons, List.not_mem_nil, or_false] at hitem
    · rcases hitem with rfl | rfl | rfl
      exacts [.null, .bool true, .int (by decide) (by decide)]
    · rcases hitem with rfl | rfl
      exacts [.float (by decide +kernel), .text (t := " abc ") rfl]
  obtain ⟨s, hload, hwidth, hprinted⟩ := scalars_survive_sheets (tabulates_data _) hrows
  have hthree : s.colCount = 3 :=
    hwidth.unique (by simp [IsGreatest, upperBounds] : IsGreatest {n | n ∈ [0, 3, 2]} 3)
  refine ⟨s, hload, fun e => ?_⟩
  rw [(hprinted e).1 (by decide) (by rw [hthree]; decide), hthree]
  rfl

end Json

end Spreadsheet
