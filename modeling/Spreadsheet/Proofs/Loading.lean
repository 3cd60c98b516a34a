import Spreadsheet.Proofs.Boards

/-!
# Loading documents

A document is checked in its outer shape and cleaned inside it. It has to be an object; what stands
under `columns`, `data` and `styles` has to be a list of scalars, a list of lists and an object,
where it is there at all. Nothing else is an error. A cell that is no scalar is read as empty, a
short row is filled up, a missing header gets letters, and a style stays only if its key names a
cell of the sheet and its attributes have their types.

Which style a cell gets needs some care, since a cell can be named by several keys. The styles are
entered in the order of their keys, so the last key counts among those whose style can be loaded.

Results:
1. `value?_eq_some_iff`: sorted members are those that are found under some key;
2. `offends_of_readColumns`, `of_readColumns` and the like: each part is read unless it offends;
3. `columns_ofRows`, `text?_ofRows`: the sheet of headers and rows;
4. `lookup_reverse_filterMap_eq_some_iff`, `of_readStyles_some`: the styles of a document;
5. `documents_are_validated`: a document loads unless it offends, and what it loads as.
-/

namespace Spreadsheet

open Sheet

/-! ## What a document says -/

namespace Json

variable {j : Json} {ms : List (String × Json)} {key : String}

/-- The value under a key of an object, of several the last. -/
def value? (key : String) : Json → Option Json
  | .object ms => ms.reverse.lookup key
  | _ => none

/-- The same, where nothing counts as `null`. -/
def value (key : String) (j : Json) : Json :=
  (j.value? key).getD .null

/-- The items of a list. -/
def items : Json → List Json
  | .array items => items
  | _ => []

def IsArray (j : Json) : Prop :=
  ∃ items, j = .array items

def IsObject (j : Json) : Prop :=
  ∃ ms, j = .object ms

def IsScalar (j : Json) : Prop :=
  ¬j.IsArray ∧ ¬j.IsObject

/-- The headers that a document gives. -/
def headers (j : Json) : List Json :=
  (j.value "columns").items

/-- The rows that a document gives. -/
def rows (j : Json) : List Json :=
  (j.value "data").items

/-- The value that a document gives for a cell, if it does. -/
def cell? (j : Json) (row col : Nat) : Option Json :=
  j.rows[row]?.bind (·.items[col]?)

/-- What is wrong with the shape of a document. -/
inductive Offends (j : Json) : DocumentError → Prop where
  | notObject (h : ¬j.IsObject) : Offends j .notObject
  | columnsNotList (given : j.value "columns" ≠ .null) (h : ¬(j.value "columns").IsArray) :
      Offends j .columnsNotList
  | columnNotScalar {index : Nat} {item : Json} (given : j.headers[index]? = some item)
      (h : ¬item.IsScalar) : Offends j (.columnNotScalar index)
  | dataNotList (given : j.value "data" ≠ .null) (h : ¬(j.value "data").IsArray) :
      Offends j .dataNotList
  | rowNotList {index : Nat} {row : Json} (given : j.rows[index]? = some row)
      (h : ¬row.IsArray) : Offends j (.rowNotList index)
  | stylesNotObject (given : j.value "styles" ≠ .null) (h : ¬(j.value "styles").IsObject) :
      Offends j .stylesNotObject

/-- The text of a cell or a header. Numbers are written as in documents; what is no scalar is read
as empty. -/
inductive CellText : Json → String → Prop where
  | null : CellText .null ""
  | true : CellText (.bool true) "TRUE"
  | false : CellText (.bool false) "FALSE"
  | int (n : Int) : CellText (.int n) (compact (.int n))
  | float (x : Float) : CellText (.float x) (compact (.float x))
  | text (s : String) : CellText (.text s) s
  | array (items : List Json) : CellText (.array items) ""
  | object (ms : List (String × Json)) : CellText (.object ms) ""

/-- An entry of an object gives a cell a style: its key names the cell and its value is a style. -/
def GivesStyle (styles : Json) (key : String) (cell : Nat × Nat) (style : Style) : Prop :=
  Style.SpellsCell key cell ∧ ∃ i, styles.value? key = some i ∧ Style.ofJson? i = some style

/-- The sheet that a document loads as. -/
structure LoadsAs (j : Json) (s : Sheet) : Prop where
  rowCount : s.rowCount = j.rows.length
  /-- The width is that of the headers or of the longest row. -/
  colCount : IsGreatest {n | n ∈ j.headers.length :: j.rows.map (·.items.length)} s.colCount
  rectangular : s.Rectangular
  header : ∀ (col : Nat) item, j.headers[col]? = some item →
    ∃ t, s.columns[col]? = some t ∧ CellText item t
  /-- The other headers are letters. -/
  lettered : ∀ col, j.headers.length ≤ col → col < s.colCount →
    s.columns[col]? = some (defaultHeader col)
  cell : ∀ row col item, j.cell? row col = some item →
    ∃ t, s.text? row col = some t ∧ CellText item t
  /-- The other cells are empty. -/
  padding : ∀ row col, s.contains row col = true → j.cell? row col = none →
    s.text? row col = some ""
  nodup : (s.styles.map Prod.fst).Nodup
  /-- A cell has the style that it is given under the last of its keys. -/
  styles : ∀ cell style, (cell, style) ∈ s.styles ↔ s.contains cell.1 cell.2 = true ∧
    ∃ key, GivesStyle (j.value "styles") key cell style ∧
      ∀ key' style', GivesStyle (j.value "styles") key' cell style' → ¬bytes key < bytes key'

/-! ## Members by their keys -/

theorem lookup_insertMember (key k : String) (j : Json) (ms : List (String × Json)) :
    (insertMember key j ms).lookup k = if k = key then some j else ms.lookup k := by
  induction ms with
  | nil => grind [insertMember, List.lookup]
  | cons m ms ih => grind [insertMember, List.lookup]

/-- Sorted members have the last value under each key. -/
theorem lookup_sortMembers_eq (ms : List (String × Json)) (key : String) :
    (sortMembers ms).lookup key = (object ms).value? key := by
  rw [value?]
  induction ms using List.reverseRecOn with
  | nil => rfl
  | append_singleton ms m ih =>
    rw [sortMembers_concat, lookup_insertMember, ih, List.reverse_concat, List.lookup_cons]
    by_cases hkey : key = m.1
    · rw [if_pos hkey, beq_iff_eq.mpr hkey]
    · rw [if_neg hkey, beq_false_of_ne hkey]

theorem value?_eq_some_iff {i : Json} :
    (object ms).value? key = some i ↔ (key, i) ∈ sortMembers ms := by
  rw [← lookup_sortMembers_eq, lookup_eq_some_iff_mem (ascending_sortMembers ms).nodup]

theorem value_object : (object ms).value key = ((sortMembers ms).lookup key).getD .null := by
  rw [value, lookup_sortMembers_eq]

end Json

/-! ## Lists read item by item -/

section

variable {ε α β : Type}

theorem rel_getElem? {R : β → α → Prop} {items : List β} {xs : List α}
    (h : List.Forall₂ R items xs) (i : Nat) : Option.Rel R items[i]? xs[i]? := by
  induction h generalizing i with
  | nil => exact .none
  | cons hx _ ih =>
    cases i with
    | zero => exact .some hx
    | succ i => exact ih i

theorem exists_of_rel_some {R : β → α → Prop} {item : β} {o : Option α}
    (h : Option.Rel R (some item) o) : ∃ x, o = some x ∧ R item x := by
  cases h with
  | some hx => exact ⟨_, rfl, hx⟩

theorem eq_none_of_rel_none {R : β → α → Prop} {o : Option α} (h : Option.Rel R none o) :
    o = none := by
  cases h
  rfl

theorem exists_of_forall₂ {R : β → α → Prop} {items : List β} {xs : List α}
    (h : List.Forall₂ R items xs) {i : Nat} {item : β} (hi : items[i]? = some item) :
    ∃ x, xs[i]? = some x ∧ R item x :=
  exists_of_rel_some (hi ▸ rel_getElem? h i)

variable {read : β × Nat → Except ε α}

/-- An error comes from one of the items. -/
theorem exists_of_mapM_zipIdx_error {items : List β} {start : Nat} {e : ε}
    (h : (items.zipIdx start).mapM read = .error e) :
    ∃ i item, items[i]? = some item ∧ read (item, start + i) = .error e := by
  induction items generalizing start with
  | nil => exact nomatch h
  | cons item items ih =>
    rw [List.zipIdx_cons, List.mapM_cons] at h
    cases hitem : read (item, start) with
    | error e' =>
      rw [hitem] at h
      obtain rfl := Except.error.inj h
      exact ⟨0, item, rfl, hitem⟩
    | ok x =>
      rw [hitem] at h
      cases hrest : (items.zipIdx (start + 1)).mapM read with
      | error e' =>
        rw [hrest] at h
        obtain rfl := Except.error.inj h
        obtain ⟨i, item', hi, hread⟩ := ih hrest
        rw [Nat.add_right_comm, Nat.add_assoc] at hread
        exact ⟨i + 1, item', hi, hread⟩
      | ok xs =>
        rw [hrest] at h
        exact nomatch h

/-- Without an error each item was read. -/
theorem forall₂_of_mapM_zipIdx {items : List β} {start : Nat} {xs : List α}
    (h : (items.zipIdx start).mapM read = .ok xs) :
    List.Forall₂ (fun item x => ∃ i, read (item, i) = .ok x) items xs := by
  induction items generalizing start xs with
  | nil =>
    cases h
    exact .nil
  | cons item items ih =>
    rw [List.zipIdx_cons, List.mapM_cons] at h
    obtain ⟨x, hx, h⟩ := bind_eq_ok_iff.mp h
    obtain ⟨xs, hxs, h⟩ := bind_eq_ok_iff.mp h
    cases h
    exact .cons ⟨start, hx⟩ (ih hxs)

end

namespace Sheet

open Json

variable {s : Sheet} {j c : Json} {e : DocumentError}

/-! ## The parts of a document -/

theorem cellText_of_scalarText? {item : Json} {t : String} (h : scalarText? item = some t) :
    item.IsScalar ∧ CellText item t := by
  have hscalar : ∀ {item : Json}, (∀ items, item ≠ .array items) → (∀ ms, item ≠ .object ms) →
      item.IsScalar :=
    fun harray hobject => ⟨fun ⟨items, h⟩ => harray items h, fun ⟨ms, h⟩ => hobject ms h⟩
  cases item with
  | array items => exact nomatch h
  | object ms => exact nomatch h
  | bool b =>
    cases h
    refine ⟨hscalar nofun nofun, ?_⟩
    cases b with
    | true => exact .true
    | false => exact .false
  | _ =>
    cases h
    exact ⟨hscalar nofun nofun, by constructor⟩

theorem cellText_of_scalarText?_eq_none {item : Json} (h : scalarText? item = none) :
    ¬item.IsScalar ∧ CellText item "" := by
  cases item with
  | array items => exact ⟨fun hscalar => hscalar.1 ⟨items, rfl⟩, .array items⟩
  | object ms => exact ⟨fun hscalar => hscalar.2 ⟨ms, rfl⟩, .object ms⟩
  | _ => exact nomatch h

/-- A cell has a text in any case. -/
theorem cellText_getD (item : Json) : CellText item ((scalarText? item).getD "") := by
  cases h : scalarText? item with
  | none => exact (cellText_of_scalarText?_eq_none h).2
  | some t => exact (cellText_of_scalarText? h).2

/-- A part that is missing is read like `null`. -/
theorem readColumns_getD (c : Option Json) : readColumns (some (c.getD .null)) = readColumns c := by
  cases c <;> rfl

theorem readData_getD (c : Option Json) : readData (some (c.getD .null)) = readData c := by
  cases c <;> rfl

theorem readStyles_getD (s : Sheet) (c : Option Json) :
    readStyles s (some (c.getD .null)) = readStyles s c := by
  cases c <;> rfl

theorem of_readColumns {columns : List String} (h : readColumns (some c) = .ok columns) :
    (c = .null ∨ c.IsArray) ∧
      List.Forall₂ (fun item t => item.IsScalar ∧ CellText item t) c.items columns := by
  cases c with
  | null =>
    cases h
    exact ⟨.inl rfl, .nil⟩
  | array items =>
    refine ⟨.inr ⟨items, rfl⟩, (forall₂_of_mapM_zipIdx h).imp fun item t ⟨i, ht⟩ => ?_⟩
    dsimp only at ht
    split at ht
    · next hitem =>
      cases ht
      exact cellText_of_scalarText? hitem
    · exact nomatch ht
  | _ => exact nomatch h

theorem offends_of_readColumns (h : readColumns (some (j.value "columns")) = .error e) :
    j.Offends e := by
  cases hc : j.value "columns" with
  | null =>
    rw [hc] at h
    exact nomatch h
  | array items =>
    rw [hc] at h
    obtain ⟨i, item, hi, hread⟩ := exists_of_mapM_zipIdx_error h
    rw [Nat.zero_add] at hread
    dsimp only at hread
    split at hread
    · exact nomatch hread
    · next hitem =>
      cases hread
      refine .columnNotScalar ?_ (cellText_of_scalarText?_eq_none hitem).1
      rwa [headers, hc]
  | _ =>
    rw [hc] at h
    cases h
    exact .columnsNotList (by rw [hc]; exact nofun) (by rw [hc]; exact nofun)

theorem of_readData {data : List (List String)} (h : readData (some c) = .ok data) :
    (c = .null ∨ c.IsArray) ∧
      List.Forall₂ (fun row cells => row.IsArray ∧ List.Forall₂ CellText row.items cells)
        c.items data := by
  cases c with
  | null =>
    cases h
    exact ⟨.inl rfl, .nil⟩
  | array rows =>
    refine ⟨.inr ⟨rows, rfl⟩, (forall₂_of_mapM_zipIdx h).imp fun row cells ⟨i, hcells⟩ => ?_⟩
    cases row with
    | array items =>
      cases hcells
      refine ⟨⟨items, rfl⟩, List.forall₂_map_right_iff.mpr (List.forall₂_same.mpr ?_)⟩
      exact fun item _ => cellText_getD item
    | _ => exact nomatch hcells
  | _ => exact nomatch h

theorem offends_of_readData (h : readData (some (j.value "data")) = .error e) : j.Offends e := by
  cases hc : j.value "data" with
  | null =>
    rw [hc] at h
    exact nomatch h
  | array rows =>
    rw [hc] at h
    obtain ⟨i, row, hi, hread⟩ := exists_of_mapM_zipIdx_error h
    rw [Nat.zero_add] at hread
    dsimp only at hread
    split at hread
    · exact nomatch hread
    · next hrow =>
      cases hread
      refine .rowNotList ?_ fun ⟨items, h⟩ => hrow items h
      rwa [Json.rows, hc]
  | _ =>
    rw [hc] at h
    cases h
    exact .dataNotList (by rw [hc]; exact nofun) (by rw [hc]; exact nofun)

theorem offends_of_readStyles (h : readStyles s (some (j.value "styles")) = .error e) :
    j.Offends e := by
  cases hc : j.value "styles" with
  | null =>
    rw [hc] at h
    exact nomatch h
  | object ms =>
    rw [hc] at h
    exact nomatch h
  | _ =>
    rw [hc] at h
    cases h
    exact .stylesNotObject (by rw [hc]; exact nofun) (by rw [hc]; exact nofun)

/-! ## The sheet of headers and rows -/

section

variable {columns : Array String} {data : Array (Array String)} {row col w : Nat}

theorem colCount_ofRows : (ofRows columns data).colCount = width columns data := by
  have hle := (le_width columns data).1
  simp only [colCount, ofRows, Array.size_append, Array.size_map, Array.size_range]
  omega

/-- The headers that are given stay in front, and letters are behind them. -/
theorem columns_ofRows (hcol : col < width columns data) :
    (ofRows columns data).columns[col]? = some (columns[col]?.getD (defaultHeader col)) := by
  rw [ofRows]
  rcases Nat.lt_or_ge col columns.size with hlt | hge
  · simp [Array.getElem?_append, hlt]
  · have hrest : col - columns.size < width columns data - columns.size := by omega
    simp [Array.getElem?_append, Nat.not_lt.mpr hge, hrest, Nat.add_sub_cancel' hge]

/-- The cells of a row stay in front, and empty ones are behind them. -/
theorem getElem?_pad {cells : Array String} (hcol : col < w) (hle : cells.size ≤ w) :
    (pad w cells)[col]? = some (cells[col]?.getD "") := by
  rw [pad]
  rcases Nat.lt_or_ge col cells.size with hlt | hge
  · simp [Array.getElem?_append, hlt]
  · have hrest : col - cells.size < w - cells.size := by omega
    simp [Array.getElem?_append, Nat.not_lt.mpr hge, hrest]

theorem text?_ofRows (hin : (ofRows columns data).contains row col = true) :
    (ofRows columns data).text? row col = some ((data[row]?.bind (·[col]?)).getD "") := by
  obtain ⟨hrow, hcol⟩ := contains_iff.mp hin
  have hwidth : col < width columns data := hcol.trans_eq colCount_ofRows
  have hdata : (ofRows columns data).data = data.map (pad (width columns data)) := rfl
  rw [hdata, Array.size_map] at hrow
  have hle := (le_width columns data).2 data[row] (Array.getElem_mem hrow)
  rw [text?, hdata, Array.getElem?_map, Array.getElem?_eq_getElem hrow]
  exact getElem?_pad hwidth hle

end

/-! ## Styles -/

theorem lookup_foldl_insertStyle (read styles : List ((Nat × Nat) × Style)) (cell : Nat × Nat) :
    (read.foldl (fun styles (cell, style) => insertStyle cell style styles) styles).lookup cell =
      (read.reverse ++ styles).lookup cell := by
  induction read generalizing styles with
  | nil => rfl
  | cons p read ih =>
    rw [List.foldl_cons, ih, List.lookup_append, lookup_insertStyle, List.reverse_cons,
      List.append_assoc, List.lookup_append, List.singleton_append, List.lookup_cons]
    by_cases hcell : cell = p.1
    · rw [if_pos hcell, beq_iff_eq.mpr hcell]
    · rw [if_neg hcell, beq_false_of_ne hcell]

section

variable {read : String × Json → Option ((Nat × Nat) × Style)} {ms : List (String × Json)}
  {m : String × Json} {cell : Nat × Nat} {style style' : Style}

/-- The style is read for the cell, and from no later key is one read for it. -/
def IsLast (read : String × Json → Option ((Nat × Nat) × Style)) (ms : List (String × Json))
    (cell : Nat × Nat) (style : Style) : Prop :=
  ∃ m ∈ ms, read m = some (cell, style) ∧
    ∀ m' ∈ ms, ∀ style', read m' = some (cell, style') → ¬m.1 < m'.1

/-- The last member gives the cell a style, which no other can replace. -/
theorem isLast_concat_of_read (hms : Ascending (ms ++ [m])) (hm : read m = some (cell, style')) :
    IsLast read (ms ++ [m]) cell style ↔ style' = style := by
  obtain ⟨-, -, hlast⟩ := List.pairwise_append.mp hms
  constructor
  · rintro ⟨m₀, hm₀, hread, hmax⟩
    rcases List.mem_append.mp hm₀ with hm₀ | hm₀
    · exact absurd (hlast m₀ hm₀ m List.mem_cons_self) (hmax m (by simp) style' hm)
    · rw [List.mem_singleton.mp hm₀, hm] at hread
      exact congrArg Prod.snd (Option.some.inj hread)
  · rintro rfl
    refine ⟨m, by simp, hm, fun m' hm' _ _ => ?_⟩
    rcases List.mem_append.mp hm' with hm' | hm'
    · exact (hlast m' hm' m List.mem_cons_self).asymm
    · rw [List.mem_singleton.mp hm']
      exact lt_irrefl _

/-- The last member has nothing to do with the cell. -/
theorem isLast_concat_of_not_read (hm : ∀ style', read m ≠ some (cell, style')) :
    IsLast read (ms ++ [m]) cell style ↔ IsLast read ms cell style := by
  have hother : ∀ m' ∈ ms ++ [m], ∀ style', read m' = some (cell, style') → m' ∈ ms := by
    intro m' hm' style' hread
    refine (List.mem_append.mp hm').resolve_right fun hm' => hm style' ?_
    rwa [← List.mem_singleton.mp hm']
  constructor
  · rintro ⟨m₀, hm₀, hread, hmax⟩
    exact ⟨m₀, hother m₀ hm₀ style hread, hread, fun m' hm' style' hread' =>
      hmax m' (List.mem_append_left _ hm') style' hread'⟩
  · rintro ⟨m₀, hm₀, hread, hmax⟩
    exact ⟨m₀, List.mem_append_left _ hm₀, hread, fun m' hm' style' hread' =>
      hmax m' (hother m' hm' style' hread') style' hread'⟩

/-- What is read last for a cell comes from its last key. -/
theorem lookup_reverse_filterMap_eq_some_iff (hms : Ascending ms) :
    (ms.filterMap read).reverse.lookup cell = some style ↔ IsLast read ms cell style := by
  induction ms using List.reverseRecOn with
  | nil => exact ⟨nofun, fun ⟨_, h, _⟩ => absurd h List.not_mem_nil⟩
  | append_singleton ms m ih =>
    rw [List.filterMap_append, List.reverse_append, List.lookup_append]
    by_cases hm : ∃ style', read m = some (cell, style')
    · obtain ⟨style', hm⟩ := hm
      have hlookup : ([m].filterMap read).reverse.lookup cell = some style' := by
        simp [hm]
      rw [hlookup, Option.some_or, isLast_concat_of_read hms hm, Option.some.injEq]
    · have hlookup : ([m].filterMap read).reverse.lookup cell = none := by
        cases hread : read m with
        | none => simp [hread]
        | some p =>
          have hne : cell ≠ p.1 := fun heq => hm ⟨p.2, by rw [hread, heq]⟩
          simp [hread, hne]
      rw [hlookup, Option.none_or, isLast_concat_of_not_read (not_exists.mp hm)]
      exact ih (List.pairwise_append.mp hms).1

end

theorem readStyle?_eq_some_iff {key : String} {i : Json} {cell : Nat × Nat} {style : Style} :
    readStyle? s key i = some (cell, style) ↔ s.contains cell.1 cell.2 = true ∧
      Style.SpellsCell key cell ∧ Style.ofJson? i = some style := by
  constructor
  · intro h
    obtain ⟨hkey, hin, hstyle⟩ := of_readStyle? h
    exact ⟨hin, Style.parseKey?_eq_some_iff.mp hkey, hstyle⟩
  · rintro ⟨hin, hkey, hstyle⟩
    simp [readStyle?, Style.parseKey?_eq_some_iff.mpr hkey, hin, hstyle]

/-- Each cell of the sheet has the style under the last of its keys, and no other cell has one. -/
theorem of_readStyles_some {styles : List ((Nat × Nat) × Style)}
    (h : readStyles s (some c) = .ok styles) : (c = .null ∨ c.IsObject) ∧
      ∀ cell style, (cell, style) ∈ styles ↔ s.contains cell.1 cell.2 = true ∧
        ∃ key, GivesStyle c key cell style ∧
          ∀ key' style', GivesStyle c key' cell style' → ¬bytes key < bytes key' := by
  cases c with
  | null =>
    cases h
    exact ⟨.inl rfl, fun cell style => ⟨nofun, fun ⟨_, _, ⟨_, _, hvalue, _⟩, _⟩ => nomatch hvalue⟩⟩
  | object ms =>
    refine ⟨.inr ⟨ms, rfl⟩, fun cell style => ?_⟩
    rw [← lookup_eq_some_iff_mem (of_readStyles h).1]
    cases h
    rw [lookup_foldl_insertStyle, List.append_nil,
      lookup_reverse_filterMap_eq_some_iff (ascending_sortMembers ms)]
    simp only [IsLast, readStyle?_eq_some_iff, GivesStyle, bytes_lt_bytes_iff, value?_eq_some_iff,
      Prod.exists, Prod.forall]
    constructor
    · rintro ⟨key, i, hmem, ⟨hin, hkey, hstyle⟩, hmax⟩
      refine ⟨hin, key, ⟨hkey, i, hmem, hstyle⟩, ?_⟩
      rintro key' style' ⟨hkey', i', hmem', hstyle'⟩
      exact hmax key' i' hmem' style' ⟨hin, hkey', hstyle'⟩
    · rintro ⟨hin, key, ⟨hkey, i, hmem, hstyle⟩, hmax⟩
      refine ⟨key, i, hmem, ⟨hin, hkey, hstyle⟩, ?_⟩
      rintro key' i' hmem' style' ⟨-, hkey', hstyle'⟩
      exact hmax key' style' ⟨hkey', i', hmem', hstyle'⟩
  | _ => exact nomatch h

/-! ## Documents -/

/-- A computation of two steps fails when one of them does. -/
theorem bind_eq_error_iff {ε α β : Type} {x : Except ε α} {f : α → Except ε β} {e : ε} :
    (x >>= f) = .error e ↔ x = .error e ∨ ∃ a, x = .ok a ∧ f a = .error e := by
  cases x with
  | error e' =>
    refine ⟨fun h => .inl (congrArg Except.error (Except.error.inj h)), ?_⟩
    rintro (h | ⟨_, h, -⟩)
    · exact congrArg Except.error (Except.error.inj h)
    · exact nomatch h
  | ok a =>
    refine ⟨fun h => .inr ⟨a, rfl, h⟩, ?_⟩
    rintro (h | ⟨_, h, hf⟩)
    · exact nomatch h
    · exact Except.ok.inj h ▸ hf

/-- A document is read part by part. -/
theorem ofJson_object (ms : List (String × Json)) : ofJson (.object ms) = (do
    let columns ← readColumns (some ((object ms).value "columns"))
    let data ← readData (some ((object ms).value "data"))
    let s := ofRows columns.toArray (data.map List.toArray).toArray
    let styles ← readStyles s (some ((object ms).value "styles"))
    return { s with styles }) := by
  simp only [value_object, readColumns_getD, readData_getD, readStyles_getD]
  rfl

/-- An error of a document is one of its shape. -/
theorem offends_of_ofJson (h : ofJson j = .error e) : j.Offends e := by
  cases j with
  | object ms =>
    rw [ofJson_object] at h
    rcases bind_eq_error_iff.mp h with h | ⟨columns, -, h⟩
    · exact offends_of_readColumns h
    rcases bind_eq_error_iff.mp h with h | ⟨data, -, h⟩
    · exact offends_of_readData h
    rcases bind_eq_error_iff.mp h with h | ⟨styles, -, h⟩
    · exact offends_of_readStyles h
    · exact nomatch h
  | _ =>
    cases h
    exact .notObject fun ⟨_, h⟩ => nomatch h

/-- The parts of a document that is loaded. -/
structure Parts (j : Json) (s : Sheet) (columns : List String) (data : List (List String)) :
    Prop where
  isObject : j.IsObject
  columns_shape : j.value "columns" = .null ∨ (j.value "columns").IsArray
  headers : List.Forall₂ (fun item t => item.IsScalar ∧ CellText item t) j.headers columns
  data_shape : j.value "data" = .null ∨ (j.value "data").IsArray
  rows : List.Forall₂ (fun row cells => row.IsArray ∧ List.Forall₂ CellText row.items cells)
    j.rows data
  styles_shape : j.value "styles" = .null ∨ (j.value "styles").IsObject
  columns_eq : s.columns = (ofRows columns.toArray (data.map List.toArray).toArray).columns
  data_eq : s.data = (ofRows columns.toArray (data.map List.toArray).toArray).data
  nodup : (s.styles.map Prod.fst).Nodup
  styles : ∀ cell style, (cell, style) ∈ s.styles ↔ s.contains cell.1 cell.2 = true ∧
    ∃ key, GivesStyle (j.value "styles") key cell style ∧
      ∀ key' style', GivesStyle (j.value "styles") key' cell style' → ¬bytes key < bytes key'

theorem exists_parts (h : ofJson j = .ok s) : ∃ columns data, Parts j s columns data := by
  cases j with
  | object ms =>
    rw [ofJson_object] at h
    obtain ⟨columns, hcolumns, h⟩ := bind_eq_ok_iff.mp h
    obtain ⟨data, hdata, h⟩ := bind_eq_ok_iff.mp h
    obtain ⟨styles, hstyles, h⟩ := bind_eq_ok_iff.mp h
    cases h
    obtain ⟨hcolumns, hheaders⟩ := of_readColumns hcolumns
    obtain ⟨hdata, hrows⟩ := of_readData hdata
    obtain ⟨hshape, hgives⟩ := of_readStyles_some hstyles
    exact ⟨columns, data, ⟨ms, rfl⟩, hcolumns, hheaders, hdata, hrows, hshape, rfl,
      rfl, (of_readStyles hstyles).1, hgives⟩
  | _ => exact nomatch h

namespace Parts

variable {columns : List String} {data : List (List String)}

theorem not_offends (h : Parts j s columns data) : ¬j.Offends e := by
  intro hoffends
  cases hoffends with
  | notObject hnot => exact hnot h.isObject
  | columnsNotList hgiven hnot => exact h.columns_shape.elim hgiven hnot
  | columnNotScalar hgiven hnot =>
    obtain ⟨_, -, hscalar, -⟩ := exists_of_forall₂ h.headers hgiven
    exact hnot hscalar
  | dataNotList hgiven hnot => exact h.data_shape.elim hgiven hnot
  | rowNotList hgiven hnot =>
    obtain ⟨_, -, harray, -⟩ := exists_of_forall₂ h.rows hgiven
    exact hnot harray
  | stylesNotObject hgiven hnot => exact h.styles_shape.elim hgiven hnot

theorem lengths (h : Parts j s columns data) : j.headers.length :: j.rows.map (·.items.length) =
    columns.toArray.size :: (data.map List.toArray).map Array.size := by
  have hrows : j.rows.map (·.items.length) = data.map List.length := by
    rw [← List.forall₂_eq_eq_eq, List.forall₂_map_left_iff, List.forall₂_map_right_iff]
    exact h.rows.imp fun _ _ hrow => hrow.2.length_eq
  rw [hrows, h.headers.length_eq, List.map_map]
  rfl

/-- The text that is read for a cell, if one is given. -/
theorem rel_cell? (h : Parts j s columns data) (row col : Nat) : Option.Rel CellText
    (j.cell? row col) ((data.map List.toArray).toArray[row]?.bind (·[col]?)) := by
  rw [List.getElem?_toArray, List.getElem?_map, cell?]
  have hrow := rel_getElem? h.rows row
  revert hrow
  generalize j.rows[row]? = item, data[row]? = cells
  rintro (⟨-, hcells⟩ | -)
  · simpa using rel_getElem? hcells col
  · exact .none

theorem rowCount_eq (h : Parts j s columns data) : s.rowCount = j.rows.length := by
  rw [h.rows.length_eq, rowCount, h.data_eq]
  simp [ofRows]

theorem colCount_eq (h : Parts j s columns data) :
    s.colCount = width columns.toArray (data.map List.toArray).toArray := by
  rw [colCount, h.columns_eq]
  exact colCount_ofRows

theorem isGreatest_colCount (h : Parts j s columns data) :
    IsGreatest {n | n ∈ j.headers.length :: j.rows.map (·.items.length)} s.colCount := by
  have hgreatest := isGreatest_width columns.toArray (data.map List.toArray).toArray
  rwa [List.toList_toArray, ← h.lengths, ← h.colCount_eq] at hgreatest

/-- What the document gives a text for is a cell. -/
theorem contains_of_cell? (h : Parts j s columns data) {row col : Nat} {item : Json}
    (hitem : j.cell? row col = some item) : s.contains row col = true := by
  obtain ⟨r, hr, hc⟩ := Option.bind_eq_some_iff.mp hitem
  have hlength : r.items.length ∈ j.headers.length :: j.rows.map (·.items.length) :=
    List.mem_cons_of_mem _ (List.mem_map_of_mem (List.mem_of_getElem? hr))
  have hrow : row < s.rowCount := h.rowCount_eq ▸ (List.getElem?_eq_some_iff.mp hr).1
  have hcol : col < s.colCount := (List.getElem?_eq_some_iff.mp hc).1.trans_le
    (h.isGreatest_colCount.2 hlength)
  exact contains_iff.mpr ⟨hrow, hcol⟩

theorem header_eq (h : Parts j s columns data) {col : Nat} (hcol : col < s.colCount) :
    s.columns[col]? = some (columns[col]?.getD (defaultHeader col)) := by
  rw [h.columns_eq, columns_ofRows (h.colCount_eq ▸ hcol), List.getElem?_toArray]

theorem text?_eq (h : Parts j s columns data) {row col : Nat} (hin : s.contains row col = true) :
    s.text? row col =
      some (((data.map List.toArray).toArray[row]?.bind (·[col]?)).getD "") := by
  rw [contains_iff, h.data_eq, h.columns_eq, ← contains_iff] at hin
  rw [text?, h.data_eq]
  exact text?_ofRows hin

theorem loadsAs (h : Parts j s columns data) : j.LoadsAs s where
  rowCount := h.rowCount_eq
  colCount := h.isGreatest_colCount
  rectangular := by
    rw [Rectangular, h.columns_eq, h.data_eq]
    exact rectangular_ofRows _ _
  header col item hitem := by
    obtain ⟨x, hx, -, htext⟩ := exists_of_forall₂ h.headers hitem
    have hcol : col < s.colCount := (List.getElem?_eq_some_iff.mp hitem).1.trans_le
      (h.isGreatest_colCount.2 List.mem_cons_self)
    exact ⟨x, by rw [h.header_eq hcol, hx, Option.getD_some], htext⟩
  lettered col hle hcol := by
    rw [h.headers.length_eq] at hle
    rw [h.header_eq hcol, List.getElem?_eq_none hle, Option.getD_none]
  cell row col item hitem := by
    have hrel := h.rel_cell? row col
    rw [hitem] at hrel
    obtain ⟨x, hx, htext⟩ := exists_of_rel_some hrel
    exact ⟨x, by rw [h.text?_eq (h.contains_of_cell? hitem), hx, Option.getD_some], htext⟩
  padding row col hin hnone := by
    have hrel := h.rel_cell? row col
    rw [hnone] at hrel
    rw [h.text?_eq hin, eq_none_of_rel_none hrel, Option.getD_none]
  nodup := h.nodup
  styles := h.styles

end Parts

/-- A document is an error just if something is wrong with its outer shape, and the error says what.
Otherwise its sheet has the headers, the texts and the styles that it gives. -/
theorem documents_are_validated (j : Json) :
    ((∃ e, ofJson j = .error e) ↔ ∃ e, j.Offends e) ∧
      match ofJson j with
      | .error e => j.Offends e
      | .ok s => j.LoadsAs s := by
  cases h : ofJson j with
  | error e => exact ⟨⟨fun _ => ⟨e, offends_of_ofJson h⟩, fun _ => ⟨e, rfl⟩⟩, offends_of_ofJson h⟩
  | ok s =>
    obtain ⟨columns, data, hparts⟩ := exists_parts h
    exact ⟨⟨nofun, fun ⟨e, he⟩ => absurd he hparts.not_offends⟩, hparts.loadsAs⟩

/-- A cell with two keys, the later of which has no blank in front. -/
example : (ofJson (.object [("data", .array [.array [.int 7, .array []]]),
    ("styles", .object [("0,0", .object [("bold", .bool true)]),
      (" 0,0", .object [("bold", .bool false)])])])).toOption.map
        (fun s => (s.text? 0 1, (s.style? 0 0).bind Style.bold)) =
    some (some "", some true) := by
  decide +kernel

end Sheet

end Spreadsheet
