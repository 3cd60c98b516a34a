import Spreadsheet.Proofs.Editing

/-!
# Sheets as documents

A sheet that is saved and loaded again is the same sheet: its headers, its texts and, cell by cell,
its styles. Three things have to fit for that. The rows must not be filled up on loading, which is
so for a rectangle. The key of a style must be read back as the cell it was written for. And the
members of a style must be told apart again, the known attributes from the others.

The styles themselves come back in another order, sorted by their keys.

Results:
1. `Style.ofJson?_toJson`: a style is read back from its attributes;
2. `ofRows_of_rectangular`: headers and rows of a rectangle are taken as they are;
3. `Built.storable`: the styles of a sheet that is made can be stored;
4. `documents_restore_sheets`: saving and loading gives the sheet back.
-/

namespace Spreadsheet

open Text Number

/-! ## Attributes -/

namespace Style

/-- The other attributes of a style can be told apart from the known ones, and are sorted. -/
def Storable (s : Style) : Prop :=
  (∀ p ∈ s.extra, p.1 ∉ attributeNames) ∧ (Json.object s.extra).IsSorted

/-- The known attributes that are set. -/
def known (s : Style) : List (String × Json) :=
  member "bold" .bool s.bold ++ member "italic" .bool s.italic
    ++ member "underline" .bool s.underline ++ member "foreground" .text s.foreground
    ++ member "background" .text s.background ++ member "align" .text s.align
    ++ member "decimals" (fun n => .int n.toNat) s.decimals

theorem toJson_eq (s : Style) : s.toJson = .object (s.known ++ s.extra) := rfl

theorem lookup_member {α : Type} {name other : String} {write : α → Json} {value : Option α} :
    (member name write value).lookup other =
      if other == name then value.map write else none := by
  cases value with
  | none => simp [member]
  | some x =>
    rw [member, List.lookup_cons]
    cases other == name <;> rfl

theorem keys_member {α : Type} (name : String) (write : α → Json) (value : Option α) :
    ((member name write value).map Prod.fst).Sublist [name] := by
  cases value with
  | none => exact List.nil_sublist _
  | some x => exact .refl _

theorem keys_known (s : Style) : (s.known.map Prod.fst).Sublist attributeNames := by
  simp only [known, List.map_append]
  exact ((((((keys_member _ _ _).append (keys_member _ _ _)).append (keys_member _ _ _)).append
    (keys_member _ _ _)).append (keys_member _ _ _)).append (keys_member _ _ _)).append
      (keys_member _ _ _)

theorem isSorted_of_mem_known {s : Style} {m : String × Json} (h : m ∈ s.known) :
    m.2.IsSorted := by
  have hscalar {α : Type} {name : String} {write : α → Json} {value : Option α}
      (hwrite : ∀ x, (write x).IsSorted) (hm : m ∈ member name write value) : m.2.IsSorted := by
    cases value with
    | none => exact absurd hm List.not_mem_nil
    | some x => exact List.mem_singleton.mp hm ▸ hwrite x
  simp only [known, List.mem_append] at h
  rcases h with (((((h | h) | h) | h) | h) | h) | h <;> exact hscalar (by exact fun _ => rfl) h

namespace Storable

variable {s : Style}

theorem nodup (h : s.Storable) : ((s.known ++ s.extra).map Prod.fst).Nodup := by
  rw [List.map_append, List.nodup_append]
  refine ⟨(keys_known s).nodup (by decide), (Json.isSorted_object_iff.mp h.2).1.nodup, ?_⟩
  intro name hknown other hextra heq
  obtain ⟨m, hm, rfl⟩ := List.mem_map.mp hextra
  exact h.1 m hm (heq ▸ (keys_known s).subset hknown)

theorem sorted_toJson (h : s.Storable) :
    s.toJson.sorted = .object (Json.sortMembers (s.known ++ s.extra)) := by
  rw [toJson_eq, Json.sorted_object, Json.object.injEq, map_eq_self_iff]
  intro m hm
  rcases List.mem_append.mp (Json.mem_sortMembers hm) with hm | hm
  · exact congrArg (Prod.mk m.1) (isSorted_of_mem_known hm)
  · exact congrArg (Prod.mk m.1) ((Json.isSorted_object_iff.mp h.2).2 m hm)

/-- The known attributes are found among the members. -/
theorem lookup (h : s.Storable) {name : String} (hname : name ∈ attributeNames) :
    (Json.sortMembers (s.known ++ s.extra)).lookup name = s.known.lookup name := by
  have hextra : s.extra.lookup name = none :=
    List.lookup_eq_none_iff.mpr fun p hp => by
      rw [bne_iff_ne]
      rintro rfl
      exact h.1 p hp hname
  rw [Json.lookup_sortMembers h.nodup, List.lookup_append, hextra, Option.or_none]

/-- And the others are what is left. -/
theorem filter (h : s.Storable) :
    (Json.sortMembers (s.known ++ s.extra)).filter
      (fun (name, _) => !attributeNames.contains name) = s.extra := by
  have hknown : s.known.filter (fun (name, _) => !attributeNames.contains name) = [] := by
    refine List.filter_eq_nil_iff.mpr fun m hm => ?_
    have hmem := (keys_known s).subset (List.mem_map_of_mem hm)
    simpa using hmem
  have hextra : s.extra.filter (fun (name, _) => !attributeNames.contains name) = s.extra :=
    List.filter_eq_self.mpr fun m hm => by simpa using h.1 m hm
  -- both are ascending, so they are the same as soon as they have the same members
  refine Json.Ascending.eq_of_perm ((Json.ascending_sortMembers _).filter _)
    (Json.isSorted_object_iff.mp h.2).1 ?_
  have hperm := (Json.sortMembers_perm h.nodup).filter
    fun (name, _) => !attributeNames.contains name
  rwa [List.filter_append, hknown, hextra, List.nil_append] at hperm

end Storable

theorem flag?_map (b : Option Bool) : flag? (b.map .bool) = some b := by
  cases b <;> rfl

theorem text?_map (t : Option String) : text? (t.map .text) = some t := by
  cases t <;> rfl

theorem count?_map (n : Option UInt8) : count? (n.map fun n => .int n.toNat) = some n := by
  cases n with
  | none => rfl
  | some n =>
    have hlt := n.toNat_lt
    simp only [Option.map_some, count?]
    rw [if_pos ⟨Int.natCast_nonneg _, by omega⟩]
    simp

/-- A style is read back from its attributes. -/
theorem ofJson?_toJson {s : Style} (h : s.Storable) : ofJson? s.toJson.sorted = some s := by
  have hlookup : ∀ name ∈ attributeNames,
      (Json.sortMembers (s.known ++ s.extra)).lookup name = s.known.lookup name :=
    fun _ hname => h.lookup hname
  simp only [attributeNames, List.forall_mem_cons] at hlookup
  obtain ⟨hbold, hitalic, hunderline, hforeground, hbackground, halign, hdecimals, -⟩ := hlookup
  rw [h.sorted_toJson]
  simp only [ofJson?, h.filter, hbold, hitalic, hunderline, hforeground, hbackground, halign,
    hdecimals]
  simp [known, List.lookup_append, lookup_member, flag?_map, text?_map, count?_map]

/-- A style that was loaded can be stored. -/
theorem Storable.of_ofJson? {j : Json} {s : Style} (hj : j.IsSorted) (h : ofJson? j = some s) :
    s.Storable := by
  cases j with
  | object ms =>
    obtain ⟨hms, hvalues⟩ := Json.isSorted_object_iff.mp hj
    simp only [ofJson?, Option.bind_eq_bind, Option.bind_eq_some_iff] at h
    obtain ⟨_, -, _, -, _, -, _, -, _, -, _, -, _, -, h⟩ := h
    cases h
    refine ⟨fun m hm => by simpa using (List.mem_filter.mp hm).2, ?_⟩
    exact Json.isSorted_object_iff.mpr
      ⟨hms.filter _, fun m hm => hvalues m (List.mem_filter.mp hm).1⟩
  | _ => exact nomatch h

end Style

namespace Sheet

variable {s : Sheet}

/-! ## Texts -/

/-- A list is read item by item. -/
theorem mapM_zipIdx_map {ε α β : Type} {write : α → β} {read : β × Nat → Except ε α}
    (h : ∀ x i, read (write x, i) = .ok x) (xs : List α) (start : Nat) :
    ((xs.map write).zipIdx start).mapM read = .ok xs := by
  induction xs generalizing start with
  | nil => rfl
  | cons x xs ih =>
    rw [List.map_cons, List.zipIdx_cons, List.mapM_cons, h, ih]
    rfl

theorem readColumns_texts (columns : List String) :
    readColumns (some (.array (columns.map .text))) = .ok columns :=
  mapM_zipIdx_map (fun _ _ => rfl) columns 0

theorem readData_texts (rows : List (List String)) :
    readData (some (.array (rows.map fun row => .array (row.map .text)))) = .ok rows := by
  refine mapM_zipIdx_map (fun row i => ?_) rows 0
  have hcells : (row.map Json.text).map (fun cell => (scalarText? cell).getD "") = row := by
    rw [List.map_map]
    exact List.map_id row
  exact congrArg Except.ok hcells

theorem foldl_max_size_eq {rows : List (Array String)} {n : Nat}
    (h : ∀ cells ∈ rows, cells.size = n) :
    rows.foldl (fun w cells => max w cells.size) n = n := by
  induction rows with
  | nil => rfl
  | cons cells rows ih =>
    obtain ⟨hcells, hrows⟩ := List.forall_mem_cons.mp h
    rw [List.foldl_cons, hcells, Nat.max_self, ih hrows]

/-- Headers and rows of a rectangle are taken as they are. -/
theorem ofRows_of_rectangular (hs : s.Rectangular) :
    ofRows s.columns s.data = { columns := s.columns, data := s.data } := by
  have hwidth : width s.columns s.data = s.columns.size := by
    rw [width, ← Array.foldl_toList]
    exact foldl_max_size_eq fun cells hcells => hs cells (Array.mem_toList_iff.mp hcells)
  have hdata : s.data.map (pad s.columns.size) = s.data := by
    conv_rhs => rw [← Array.map_id s.data]
    refine Array.map_congr_left fun cells hcells => ?_
    simp [pad, hs cells hcells]
  simp [ofRows, hwidth, hdata]

/-! ## Styles -/

/-- The members that styles are stored as. -/
def styleMembers (s : Sheet) : List (String × Json) :=
  s.styles.map fun ((row, col), style) => (Style.key row col, style.toJson)

/-- No two cells have one key. -/
theorem nodup_styleMembers (hs : s.WellStyled) : (s.styleMembers.map Prod.fst).Nodup := by
  have hkeys : s.styleMembers.map Prod.fst =
      (s.styles.map Prod.fst).map fun cell => Style.key cell.1 cell.2 := by
    rw [styleMembers, List.map_map, List.map_map]
    rfl
  rw [hkeys]
  refine List.Nodup.map_on (fun cell hcell cell' hcell' heq => ?_) hs.nodup
  obtain ⟨p, hp, rfl⟩ := List.mem_map.mp hcell
  obtain ⟨p', hp', rfl⟩ := List.mem_map.mp hcell'
  -- a key is read back as its cell, so it cannot be that of another
  have hparse := Style.parseKey?_key (hs.words p hp).1 (hs.words p hp).2
  rw [heq, Style.parseKey?_key (hs.words p' hp').1 (hs.words p' hp').2] at hparse
  exact (Option.some.inj hparse).symm

theorem insertStyle_of_not_mem {cell : Nat × Nat} {style : Style}
    {styles : List ((Nat × Nat) × Style)} (h : cell ∉ styles.map Prod.fst) :
    insertStyle cell style styles = styles ++ [(cell, style)] := by
  induction styles with
  | nil => rfl
  | cons p styles ih =>
    rw [List.map_cons, List.mem_cons, not_or] at h
    rw [insertStyle, if_neg (Ne.symm h.1), ih h.2, List.cons_append]

/-- Styles of different cells are entered one behind the other. -/
theorem foldl_insertStyle_eq {read styles : List ((Nat × Nat) × Style)}
    (h : ((styles ++ read).map Prod.fst).Nodup) :
    read.foldl (fun styles (cell, style) => insertStyle cell style styles) styles =
      styles ++ read := by
  induction read generalizing styles with
  | nil => rw [List.foldl_nil, List.append_nil]
  | cons p read ih =>
    have hp : p.1 ∉ styles.map Prod.fst := by
      rw [List.map_append, List.nodup_append] at h
      exact fun hmem => h.2.2 p.1 hmem p.1 (by simp) rfl
    rw [List.append_cons] at h ⊢
    rw [← ih h, ← insertStyle_of_not_mem hp]
    rfl

/-- The styles come back, sorted by their keys. -/
theorem readStyles_styleMembers {t : Sheet} (hs : s.WellStyled)
    (hstyles : ∀ p ∈ s.styles, p.2.Storable)
    (ht : ∀ row col, t.contains row col = s.contains row col) :
    ∃ styles, readStyles t (some (Json.object s.styleMembers).sorted) = .ok styles ∧
      styles.Perm s.styles := by
  have hread : ∀ p ∈ s.styles,
      readStyle? t (Style.key p.1.1 p.1.2) p.2.toJson.sorted = some p := by
    intro p hp
    simp only [readStyle?, Style.parseKey?_key (hs.words p hp).1 (hs.words p hp).2, ht,
      Style.ofJson?_toJson (hstyles p hp)]
    simp [hs.contains p hp]
  let members := (Json.sortMembers s.styleMembers).map (Prod.map id Json.sorted)
  -- the reader sorts once more, which changes nothing
  have hsorted : Json.sortMembers members = members :=
    (Json.ascending_map_iff.mpr (Json.ascending_sortMembers _)).sortMembers_eq
  have hperm : (members.filterMap fun (key, j) => readStyle? t key j).Perm s.styles := by
    have hmembers := (Json.sortMembers_perm (nodup_styleMembers hs)).map (Prod.map id Json.sorted)
    have hall : (s.styleMembers.map (Prod.map id Json.sorted)).filterMap
        (fun (key, j) => readStyle? t key j) = s.styles := by
      rw [styleMembers, List.map_map, List.filterMap_map]
      exact (List.filterMap_congr hread).trans List.filterMap_some
    exact hall ▸ hmembers.filterMap _
  have hnodup := (hperm.map Prod.fst).nodup_iff.mpr hs.nodup
  refine ⟨_, ?_, hperm⟩
  rw [Json.sorted_object, readStyles, hsorted]
  exact congrArg Except.ok (foldl_insertStyle_eq hnodup)

/-- The styles of a sheet that is made can be stored, if those can be that are set. -/
theorem Built.storable (hs : s.Built Style.Storable) : ∀ p ∈ s.styles, p.2.Storable := by
  induction hs with
  | empty => exact fun _ hp => absurd hp List.not_mem_nil
  | ofSize rows cols => exact fun _ hp => absurd hp List.not_mem_nil
  | ofRows columns data => exact fun _ hp => absurd hp List.not_mem_nil
  | ofJson hj h =>
    obtain ⟨ms, _, _, _, rfl, rfl, hstyles⟩ := exists_of_ofJson h
    intro p hp
    obtain ⟨ms', hlookup, m, hm, hread⟩ := (of_readStyles hstyles).2 p hp
    -- the document is sorted at every level, down to the attributes of the style
    have hmem := Json.mem_sortMembers
      ((lookup_eq_some_iff_mem (Json.ascending_sortMembers ms).nodup).mp hlookup)
    have hms' := (Json.isSorted_object_iff.mp hj).2 _ hmem
    have hm' := (Json.isSorted_object_iff.mp hms').2 m (Json.mem_sortMembers hm)
    exact .of_ofJson? hm' (of_readStyle? hread).2.2
  | withEngine _ _ ih => exact ih
  | setCell _ h ih =>
    obtain ⟨-, rfl⟩ := setCell_eq_ok_iff.mp h
    exact ih
  | setA1 _ h ih =>
    obtain ⟨_, -, h⟩ := setA1_eq_ok_iff.mp h
    obtain ⟨-, rfl⟩ := setCell_eq_ok_iff.mp h
    exact ih
  | setStyle _ _ _ hstyle h ih =>
    obtain ⟨-, rfl⟩ := setStyle_eq_ok_iff.mp h
    intro p hp
    rcases mem_insertStyle hp with rfl | hp
    · exact hstyle
    · exact ih p hp
  | clearStyle _ _ _ ih => exact fun p hp => ih p (List.mem_filter.mp hp).1

/-! ## Documents -/

theorem sorted_texts (texts : List String) :
    (Json.array (texts.map .text)).IsSorted := by
  refine Json.isSorted_array_iff.mpr fun j hj => ?_
  obtain ⟨_, -, rfl⟩ := List.mem_map.mp hj
  rfl

/-- The members of a document are written in the order of their names. -/
theorem ascending_document (columns data styles : Json) :
    Json.Ascending [("columns", columns), ("data", data), ("styles", styles)] :=
  List.pairwise_map.mp (by decide : ["columns", "data", "styles"].Pairwise (· < ·))

/-- Of a document only the styles are left to sort. -/
theorem sorted_toJson (s : Sheet) : s.toJson.sorted = .object [
    ("columns", .array (s.columns.toList.map .text)),
    ("data", .array (s.data.toList.map fun row => .array (row.toList.map .text))),
    ("styles", (Json.object s.styleMembers).sorted)] := by
  have hdata : (Json.array (s.data.toList.map fun row =>
      .array (row.toList.map .text))).IsSorted := by
    refine Json.isSorted_array_iff.mpr fun j hj => ?_
    obtain ⟨_, -, rfl⟩ := List.mem_map.mp hj
    exact sorted_texts _
  have hcolumns := sorted_texts s.columns.toList
  rw [Json.IsSorted] at hcolumns hdata
  rw [toJson, Json.sorted_object, (ascending_document _ _ _).sortMembers_eq]
  simp only [List.map_cons, List.map_nil, Prod.map_apply, id_eq, hcolumns, hdata]
  rfl

/-- A document is read member by member. -/
theorem ofJson_document {columns : List String} {rows : List (List String)} {j : Json}
    {styles : List ((Nat × Nat) × Style)}
    (h : readStyles (ofRows columns.toArray (rows.map List.toArray).toArray) (some j) =
      .ok styles) :
    ofJson (.object [("columns", .array (columns.map .text)),
        ("data", .array (rows.map fun row => .array (row.map .text))), ("styles", j)]) =
      .ok { ofRows columns.toArray (rows.map List.toArray).toArray with styles } := by
  rw [ofJson, (ascending_document _ _ _).sortMembers_eq]
  refine bind_eq_ok_iff.mpr ⟨columns, readColumns_texts columns, ?_⟩
  refine bind_eq_ok_iff.mpr ⟨rows, readData_texts rows, ?_⟩
  exact bind_eq_ok_iff.mpr ⟨styles, h, rfl⟩

/-- A sheet that is saved and loaded again has the headers, the texts and the styles it had. What is
loaded is the document as a reader leaves it, with all members sorted. -/
theorem documents_restore_sheets {s : Sheet} (hs : s.Built Style.Storable) :
    ∃ s', ofJson s.toJson.sorted = .ok s' ∧ s'.columns = s.columns ∧ s'.data = s.data ∧
      ∀ row col, s'.style? row col = s.style? row col := by
  let t : Sheet := { columns := s.columns, data := s.data }
  obtain ⟨styles, hread, hperm⟩ :=
    readStyles_styleMembers (t := t) hs.wellStyled hs.storable fun _ _ => rfl
  refine ⟨{ t with styles }, ?_, rfl, rfl, fun row col => ?_⟩
  · have hrows : ofRows s.columns.toList.toArray
        ((s.data.toList.map Array.toList).map List.toArray).toArray = t := by
      have hdata : (s.data.toList.map Array.toList).map List.toArray = s.data.toList := by
        rw [List.map_map]
        exact List.map_id _
      rw [hdata]
      exact ofRows_of_rectangular hs.rectangular
    rw [← hrows] at hread
    have hread' := ofJson_document hread
    rw [hrows, List.map_map] at hread'
    rwa [sorted_toJson]
  · exact lookup_perm hs.wellStyled.nodup hperm.symm

/-! ## A cell with a border -/

namespace Bordered

/-- A bold cell with an attribute that is not known. -/
def style : Style :=
  { bold := some true, extra := [("border", .text "thin")] }

/-- One row of two cells, the second of which has the style. -/
def sheet : Sheet :=
  (ofRows #["A"] #[#["1", "=A1"]]).withStyle 0 1 style

theorem storable : style.Storable := by
  refine ⟨fun p hp => ?_, rfl⟩
  obtain rfl := List.mem_singleton.mp hp
  decide

theorem built : sheet.Built Style.Storable := by
  have hset : (ofRows #["A"] #[#["1", "=A1"]]).setStyle 0 1 style = .ok sheet :=
    setStyle_eq_ok_iff.mpr ⟨by decide +kernel, rfl⟩
  exact .setStyle (.ofRows _ _) (by decide) (by decide) storable hset

end Bordered

open Bordered in
theorem documents_restore_sheets_bordered :
    sheet.Built Style.Storable ∧
      ∃ s', ofJson sheet.toJson.sorted = .ok s' ∧ s'.columns = sheet.columns ∧
        s'.data = sheet.data ∧ ∀ row col, s'.style? row col = sheet.style? row col :=
  ⟨built, documents_restore_sheets built⟩

end Sheet

end Spreadsheet
