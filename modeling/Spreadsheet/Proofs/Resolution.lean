import Spreadsheet.Proofs.Areas
import Spreadsheet.Proofs.Calls

/-!
# The values of a range

The cells of a range are read one after the other, in one session. What a cell is worth may depend
on the cells that were read before it, since these are remembered and count towards the limits, so
each value is what the cell is worth in the session behind the earlier ones. That this is the same
question as one from outside rests on the room on the way: a cell that is read goes on the way and
off it again, and the room behind it is what it was.

Whether a range is refused is decided by its size, a 64-bit word. One area has one cell more than
the greatest word and so is not told from an area of one cell less. With the greatest word as the
ceiling it is not refused, and no list is long enough for its values.

Results:
1. `Cell.value_depth`: reading a cell leaves the length of the way as it was, in any session;
2. `mapM_value`: reading cells in turn gives what each of them is worth there;
3. `full_area_is_not_refused`: an area that is too large and not refused;
4. `ranges_are_read_exactly`: a range gives the values of its cells by rows, or is refused unread.
-/

namespace Spreadsheet

variable {w : Setting}

/-! ## The room on the way -/

namespace Cell

theorem valueWith_depth {deeper : Option (Address → Eval Value)} (a : Address) (depth : Nat)
    (h : ∀ read, deeper = some read → ∀ c depth,
      Ensures (fun s => s.depth = depth) (read c) fun _ => True) :
    Ensures (fun s => s.depth = depth) (valueWith w deeper a) fun _ => True := by
  intro s hs
  refine ⟨?_, trivial⟩
  by_cases hform : w.IsFormula a
  · obtain ⟨source, hg⟩ := hform
    rw [valueWith_of_formula hg]
    rcases guarded_session w deeper a source (s.looked a) with hsame | ⟨read, hd, -, -, -, heq⟩
    · rw [hsame]
      exact hs
    · have hbody := Ensures.formulaValue_of_read (w := w) (fun c => h read hd c (depth + 1)) source
      have henter : ((s.looked a).enter a).depth = depth + 1 := congrArg (· + 1) hs
      have hdepth := (hbody _ henter).1
      rw [heq, compute_apply]
      show ((_ : Session).remember a _).depth = depth
      rw [Session.remember_depth, Session.leave_depth, hdepth]
      rfl
  · rw [valueWith_of_not_isFormula hform fun _ => .empty]
    exact hs

/-- Reading a cell leaves the length of the way as it was. -/
theorem value_depth (room : Nat) (a : Address) (depth : Nat) :
    Ensures (fun s => s.depth = depth) (Cell.value w room a) fun _ => True := by
  induction room generalizing a depth with
  | zero => exact valueWith_depth a depth nofun
  | succ room ih =>
    refine valueWith_depth a depth fun read hread => ?_
    cases hread
    exact ih

end Cell

theorem Session.room_cellValue (s : Session) (a : Address) :
    (cellValue w a s).2.room w = s.room w := by
  have hdepth : (cellValue w a s).2.depth = s.depth :=
    (Cell.value_depth (s.room w) a s.depth s rfl).1
  rw [room, room, hdepth]

/-! ## Cells in turn -/

/-- Cells that are read in turn are worth what each of them is worth behind the earlier ones. -/
theorem mapM_value {room : Nat} (cells : List Address) (s : Session) (hroom : s.room w = room) :
    ∃ vs, cells.mapM (Cell.value w room) s = (vs, Call.runAll w (cells.map .cell) s) ∧
      vs.length = cells.length ∧ ∀ k a, cells[k]? = some a →
        vs[k]? = some (Session.cellValue w a (Call.runAll w ((cells.take k).map .cell) s)).1 := by
  induction cells generalizing s with
  | nil => exact ⟨[], rfl, rfl, nofun⟩
  | cons c cells ih =>
    have hread : Cell.value w room c s = Session.cellValue w c s :=
      Session.value_eq_cellValue hroom c
    obtain ⟨vs, hvs, hlength, hvalues⟩ :=
      ih (Session.cellValue w c s).2 ((s.room_cellValue c).trans hroom)
    refine ⟨(Session.cellValue w c s).1 :: vs, ?_, congrArg (· + 1) hlength, fun k a ha => ?_⟩
    · rw [List.mapM_cons]
      show ((Cell.value w room c s).1 :: (cells.mapM (Cell.value w room)
        (Cell.value w room c s).2).1, (cells.mapM (Cell.value w room)
          (Cell.value w room c s).2).2) = _
      rw [hread, hvs]
      rfl
    · cases k with
      | zero =>
        cases ha
        rfl
      | succ k => exact hvalues k a ha

/-! ## Ranges -/

namespace Area

theorem take_cells (r : Area) (k : Nat) : r.cells.take k = r.firstCells k := by
  rw [cells, firstCells, ← List.map_take, List.take_range]

/-- The values are those of the cells by rows, each as it is read behind the cells before it. -/
structure ReadInTurn (w : Setting) (r : Area) (s : Session) (vs : List Value) : Prop where
  length : vs.length = r.rows * r.cols
  value : ∀ k < r.rows * r.cols, vs[k]? = some
    (Session.cellValue w (r.cell k) (Call.runAll w ((r.firstCells k).map .cell) s)).1

/-- The area reaches from the lesser to the greater row and column of two corners. -/
structure Spans (r : Area) (a b : Address) : Prop where
  top : r.first.row.toNat = min a.row.toNat b.row.toNat
  left : r.first.col.toNat = min a.col.toNat b.col.toNat
  rows : r.rows = max a.row.toNat b.row.toNat - min a.row.toNat b.row.toNat + 1
  cols : r.cols = max a.col.toNat b.col.toNat - min a.col.toNat b.col.toNat + 1

theorem ofCorners_spans (a b : Address) : (ofCorners a b).Spans a b where
  top := top_ofCorners a b
  left := left_ofCorners a b
  rows := by rw [Area.rows, top_ofCorners, bottom_ofCorners]
  cols := by rw [Area.cols, left_ofCorners, right_ofCorners]

end Area

namespace Session

variable (m : Nat) (a b : Reference) (s : Session)

/-- A range that is too large is refused, and nothing happens to the session. -/
theorem resolveRange_of_lt (h : m < (Area.ofCorners a.address b.address).size) :
    resolveRange w m a b s = (.error .ref, s) := by
  rw [resolveRange, resolve_eq, if_pos h]
  rfl

/-- Of any other range the cells are read in turn. -/
theorem resolveRange_of_le (h : (Area.ofCorners a.address b.address).size ≤ m) :
    ∃ vs, (Area.ofCorners a.address b.address).ReadInTurn w s vs ∧ resolveRange w m a b s =
      (.ok vs, Call.runAll w ((Area.ofCorners a.address b.address).cells.map .cell) s) := by
  generalize hr : Area.ofCorners a.address b.address = r at h
  obtain ⟨vs, hvs, hlength, hvalues⟩ := mapM_value (w := w) r.cells s rfl
  refine ⟨vs, ⟨hlength.trans r.length_cells, fun k hk => ?_⟩, ?_⟩
  · rw [hvalues k _ (r.getElem?_cells hk), r.take_cells]
  · rw [resolveRange, resolve_eq, hr, if_neg (Nat.not_lt_of_le h)]
    show (Except.ok (r.cells.mapM (Cell.value w (s.room w)) s).1,
      (r.cells.mapM (Cell.value w (s.room w)) s).2) = _
    rw [hvs]

end Session

/-- The area of all cells there are has more than the greatest word, but with this as the ceiling it
is not refused. The program stops at it, as no list can hold so many values. -/
theorem full_area_is_not_refused :
    (¬∀ (w : Setting) (a b : Reference) (m : Nat) (s : Session),
      m < (Area.ofCorners a.address b.address).rows * (Area.ofCorners a.address b.address).cols →
      Session.resolveRange w m a b s = (.error .ref, s)) ∧
    (Area.ofCorners ⟨0, 0⟩ ⟨4294967295, 4294967295⟩).overflows (2 ^ 64 - 1) = true := by
  refine ⟨fun h => ?_, by decide⟩
  obtain ⟨vs, -, hread⟩ := Session.resolveRange_of_le (w := ⟨.blank, .empty, {}⟩) (2 ^ 64 - 1)
    (.relative ⟨0, 0⟩) (.relative ⟨4294967295, 4294967295⟩) {} (Nat.min_le_right _ _)
  have hrefused := h ⟨.blank, .empty, {}⟩ (.relative ⟨0, 0⟩) (.relative ⟨4294967295, 4294967295⟩)
    (2 ^ 64 - 1) {} (by decide)
  exact nomatch congrArg Prod.fst (hrefused.symm.trans hread)

/-- Whatever the state of a session, a range of more cells than the ceiling is refused and the
session is as it was, no cell having been looked at; of a range of at most as many the cells are
read by rows, and the values are what each cell is worth behind the cells before it. The number that
is held against the ceiling is the size, which is the number of cells up to the largest word. The
area of all cells there are has one cell more than that, so with the largest word as the ceiling
nothing is said of this one area but that its values are too many for a list.

The area does not depend on the order of the corners. A cursor goes through it without leaving the
words, stops, and gives each cell that the area contains once, by rows and in a row by columns. -/
theorem ranges_are_read_exactly (w : Setting) :
    (∀ (a b : Reference) (m : Nat) (s : Session),
      let r := Area.ofCorners a.address b.address
      (m < r.rows * r.cols → ¬(r.rows * r.cols = 2 ^ 64 ∧ m = 2 ^ 64 - 1) →
        Session.resolveRange w m a b s = (.error .ref, s)) ∧
      (r.rows * r.cols ≤ m → ∃ vs, r.ReadInTurn w s vs ∧
        Session.resolveRange w m a b s = (.ok vs, Call.runAll w (r.cells.map .cell) s)) ∧
      (r.rows * r.cols = 2 ^ 64 ∧ m = 2 ^ 64 - 1 → r.overflows m = true)) ∧
    (∀ r : Area, r.size = min (r.rows * r.cols) (2 ^ 64 - 1)) ∧
    (∀ a b : Reference, (RangeRef.ofCorners a b).area = Area.ofCorners a.address b.address) ∧
    (∀ a b : Address, Area.ofCorners a b = Area.ofCorners b a ∧ (Area.ofCorners a b).Spans a b) ∧
    (∀ (r : Area) (k : Nat), k < r.rows * r.cols →
      (r.cell k).row.toNat = r.first.row.toNat + k / r.cols ∧
      (r.cell k).col.toNat = r.first.col.toNat + k % r.cols) ∧
    ∀ r : Area, Area.Cursor.Drains r (.start r) r.cells ∧
      r.cells.Pairwise Address.Precedes ∧
      ∀ a, r.cells.count a = if r.contains a then 1 else 0 := by
  refine ⟨fun a b m s => ⟨fun hlt hword => ?_, fun hle => ?_, fun ⟨hcells, hm⟩ => ?_⟩,
    fun _ => rfl, Area.area_ofCorners,
    fun a b => ⟨Area.ofCorners_comm a b, Area.ofCorners_spans a b⟩,
    fun r k hk => ⟨r.row_cell hk, r.col_cell k⟩,
    fun r => ⟨Area.Cursor.start_drains r, r.cells_pairwise, r.count_cells⟩⟩
  · exact Session.resolveRange_of_lt m a b s ((Area.lt_size_iff _).mpr ⟨hlt, hword⟩)
  · refine Session.resolveRange_of_le m a b s (Nat.le_of_not_lt fun hlt => ?_)
    exact Nat.not_le_of_lt ((Area.lt_size_iff _).mp hlt).1 hle
  · have hsize : (Area.ofCorners a.address b.address).size = 2 ^ 64 - 1 := by
      rw [Area.size, hcells]
      rfl
    rw [Area.overflows, hsize, hm]
    rfl

/-- A square between its other two corners, and a row that ends at the last cell there is. -/
theorem ranges_are_read_exactly_square :
    Session.resolveRange ⟨.blank, .empty, {}⟩ 3 (.relative ⟨1, 0⟩) (.relative ⟨0, 1⟩) {}
      = (.error .ref, {}) ∧
    (∃ vs, vs.length = 4 ∧
      (Session.resolveRange ⟨.blank, .empty, {}⟩ 4 (.relative ⟨1, 0⟩) (.relative ⟨0, 1⟩) {}).1
        = .ok vs) ∧
    ((Area.ofCorners ⟨1, 0⟩ ⟨0, 1⟩).cell 2).row.toNat = 1 ∧
    Area.Cursor.Drains (.ofCorners ⟨4294967295, 4294967295⟩ ⟨4294967295, 4294967294⟩)
      (.start (.ofCorners ⟨4294967295, 4294967295⟩ ⟨4294967295, 4294967294⟩))
      [⟨4294967295, 4294967294⟩, ⟨4294967295, 4294967295⟩] := by
  obtain ⟨hresolve, -, -, -, hcell, hcursor⟩ := ranges_are_read_exactly ⟨.blank, .empty, {}⟩
  obtain ⟨hrefused, -⟩ := hresolve (.relative ⟨1, 0⟩) (.relative ⟨0, 1⟩) 3 {}
  obtain ⟨-, hread, -⟩ := hresolve (.relative ⟨1, 0⟩) (.relative ⟨0, 1⟩) 4 {}
  obtain ⟨vs, hvs, heq⟩ := hread (by decide)
  exact ⟨hrefused (by decide) (by decide), ⟨vs, hvs.length, congrArg Prod.fst heq⟩,
    (hcell _ 2 (by decide)).1, (hcursor _).1⟩

end Spreadsheet
