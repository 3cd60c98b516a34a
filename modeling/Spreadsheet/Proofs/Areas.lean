import Mathlib
import Spreadsheet.Area

/-!
# The cells of an area

The cells of an area are numbered row by row: the cell `k` is `k / cols` rows below the top and
`k % cols` columns right of the left edge. Both stay within the corners, so neither the row nor the
column is ever too large for a word, not even where a corner is the last row or column there is.

Another way to go through the cells is a cursor, which stands on one cell and steps to the next:
to the right, or from the right edge to the start of the row below. It has to stop on the last cell
without a step, since behind this cell there may be no word left to step to. `Cursor.next?` has no
answer where a step would leave the words, and `Drains` asks for an answer at every step and for an
end that stays one.

Results:
1. `ofCorners_comm`, `lt_size_iff`: corners in any order, and when a size exceeds a ceiling;
2. `count_cells`, `cells_pairwise`: the cells are those that the area contains, once and in order;
3. `Cursor.start_drains`, `Cursor.Drains.unique`: a cursor goes through just these cells.
-/

namespace Spreadsheet

open Number

/-- The order in which cells are read: by rows, and in a row by columns. -/
def Address.Precedes (a b : Address) : Prop :=
  a.row.toNat < b.row.toNat ∨ a.row.toNat = b.row.toNat ∧ a.col.toNat < b.col.toNat

theorem Address.Precedes.ne {a b : Address} (h : a.Precedes b) : a ≠ b := by
  rintro rfl
  unfold Precedes at h
  omega

theorem Address.eq_of_toNat {a b : Address} (hrow : a.row.toNat = b.row.toNat)
    (hcol : a.col.toNat = b.col.toNat) : a = b := by
  cases a
  cases b
  rw [Address.mk.injEq]
  exact ⟨UInt32.toNat_inj.mp hrow, UInt32.toNat_inj.mp hcol⟩

namespace Area

/-! ## Corners and sizes -/

theorem eq_of_corners {r q : Area} (hfirst : r.first = q.first) (hlast : r.last = q.last) :
    r = q := by
  cases r
  cases q
  cases hfirst
  cases hlast
  rfl

theorem toNat_lesser (m n : UInt32) : (if m ≤ n then m else n).toNat = min m.toNat n.toNat := by
  by_cases h : m ≤ n
  · rw [if_pos h]
    exact (Nat.min_eq_left h).symm
  · rw [if_neg h]
    exact (Nat.min_eq_right ((UInt32.le_total m n).resolve_left h)).symm

theorem toNat_greater (m n : UInt32) : (if m ≤ n then n else m).toNat = max m.toNat n.toNat := by
  by_cases h : m ≤ n
  · rw [if_pos h]
    exact (Nat.max_eq_right h).symm
  · rw [if_neg h]
    exact (Nat.max_eq_left ((UInt32.le_total m n).resolve_left h)).symm

section

variable (a b : Address)

theorem top_ofCorners : (ofCorners a b).first.row.toNat = min a.row.toNat b.row.toNat :=
  toNat_lesser _ _

theorem left_ofCorners : (ofCorners a b).first.col.toNat = min a.col.toNat b.col.toNat :=
  toNat_lesser _ _

theorem bottom_ofCorners : (ofCorners a b).last.row.toNat = max a.row.toNat b.row.toNat :=
  toNat_greater _ _

theorem right_ofCorners : (ofCorners a b).last.col.toNat = max a.col.toNat b.col.toNat :=
  toNat_greater _ _

/-- The corners may be given in any order. -/
theorem ofCorners_comm : ofCorners a b = ofCorners b a := by
  apply eq_of_corners <;> apply Address.eq_of_toNat
  · rw [top_ofCorners, top_ofCorners, Nat.min_comm]
  · rw [left_ofCorners, left_ofCorners, Nat.min_comm]
  · rw [bottom_ofCorners, bottom_ofCorners, Nat.max_comm]
  · rw [right_ofCorners, right_ofCorners, Nat.max_comm]

end

variable (r : Area)

theorem first_row_le : r.first.row.toNat ≤ r.last.row.toNat :=
  UInt32.le_iff_toNat_le.mp r.row_le

theorem first_col_le : r.first.col.toNat ≤ r.last.col.toNat :=
  UInt32.le_iff_toNat_le.mp r.col_le

theorem rows_le : r.rows ≤ 2 ^ 32 := by
  have := r.last.row.toNat_lt
  unfold rows
  omega

theorem cols_le : r.cols ≤ 2 ^ 32 := by
  have := r.last.col.toNat_lt
  unfold cols
  omega

theorem cols_pos : 0 < r.cols :=
  Nat.succ_pos _

theorem rows_mul_cols_pos : 0 < r.rows * r.cols :=
  Nat.mul_pos (Nat.succ_pos _) (Nat.succ_pos _)

theorem rows_mul_cols_le : r.rows * r.cols ≤ wordSize := calc
  r.rows * r.cols ≤ 2 ^ 32 * 2 ^ 32 := Nat.mul_le_mul r.rows_le r.cols_le
  _ = wordSize := rfl

theorem ofCorners_first_last : ofCorners r.first r.last = r := by
  apply eq_of_corners <;> simp only [ofCorners, if_pos r.row_le, if_pos r.col_le]

/-- A range covers the area between the corners that it was made of. -/
theorem area_ofCorners (a b : Reference) :
    (RangeRef.ofCorners a b).area = ofCorners a.address b.address := by
  have hfirst : (RangeRef.ofCorners a b).first.address = (ofCorners a.address b.address).first := by
    dsimp only [RangeRef.ofCorners, ofCorners]
    split <;> split <;> rfl
  have hlast : (RangeRef.ofCorners a b).last.address = (ofCorners a.address b.address).last := by
    dsimp only [RangeRef.ofCorners, ofCorners]
    split <;> split <;> rfl
  rw [RangeRef.area, hfirst, hlast, ofCorners_first_last]

/-- A ceiling is exceeded by the size if it is by the number of cells, but for the area of all cells
and the largest word. -/
theorem lt_size_iff {m : Nat} : m < r.size ↔
    m < r.rows * r.cols ∧ ¬(r.rows * r.cols = wordSize ∧ m = wordSize - 1) := by
  have := r.rows_mul_cols_le
  unfold size
  omega

/-! ## Cells -/

section

variable {k : Nat}

theorem div_cols_lt (h : k < r.rows * r.cols) : k / r.cols < r.rows :=
  Nat.div_lt_of_lt_mul (by rwa [Nat.mul_comm])

/-- The row of a cell stays within the corners. -/
theorem row_cell (h : k < r.rows * r.cols) :
    (r.cell k).row.toNat = r.first.row.toNat + k / r.cols := by
  have hdiv := r.div_cols_lt h
  have hlast := r.last.row.toNat_lt
  have hle := r.first_row_le
  unfold rows at hdiv
  exact UInt32.toNat_ofNat_of_lt' (show _ < 2 ^ 32 by omega)

/-- The column of a cell stays within the corners. -/
theorem col_cell (k : Nat) : (r.cell k).col.toNat = r.first.col.toNat + k % r.cols := by
  have hmod : k % r.cols < r.cols := Nat.mod_lt k r.cols_pos
  have hlast := r.last.col.toNat_lt
  have hle := r.first_col_le
  have hcols : r.cols = r.last.col.toNat - r.first.col.toNat + 1 := rfl
  exact UInt32.toNat_ofNat_of_lt' (show _ < 2 ^ 32 by omega)

end

theorem contains_iff {a : Address} : r.contains a = true ↔
    (r.first.row.toNat ≤ a.row.toNat ∧ a.row.toNat ≤ r.last.row.toNat) ∧
    (r.first.col.toNat ≤ a.col.toNat ∧ a.col.toNat ≤ r.last.col.toNat) := by
  simp only [contains, Bool.and_eq_true, decide_eq_true_eq, UInt32.le_iff_toNat_le]
  tauto

theorem contains_cell {k : Nat} (h : k < r.rows * r.cols) : r.contains (r.cell k) = true := by
  have hdiv := r.div_cols_lt h
  have hmod : k % r.cols < r.cols := Nat.mod_lt k r.cols_pos
  have hrow := r.first_row_le
  have hcol := r.first_col_le
  have hrows : r.rows = r.last.row.toNat - r.first.row.toNat + 1 := rfl
  have hcols : r.cols = r.last.col.toNat - r.first.col.toNat + 1 := rfl
  rw [contains_iff, r.row_cell h, r.col_cell]
  generalize k / r.cols = q at hdiv ⊢
  generalize k % r.cols = t at hmod ⊢
  omega

/-- The number of a cell. -/
def number (a : Address) : Nat :=
  (a.row.toNat - r.first.row.toNat) * r.cols + (a.col.toNat - r.first.col.toNat)

theorem number_lt {a : Address} (h : r.contains a = true) : r.number a < r.rows * r.cols := by
  obtain ⟨⟨hlow, hhigh⟩, hleft, hright⟩ := r.contains_iff.mp h
  have hcol : a.col.toNat - r.first.col.toNat < r.cols := by
    unfold cols
    omega
  have hrow : a.row.toNat - r.first.row.toNat + 1 ≤ r.rows := by
    unfold rows
    omega
  calc r.number a
      < (a.row.toNat - r.first.row.toNat) * r.cols + r.cols := Nat.add_lt_add_left hcol _
    _ = (a.row.toNat - r.first.row.toNat + 1) * r.cols := (Nat.succ_mul _ _).symm
    _ ≤ r.rows * r.cols := Nat.mul_le_mul_right _ hrow

theorem cell_number {a : Address} (h : r.contains a = true) : r.cell (r.number a) = a := by
  have hlt := r.number_lt h
  obtain ⟨⟨hlow, hhigh⟩, hleft, hright⟩ := r.contains_iff.mp h
  have hcol : a.col.toNat - r.first.col.toNat < r.cols := by
    unfold cols
    omega
  apply Address.eq_of_toNat
  · rw [r.row_cell hlt, number, Nat.mul_comm, Nat.mul_add_div r.cols_pos, Nat.div_eq_of_lt hcol]
    omega
  · rw [r.col_cell, number, Nat.mul_comm, Nat.mul_add_mod, Nat.mod_eq_of_lt hcol]
    omega

theorem length_cells : r.cells.length = r.rows * r.cols := by
  rw [cells, List.length_map, List.length_range]

theorem getElem?_cells {k : Nat} (h : k < r.rows * r.cols) : r.cells[k]? = some (r.cell k) := by
  rw [cells, List.getElem?_map, List.getElem?_range h, Option.map_some]

/-- The cells are those that the area contains. -/
theorem mem_cells_iff {a : Address} : a ∈ r.cells ↔ r.contains a = true := by
  constructor
  · intro h
    obtain ⟨k, hk, rfl⟩ := List.mem_map.mp h
    exact r.contains_cell (List.mem_range.mp hk)
  · intro h
    exact List.mem_map.mpr ⟨r.number a, List.mem_range.mpr (r.number_lt h), r.cell_number h⟩

theorem cell_precedes {i j : Nat} (hij : i < j) (hj : j < r.rows * r.cols) :
    (r.cell i).Precedes (r.cell j) := by
  have hi := Nat.lt_trans hij hj
  have hdiv : i / r.cols ≤ j / r.cols := Nat.div_le_div_right (Nat.le_of_lt hij)
  unfold Address.Precedes
  rw [r.row_cell hi, r.row_cell hj, r.col_cell, r.col_cell]
  rcases Nat.lt_or_eq_of_le hdiv with hlt | heq
  · exact .inl (by omega)
  · have hmodi := Nat.div_add_mod i r.cols
    have hmodj := Nat.div_add_mod j r.cols
    rw [heq] at hmodi
    exact .inr (by omega)

/-- The cells come by rows, and in a row by columns. -/
theorem cells_pairwise : r.cells.Pairwise Address.Precedes := by
  rw [cells, List.pairwise_map]
  refine List.pairwise_lt_range.imp_of_mem fun _ hj hij => ?_
  exact r.cell_precedes hij (List.mem_range.mp hj)

/-- Each cell that the area contains comes once. -/
theorem count_cells (a : Address) : r.cells.count a = if r.contains a then 1 else 0 := by
  have hnodup : r.cells.Nodup := r.cells_pairwise.imp Address.Precedes.ne
  split
  · next h => exact List.count_eq_one_of_mem hnodup (r.mem_cells_iff.mpr h)
  · next h => exact List.count_eq_zero_of_not_mem (mt r.mem_cells_iff.mp h)

end Area

/-! ## Going through an area -/

/-- The word behind another one, if there is one. -/
def wordAfter? (n : UInt32) : Option UInt32 :=
  if n.toNat + 1 < UInt32.size then some (n + 1) else none

theorem wordAfter?_eq_some {n m : UInt32} (h : m.toNat = n.toNat + 1) :
    wordAfter? n = some m := by
  have hlt : n.toNat + 1 < UInt32.size := h ▸ m.toNat_lt
  rw [wordAfter?, if_pos hlt, Option.some.injEq, ← UInt32.toNat_inj, h, UInt32.toNat_add]
  exact Nat.mod_eq_of_lt hlt

namespace Area

/-- A place in an area, and whether its cells have all been given. -/
structure Cursor where
  current : Address
  done : Bool

namespace Cursor

/-- The cursor in front of all cells. -/
def start (r : Area) : Cursor :=
  ⟨r.first, false⟩

/-- The cell behind another one: the one to its right, or behind the right edge the first of the
row below. There is none if its row or column is no word. -/
def after? (r : Area) (a : Address) : Option Address :=
  if a.col < r.last.col then
    (wordAfter? a.col).map fun col => ⟨a.row, col⟩
  else
    (wordAfter? a.row).map fun row => ⟨row, r.first.col⟩

/-- One step: the cell that the cursor is at, if it is not at the end, and the cursor behind it.
There is no answer if the cursor would have to leave the words. -/
def next? (r : Area) (c : Cursor) : Option (Option Address × Cursor) :=
  if c.done then
    some (none, c)
  else if c.current = r.last then
    some (some c.current, ⟨c.current, true⟩)
  else
    (after? r c.current).map fun a => (some c.current, ⟨a, false⟩)

/-- Step after step the cursor gives these cells, and then nothing any more. -/
inductive Drains (r : Area) : Cursor → List Address → Prop where
  | nil {c : Cursor} (h : next? r c = some (none, c)) : Drains r c []
  | cons {c c' : Cursor} {a : Address} {as : List Address} (h : next? r c = some (some a, c'))
      (rest : Drains r c' as) : Drains r c (a :: as)

/-- A cursor goes one way only. -/
theorem Drains.unique {r : Area} {c : Cursor} {as bs : List Address} (ha : Drains r c as)
    (hb : Drains r c bs) : as = bs := by
  induction ha generalizing bs with
  | nil h =>
    cases hb with
    | nil => rfl
    | cons h' => exact nomatch h.symm.trans h'
  | cons h _ ih =>
    cases hb with
    | nil h' => exact nomatch h.symm.trans h'
    | cons h' rest' =>
      obtain ⟨heq, rfl⟩ := Prod.mk.inj (Option.some.inj (h.symm.trans h'))
      rw [Option.some.inj heq, ih rest']

variable (r : Area)

theorem cell_zero : r.cell 0 = r.first := by
  have hcontains : r.contains r.first = true :=
    r.contains_iff.mpr ⟨⟨Nat.le_refl _, r.first_row_le⟩, Nat.le_refl _, r.first_col_le⟩
  have hnumber : r.number r.first = 0 := by
    rw [number, Nat.sub_self, Nat.sub_self, Nat.zero_mul]
  rw [← hnumber, r.cell_number hcontains]

/-- The last cell is the bottom right corner. -/
theorem cell_last {k : Nat} (h : k + 1 = r.rows * r.cols) : r.cell k = r.last := by
  have hcontains : r.contains r.last = true :=
    r.contains_iff.mpr ⟨⟨r.first_row_le, Nat.le_refl _⟩, r.first_col_le, Nat.le_refl _⟩
  have hnumber : r.number r.last = k := by
    have hrows : r.rows = r.last.row.toNat - r.first.row.toNat + 1 := rfl
    have hcols : r.cols = r.last.col.toNat - r.first.col.toNat + 1 := rfl
    rw [hrows, Nat.succ_mul] at h
    unfold number
    omega
  rw [← hnumber, r.cell_number hcontains]

theorem right_of_cell {k : Nat} (h : k % r.cols + 1 < r.cols) :
    (k + 1) / r.cols = k / r.cols ∧ (k + 1) % r.cols = k % r.cols + 1 := by
  have hk := Nat.mod_add_div k r.cols
  exact (Nat.div_mod_unique r.cols_pos).mpr ⟨by omega, h⟩

theorem below_cell {k : Nat} (h : k % r.cols + 1 = r.cols) :
    (k + 1) / r.cols = k / r.cols + 1 ∧ (k + 1) % r.cols = 0 := by
  have hk := Nat.mod_add_div k r.cols
  refine (Nat.div_mod_unique r.cols_pos).mpr ⟨?_, r.cols_pos⟩
  rw [Nat.mul_succ]
  omega

/-- Behind a cell that is not the last the cursor steps to the cell with the next number. -/
theorem after?_cell {k : Nat} (h : k + 1 < r.rows * r.cols) :
    after? r (r.cell k) = some (r.cell (k + 1)) := by
  have hk : k < r.rows * r.cols := Nat.lt_of_succ_lt h
  have hmod : k % r.cols < r.cols := Nat.mod_lt k r.cols_pos
  have hcols : r.cols = r.last.col.toNat - r.first.col.toNat + 1 := rfl
  have hle := r.first_col_le
  have hedge : (r.cell k).col < r.last.col ↔ k % r.cols + 1 < r.cols := by
    rw [UInt32.lt_iff_toNat_lt, r.col_cell]
    omega
  by_cases hright : k % r.cols + 1 < r.cols
  · obtain ⟨hdiv', hmod'⟩ := right_of_cell r hright
    have hcol : (r.cell (k + 1)).col.toNat = (r.cell k).col.toNat + 1 := by
      rw [r.col_cell, r.col_cell, hmod', Nat.add_assoc]
    have hrow : (r.cell k).row.toNat = (r.cell (k + 1)).row.toNat := by
      rw [r.row_cell hk, r.row_cell h, hdiv']
    rw [after?, if_pos (hedge.mpr hright), wordAfter?_eq_some hcol, Option.map_some,
      Option.some.injEq]
    exact Address.eq_of_toNat hrow rfl
  · have hlast : k % r.cols + 1 = r.cols := by omega
    obtain ⟨hdiv', hmod'⟩ := below_cell r hlast
    have hrow : (r.cell (k + 1)).row.toNat = (r.cell k).row.toNat + 1 := by
      rw [r.row_cell hk, r.row_cell h, hdiv', Nat.add_assoc]
    have hcol : r.first.col.toNat = (r.cell (k + 1)).col.toNat := by
      rw [r.col_cell, hmod', Nat.add_zero]
    rw [after?, if_neg (mt hedge.mp hright), wordAfter?_eq_some hrow, Option.map_some,
      Option.some.injEq]
    exact Address.eq_of_toNat rfl hcol

/-- From the cell with number `k` the cursor gives the `n + 1` cells that are left. -/
theorem drains_from {k n : Nat} (h : k + (n + 1) = r.rows * r.cols) :
    Drains r ⟨r.cell k, false⟩ ((List.range' k (n + 1)).map r.cell) := by
  -- the cursor that is not done stands on the cell `k`; only the last cell ends it
  induction n generalizing k with
  | zero =>
    have hnext : next? r ⟨r.cell k, false⟩ = some (some (r.cell k), ⟨r.cell k, true⟩) := by
      rw [next?, if_neg Bool.false_ne_true, if_pos (cell_last r h)]
    exact .cons hnext (.nil rfl)
  | succ n ih =>
    have hlast : r.cell (k + (n + 1)) = r.last := cell_last r h
    have hne : r.cell k ≠ r.last := by
      rw [← hlast]
      exact (r.cell_precedes (by omega) (by omega)).ne
    have hnext : next? r ⟨r.cell k, false⟩ = some (some (r.cell k), ⟨r.cell (k + 1), false⟩) := by
      rw [next?, if_neg Bool.false_ne_true, if_neg hne, after?_cell r (by omega), Option.map_some]
    exact .cons hnext (ih (by omega))

/-- A cursor gives the cells of the area and stops, and on its way does not leave the words. -/
theorem start_drains : Drains r (start r) r.cells := by
  obtain ⟨n, hn⟩ := Nat.exists_eq_add_one.mpr r.rows_mul_cols_pos
  have hdrains := drains_from r ((Nat.zero_add (n + 1)).trans hn.symm)
  rw [cell_zero r, ← hn, ← List.range_eq_range'] at hdrains
  exact hdrains

end Cursor

end Area

end Spreadsheet
