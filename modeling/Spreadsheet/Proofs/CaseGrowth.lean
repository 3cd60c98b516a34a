import Spreadsheet.Text.Case
import Mathlib

/-!
# How texts grow in upper and lower case

Some characters have more than one character in their other case: `ß` becomes `SS`, and there are
ligatures and Greek letters that become three. `growth` says how many characters may become of one
by any number of changes of case. It is never more than three, it is one for ASCII, and no change of
case adds to the sum of growths in a text. So that sum bounds the length of whatever becomes of it.

Results:
1. `one_le_growth`, `growth_le_three`, `growth_of_ascii`: how large a growth is;
2. `totalGrowth_upperChar`, `totalGrowth_lowerChar`: what becomes of a character grows no further
   than the character;
3. `totalGrowth_toUpper`, `totalGrowth_toLower`: a change of case does not add to the total.
-/

namespace Spreadsheet.Text

/-! ## The growth of a character -/

/-- The code points from which more than one character can come. All but one have sequences as
their other case; the lower case of capital `ẞ` is `ß`, which has one. -/
def growing : List (Nat × Nat) :=
  (0x1E9E, 2) :: (upperSequences ++ lowerSequences).map fun (n, ns) => (n, ns.length)

def growthAt (n : Nat) : Nat :=
  (growing.lookup n).getD 1

/-- The number of characters that a character may become by changes of case. -/
def growth (c : Char) : Nat :=
  growthAt c.toNat

/-- The growth of all characters together. -/
def totalGrowth (cs : List Char) : Nat :=
  (cs.map growth).sum

@[simp] theorem totalGrowth_nil : totalGrowth [] = 0 := rfl

@[simp] theorem totalGrowth_cons (c : Char) (cs : List Char) :
    totalGrowth (c :: cs) = growth c + totalGrowth cs :=
  List.sum_cons

@[simp] theorem totalGrowth_append (cs ds : List Char) :
    totalGrowth (cs ++ ds) = totalGrowth cs + totalGrowth ds := by
  simp [totalGrowth]

theorem mem_of_lookup {κ α : Type} [BEq κ] [LawfulBEq κ] {l : List (κ × α)} {k : κ} {x : α}
    (h : l.lookup k = some x) : (k, x) ∈ l := by
  obtain ⟨l₁, l₂, rfl, -⟩ := List.lookup_eq_some_iff.mp h
  simp

/-- A growth other than one is in the table. -/
theorem growthAt_eq_one_or (n : Nat) : growthAt n = 1 ∨ (n, growthAt n) ∈ growing := by
  unfold growthAt
  cases h : growing.lookup n with
  | none => exact .inl rfl
  | some k => exact .inr (mem_of_lookup h)

theorem growing_bounds : ∀ p ∈ growing, 1 ≤ p.2 ∧ p.2 ≤ 3 ∧ 0x80 ≤ p.1 := by
  decide +kernel

theorem one_le_growthAt (n : Nat) : 1 ≤ growthAt n := by
  rcases growthAt_eq_one_or n with h | h
  · exact Nat.le_of_eq h.symm
  · exact (growing_bounds _ h).1

theorem one_le_growth (c : Char) : 1 ≤ growth c :=
  one_le_growthAt c.toNat

theorem growth_le_three (c : Char) : growth c ≤ 3 := by
  rcases growthAt_eq_one_or c.toNat with h | h
  · rw [growth, h]
    decide
  · exact (growing_bounds _ h).2.1

theorem growthAt_of_ascii {n : Nat} (h : n < 0x80) : growthAt n = 1 :=
  (growthAt_eq_one_or n).resolve_right fun hmem =>
    absurd (growing_bounds _ hmem).2.2 (Nat.not_le_of_lt h)

theorem growth_of_ascii {c : Char} (h : c.toNat < 0x80) : growth c = 1 :=
  growthAt_of_ascii h

/-- The total bounds the number of characters. -/
theorem length_le_totalGrowth (cs : List Char) : cs.length ≤ totalGrowth cs := by
  induction cs with
  | nil => exact Nat.le_refl 0
  | cons c cs ih =>
    have := one_le_growth c
    rw [List.length_cons, totalGrowth_cons]
    omega

theorem growth_le_totalGrowth {c : Char} {cs : List Char} (h : c ∈ cs) :
    growth c ≤ totalGrowth cs := by
  induction cs with
  | nil => exact absurd h List.not_mem_nil
  | cons d cs ih =>
    rw [totalGrowth_cons]
    rcases List.mem_cons.mp h with rfl | h
    · exact Nat.le_add_right _ _
    · exact Nat.le_trans (ih h) (Nat.le_add_left _ _)

theorem totalGrowth_le {k : Nat} {cs : List Char} (h : ∀ c ∈ cs, growth c ≤ k) :
    totalGrowth cs ≤ k * cs.length := by
  induction cs with
  | nil => exact Nat.zero_le _
  | cons c cs ih =>
    obtain ⟨hc, hcs⟩ := List.forall_mem_cons.mp h
    have := ih hcs
    rw [totalGrowth_cons, List.length_cons, Nat.mul_succ]
    omega

theorem totalGrowth_sublist {cs ds : List Char} (h : cs.Sublist ds) :
    totalGrowth cs ≤ totalGrowth ds := by
  induction h with
  | slnil => exact Nat.le_refl 0
  | cons d _ ih =>
    rw [totalGrowth_cons]
    exact Nat.le_trans ih (Nat.le_add_left _ _)
  | cons_cons d _ ih =>
    rw [totalGrowth_cons, totalGrowth_cons]
    exact Nat.add_le_add_left ih _

/-! ## Images under the tables -/

/-- A number that is no code point stands for the character zero. -/
theorem toNat_ofNat_eq_or (n : Nat) : (Char.ofNat n).toNat = n ∨ (Char.ofNat n).toNat = 0 := by
  unfold Char.ofNat
  split
  · exact .inl rfl
  · exact .inr rfl

theorem growth_ofNat_le (n : Nat) : growth (Char.ofNat n) ≤ growthAt n := by
  unfold growth
  rcases toNat_ofNat_eq_or n with h | h
  · exact Nat.le_of_eq (congrArg growthAt h)
  · rw [h, show growthAt 0 = 1 from growthAt_of_ascii (by decide)]
    exact one_le_growthAt n

theorem growthAt_sequences : ∀ p ∈ upperSequences ++ lowerSequences,
    p.2.length ≤ growthAt p.1 ∧ ∀ n ∈ p.2, growthAt n = 1 := by
  decide +kernel

namespace CaseRun

/-- Whether the code point lies in the run. -/
def holds (r : CaseRun) (n : Nat) : Bool :=
  r.first ≤ n && n ≤ r.last && (n - r.first) % r.stride == 0

/-- The code point that the run moves to another one. -/
def source (r : CaseRun) (m : Nat) : Nat :=
  match r.shift with
  | .ofNat s => m - s
  | .negSucc s => m + s + 1

/-- Whether the run moves nothing into a range of code points. -/
def misses (r : CaseRun) (range : Nat × Nat) : Bool :=
  Nat.blt (r.source range.2) r.first || Nat.blt r.last (r.source range.1)

variable {r : CaseRun} {n m : Nat}

/-- What is moved to a code point other than zero comes from its source. -/
theorem source_image (h : ((n : Int) + r.shift).toNat ≠ 0) :
    r.source ((n : Int) + r.shift).toNat = n := by
  unfold source
  cases hshift : r.shift with
  | ofNat k =>
    rw [hshift, Int.ofNat_eq_natCast] at h
    rw [Int.ofNat_eq_natCast]
    dsimp only
    omega
  | negSucc k =>
    rw [hshift] at h
    dsimp only
    omega

theorem source_mono (h : n ≤ m) : r.source n ≤ r.source m := by
  unfold source
  split <;> omega

theorem not_holds_of_misses {range : Nat × Nat} (h : r.misses range = true)
    (hfirst : range.1 ≤ m) (hlast : m ≤ range.2) : r.holds (r.source m) = false := by
  have hbelow : r.source m ≤ r.source range.2 := source_mono hlast
  have habove : r.source range.1 ≤ r.source m := source_mono hfirst
  simp only [misses, Nat.blt_eq, Bool.or_eq_true] at h
  simp only [holds, Bool.and_eq_false_iff, decide_eq_false_iff_not]
  omega

end CaseRun

/-- Ranges that have all growing code points in them and few others. -/
def growingRanges : List (Nat × Nat) :=
  [(0xDF, 0xDF), (0x130, 0x130), (0x149, 0x149), (0x1F0, 0x1F0), (0x390, 0x390), (0x3B0, 0x3B0),
    (0x587, 0x587), (0x1E96, 0x1E9E), (0x1F50, 0x1F56), (0x1F80, 0x1FFC), (0xFB00, 0xFB17)]

theorem growing_in_ranges : ∀ p ∈ growing, ∃ range ∈ growingRanges,
    range.1 ≤ p.1 ∧ p.1 ≤ range.2 := by
  decide +kernel

/-- Most runs move nothing near a growing code point, so that few have to be looked at in detail. -/
theorem runs_checked : ((upperRuns ++ lowerRuns).all fun r =>
    growingRanges.all r.misses ||
      growing.all fun p => !r.holds (r.source p.1) || p.2 ≤ growthAt (r.source p.1)) = true := by
  decide +kernel

/-- A run does not move a code point to one that grows more. -/
theorem growthAt_image {r : CaseRun} (hr : r ∈ upperRuns ++ lowerRuns) {n : Nat}
    (hn : r.holds n = true) : growthAt ((n : Int) + r.shift).toNat ≤ growthAt n := by
  rcases growthAt_eq_one_or ((n : Int) + r.shift).toNat with hone | hmem
  · rw [hone]
    exact one_le_growthAt n
  · have hzero : ((n : Int) + r.shift).toNat ≠ 0 := by
      have := (growing_bounds _ hmem).2.2
      dsimp only at this
      omega
    have hsource := CaseRun.source_image hzero
    have hchecked := List.all_eq_true.mp runs_checked r hr
    rw [Bool.or_eq_true] at hchecked
    -- the image grows: either the run does not lead there, or it was looked at in detail
    rcases hchecked with hmiss | hdetail
    · obtain ⟨range, hrange, hfirst, hlast⟩ := growing_in_ranges _ hmem
      have hnot := CaseRun.not_holds_of_misses (List.all_eq_true.mp hmiss range hrange) hfirst hlast
      rw [hsource, hn] at hnot
      exact absurd hnot (by decide)
    · have hle := List.all_eq_true.mp hdetail _ hmem
      simpa [hsource, hn] using hle

theorem mapRuns?_eq_some {runs : List CaseRun} {n m : Nat} (h : mapRuns? runs n = some m) :
    ∃ r ∈ runs, r.holds n = true ∧ ((n : Int) + r.shift).toNat = m := by
  obtain ⟨r, hr, hm⟩ := List.exists_of_findSome?_eq_some h
  rw [Option.ite_none_right_eq_some] at hm
  exact ⟨r, hr, hm.1, Option.some.inj hm.2⟩

/-- A sequence of characters that do not grow. -/
theorem totalGrowth_ofNat {ns : List Nat} (h : ∀ n ∈ ns, growthAt n = 1) :
    totalGrowth (ns.map Char.ofNat) ≤ ns.length := by
  induction ns with
  | nil => exact Nat.le_refl 0
  | cons n ns ih =>
    have hn := growth_ofNat_le n
    rw [h n List.mem_cons_self] at hn
    have hns := ih fun k hk => h k (List.mem_cons_of_mem n hk)
    rw [List.map_cons, totalGrowth_cons, List.length_cons]
    omega

/-- What a character becomes under tables that belong to the ones above. -/
theorem totalGrowth_mapCase {sequences : List (Nat × List Nat)} {runs : List CaseRun}
    (hs : sequences ⊆ upperSequences ++ lowerSequences) (hr : runs ⊆ upperRuns ++ lowerRuns)
    (c : Char) : totalGrowth (mapCase sequences runs c) ≤ growth c := by
  unfold mapCase
  split
  · next ns hns =>
    obtain ⟨hlength, hones⟩ := growthAt_sequences _ (hs (mem_of_lookup hns))
    exact Nat.le_trans (totalGrowth_ofNat hones) hlength
  · rw [totalGrowth_cons, totalGrowth_nil, Nat.add_zero]
    cases hm : mapRuns? runs c.toNat with
    | none => exact Nat.le_refl (growth c)
    | some m =>
      obtain ⟨r, hmem, hholds, rfl⟩ := mapRuns?_eq_some hm
      exact Nat.le_trans (growth_ofNat_le _) (growthAt_image (hr hmem) hholds)

/-! ## Changes of case -/

theorem ascii_cases : ∀ n < 0x80,
    (Char.ofNat n).toUpper.toNat < 0x80 ∧ (Char.ofNat n).toLower.toNat < 0x80 := by
  decide +kernel

theorem totalGrowth_upperChar (c : Char) : totalGrowth (upperChar c) ≤ growth c := by
  unfold upperChar
  split
  · next h =>
    have himage := (ascii_cases c.toNat h).1
    rw [Char.ofNat_toNat] at himage
    rw [totalGrowth_cons, totalGrowth_nil, growth_of_ascii himage]
    exact one_le_growth c
  · exact totalGrowth_mapCase (List.subset_append_left _ _) (List.subset_append_left _ _) c

theorem totalGrowth_lowerChar (c : Char) : totalGrowth (lowerChar c) ≤ growth c := by
  unfold lowerChar
  split
  · next h =>
    have himage := (ascii_cases c.toNat h).2
    rw [Char.ofNat_toNat] at himage
    rw [totalGrowth_cons, totalGrowth_nil, growth_of_ascii himage]
    exact one_le_growth c
  · exact totalGrowth_mapCase (List.subset_append_right _ _) (List.subset_append_right _ _) c

/-- A text in lower case begins with what becomes of its first character. -/
theorem lowerAfter_cons (before : List Char) (c : Char) (cs : List Char) :
    ∃ image, lowerAfter before (c :: cs) = image ++ lowerAfter (c :: before) cs ∧
      totalGrowth image ≤ growth c := by
  refine ⟨_, rfl, ?_⟩
  -- both forms of the small sigma are one character that does not grow
  split
  · split <;> exact one_le_growth c
  · exact totalGrowth_lowerChar c

theorem totalGrowth_toUpper (s : String) :
    totalGrowth (toUpper s).toList ≤ totalGrowth s.toList := by
  rw [toUpper, String.toList_ofList]
  induction s.toList with
  | nil => exact Nat.le_refl 0
  | cons c cs ih =>
    rw [List.flatMap_cons, totalGrowth_append, totalGrowth_cons]
    exact Nat.add_le_add (totalGrowth_upperChar c) ih

theorem totalGrowth_lowerAfter (before cs : List Char) :
    totalGrowth (lowerAfter before cs) ≤ totalGrowth cs := by
  induction cs generalizing before with
  | nil => exact Nat.le_refl 0
  | cons c cs ih =>
    obtain ⟨image, heq, himage⟩ := lowerAfter_cons before c cs
    rw [heq, totalGrowth_append, totalGrowth_cons]
    exact Nat.add_le_add himage (ih (c :: before))

theorem totalGrowth_toLower (s : String) :
    totalGrowth (toLower s).toList ≤ totalGrowth s.toList := by
  rw [toLower, String.toList_ofList]
  exact totalGrowth_lowerAfter [] s.toList

/-- No character grows more than the one that it comes from. -/
theorem exists_of_mem_toUpper {s : String} {c : Char} (h : c ∈ (toUpper s).toList) :
    ∃ d ∈ s.toList, growth c ≤ growth d := by
  rw [toUpper, String.toList_ofList] at h
  obtain ⟨d, hd, hc⟩ := List.mem_flatMap.mp h
  exact ⟨d, hd, Nat.le_trans (growth_le_totalGrowth hc) (totalGrowth_upperChar d)⟩

theorem exists_of_mem_lowerAfter {before cs : List Char} {c : Char} (h : c ∈ lowerAfter before cs) :
    ∃ d ∈ cs, growth c ≤ growth d := by
  induction cs generalizing before with
  | nil => exact absurd h List.not_mem_nil
  | cons d cs ih =>
    obtain ⟨image, heq, himage⟩ := lowerAfter_cons before d cs
    rw [heq] at h
    rcases List.mem_append.mp h with h | h
    · exact ⟨d, List.mem_cons_self, Nat.le_trans (growth_le_totalGrowth h) himage⟩
    · obtain ⟨d', hd', hle⟩ := ih h
      exact ⟨d', List.mem_cons_of_mem d hd', hle⟩

theorem exists_of_mem_toLower {s : String} {c : Char} (h : c ∈ (toLower s).toList) :
    ∃ d ∈ s.toList, growth c ≤ growth d := by
  rw [toLower, String.toList_ofList] at h
  exact exists_of_mem_lowerAfter h

end Spreadsheet.Text
