import Spreadsheet.Proofs.Columns
import Spreadsheet.Reference

/-!
# How references are spelled

A reference is a text `$? letters $? digits`. Where the letters end and the digits begin cannot be
mistaken, since no character is both and neither is a dollar sign, so a text falls into these parts
in one way only. `Spelling` is such a text taken apart.

Two numbers stand in it, and both count from one: the number of the digits is one more than the
row, the number of the letters one more than the column. Both have to be 32-bit words, and this is
all that can be wrong with a spelling. The last row and the last column have no number of this
kind, so a reference to them is written but not read.

Results:
1. `Reference.ofChars_eq_ok_iff`: which texts are read, and as what;
2. `Reference.ofChars_toChars`: what is written is read back;
3. `Spelling.Names.toChars_eq`: what is read is written in its normal form;
4. `a1_is_exact_codec`: the same for texts with blanks around them, and for columns.
-/

namespace Spreadsheet

open Text Number

/-- Both numbers of the address are words, so that it can be read from a text. -/
structure Address.IsNameable (a : Address) : Prop where
  row : a.row.toNat + 1 < UInt32.size
  col : a.col.toNat + 1 < UInt32.size

/-! ## Parts -/

namespace Reference

theorem mark_splitMark (cs : List Char) : mark (splitMark cs).1 ++ (splitMark cs).2 = cs := by
  unfold splitMark
  split <;> rfl

theorem splitMark_mark_append (pinned : Bool) {cs : List Char} (h : cs.head? ≠ some '$') :
    splitMark (mark pinned ++ cs) = (pinned, cs) := by
  cases pinned with
  | true => rfl
  | false =>
    show splitMark cs = (false, cs)
    unfold splitMark
    split
    · exact absurd rfl h
    · rfl

theorem eq_of_mem_mark {pinned : Bool} {c : Char} (h : c ∈ mark pinned) : c = '$' := by
  cases pinned with
  | true => exact List.mem_singleton.mp h
  | false => exact absurd h List.not_mem_nil

end Reference

/-- A text `$? letters $? digits`, taken apart. -/
structure Spelling where
  colPinned : Bool
  letters : List Char
  rowPinned : Bool
  digits : List Char
  letters_ne_nil : letters ≠ []
  isLetter_of_mem : ∀ c ∈ letters, isLetter c = true
  digits_ne_nil : digits ≠ []
  isDigit_of_mem : ∀ c ∈ digits, isDigit c = true

namespace Spelling

open Reference

/-- The text. -/
def chars (p : Spelling) : List Char :=
  mark p.colPinned ++ p.letters ++ mark p.rowPinned ++ p.digits

/-- The number of the letters. -/
def colNumber (p : Spelling) : Nat :=
  Column.numberOf p.letters

/-- The number of the digits. -/
def rowNumber (p : Spelling) : Nat :=
  digitsValue p.digits

/-- The spelling says what the reference is. -/
structure Names (p : Spelling) (r : Reference) : Prop where
  col : p.colNumber = r.address.col.toNat + 1
  row : p.rowNumber = r.address.row.toNat + 1
  colPinned : p.colPinned = r.colPinned
  rowPinned : p.rowPinned = r.rowPinned

theorem takeWhile_append {p : Char → Bool} {cs tail : List Char} (hcs : ∀ c ∈ cs, p c = true)
    (htail : tail.head?.any p = false) : (cs ++ tail).takeWhile p = cs := by
  rw [List.takeWhile_append_of_pos hcs]
  cases tail with
  | nil => exact List.append_nil cs
  | cons c tail => rw [List.takeWhile_cons_of_neg (by simpa using htail), List.append_nil]

theorem dropWhile_append {p : Char → Bool} {cs tail : List Char} (hcs : ∀ c ∈ cs, p c = true)
    (htail : tail.head?.any p = false) : (cs ++ tail).dropWhile p = tail := by
  rw [List.dropWhile_append_of_pos hcs]
  cases tail with
  | nil => rfl
  | cons c tail => rw [List.dropWhile_cons_of_neg (by simpa using htail)]

theorem exists_letters_eq (p : Spelling) : ∃ c cs, p.letters = c :: cs ∧ isLetter c = true := by
  obtain ⟨c, cs, hcs⟩ := List.exists_cons_of_ne_nil p.letters_ne_nil
  exact ⟨c, cs, hcs, p.isLetter_of_mem c (by rw [hcs]; exact List.mem_cons_self)⟩

theorem exists_digits_eq (p : Spelling) : ∃ d ds, p.digits = d :: ds ∧ isDigit d = true := by
  obtain ⟨d, ds, hds⟩ := List.exists_cons_of_ne_nil p.digits_ne_nil
  exact ⟨d, ds, hds, p.isDigit_of_mem d (by rw [hds]; exact List.mem_cons_self)⟩

/-! ## Taking a text apart

A spelling with more text behind it, as a reader comes across it. -/

section

variable (p : Spelling) (tail : List Char)

/-- What is behind the letters. -/
def behindLetters : List Char :=
  mark p.rowPinned ++ (p.digits ++ tail)

theorem splitMark_chars :
    splitMark (p.chars ++ tail) = (p.colPinned, p.letters ++ p.behindLetters tail) := by
  obtain ⟨c, cs, hcs, hc⟩ := p.exists_letters_eq
  have hhead : (p.letters ++ p.behindLetters tail).head? ≠ some '$' := by
    rw [hcs]
    rintro ⟨⟩
    exact absurd hc (by decide)
  rw [← splitMark_mark_append p.colPinned hhead]
  simp only [chars, behindLetters, List.append_assoc]

theorem head_behindLetters : (p.behindLetters tail).head?.any isLetter = false := by
  obtain ⟨d, ds, hds, hd⟩ := p.exists_digits_eq
  rw [behindLetters, hds]
  cases p.rowPinned with
  | true => rfl
  | false => exact isLetter_of_isDigit hd

theorem takeWhile_letters :
    (p.letters ++ p.behindLetters tail).takeWhile isLetter = p.letters :=
  takeWhile_append p.isLetter_of_mem (p.head_behindLetters tail)

theorem dropWhile_letters :
    (p.letters ++ p.behindLetters tail).dropWhile isLetter = p.behindLetters tail :=
  dropWhile_append p.isLetter_of_mem (p.head_behindLetters tail)

theorem splitMark_behindLetters :
    splitMark (p.behindLetters tail) = (p.rowPinned, p.digits ++ tail) := by
  obtain ⟨d, ds, hds, hd⟩ := p.exists_digits_eq
  refine splitMark_mark_append _ ?_
  rw [hds]
  rintro ⟨⟩
  exact absurd hd (by decide)

end

/-- The spelling at the front of a text in which the readers find letters and digits. -/
def front (cs : List Char) (hletters : (splitMark cs).2.takeWhile isLetter ≠ [])
    (hdigits : (splitMark ((splitMark cs).2.dropWhile isLetter)).2.takeWhile isDigit ≠ []) :
    Spelling where
  colPinned := (splitMark cs).1
  letters := (splitMark cs).2.takeWhile isLetter
  rowPinned := (splitMark ((splitMark cs).2.dropWhile isLetter)).1
  digits := (splitMark ((splitMark cs).2.dropWhile isLetter)).2.takeWhile isDigit
  letters_ne_nil := hletters
  isLetter_of_mem _ := List.mem_takeWhile_imp
  digits_ne_nil := hdigits
  isDigit_of_mem _ := List.mem_takeWhile_imp

theorem front_chars_append (cs : List Char) (hletters) (hdigits) :
    (front cs hletters hdigits).chars
      ++ (splitMark ((splitMark cs).2.dropWhile isLetter)).2.dropWhile isDigit = cs := by
  simp only [chars, front, List.append_assoc, List.takeWhile_append_dropWhile, mark_splitMark]

theorem of_mem_chars {p : Spelling} {c : Char} (h : c ∈ p.chars) :
    c = '$' ∨ isLetter c = true ∨ isDigit c = true := by
  simp only [chars, List.mem_append] at h
  rcases h with ((h | h) | h) | h
  · exact .inl (eq_of_mem_mark h)
  · exact .inr (.inl (p.isLetter_of_mem c h))
  · exact .inl (eq_of_mem_mark h)
  · exact .inr (.inr (p.isDigit_of_mem c h))

theorem isBlank_of_mem_chars {p : Spelling} {c : Char} (h : c ∈ p.chars) : isBlank c = false := by
  rcases of_mem_chars h with rfl | h | h
  · rfl
  · exact isBlank_of_isLetter h
  · exact isBlank_of_isDigit h

theorem trim_chars (p : Spelling) : trim p.chars = p.chars :=
  trim_eq_self fun _ => isBlank_of_mem_chars

theorem chars_ne_nil (p : Spelling) : p.chars ≠ [] := by
  intro h
  exact p.digits_ne_nil (List.append_eq_nil_iff.mp h).2

end Spelling

/-! ## Reading -/

namespace Reference

open Spelling

theorem rowOfDigits_eq_ok_iff {digits : List Char} {row : UInt32} :
    rowOfDigits digits = .ok row ↔
      digitsValue digits < UInt32.size ∧ digitsValue digits = row.toNat + 1 := by
  unfold rowOfDigits
  dsimp only
  split
  · next h =>
    have hrow : (UInt32.ofNat (digitsValue digits - 1)).toNat = digitsValue digits - 1 :=
      UInt32.toNat_ofNat_of_lt' (by omega)
    rw [Except.ok.injEq, ← UInt32.toNat_inj, hrow]
    omega
  · next h =>
    refine ⟨nofun, fun ⟨hword, hnumber⟩ => ?_⟩
    exact absurd ⟨by omega, hword⟩ h

/-- Of a spelling the two numbers have to be read. -/
theorem ofChars_chars (p : Spelling) : ofChars p.chars = do
    let row ← rowOfDigits p.digits
    let col ← Column.ofLetters p.letters
    return ⟨⟨row, col⟩, p.rowPinned, p.colPinned⟩ := by
  have hsplit := p.splitMark_chars []
  have hmark := p.splitMark_behindLetters []
  rw [List.append_nil] at hsplit hmark
  have hdigits : p.digits.takeWhile isDigit = p.digits :=
    List.takeWhile_eq_self_iff.mpr p.isDigit_of_mem
  have hend : p.digits.dropWhile isDigit = [] := List.dropWhile_eq_nil_iff.mpr p.isDigit_of_mem
  simp only [ofChars, hsplit, takeWhile_letters, dropWhile_letters, hmark, hdigits, hend,
    if_neg p.chars_ne_nil, if_neg p.letters_ne_nil, p.digits_ne_nil, ne_eq, not_true_eq_false,
    or_self, if_false]

/-- Nothing but a spelling is read. -/
theorem exists_chars_eq_of_ofChars {cs : List Char} {r : Reference} (h : ofChars cs = .ok r) :
    ∃ p : Spelling, p.chars = cs := by
  unfold ofChars at h
  by_cases hempty : cs = []
  · rw [if_pos hempty] at h
    exact nomatch h
  rw [if_neg hempty] at h
  simp only at h
  by_cases hletters : (splitMark cs).2.takeWhile isLetter = []
  · rw [if_pos hletters] at h
    exact nomatch h
  rw [if_neg hletters] at h
  by_cases hdigits : (splitMark ((splitMark cs).2.dropWhile isLetter)).2.takeWhile isDigit = [] ∨
      (splitMark ((splitMark cs).2.dropWhile isLetter)).2.dropWhile isDigit ≠ []
  · rw [if_pos hdigits] at h
    exact nomatch h
  obtain ⟨hdigits, hend⟩ := not_or.mp hdigits
  have hfront := front_chars_append cs hletters hdigits
  rw [not_not.mp hend, List.append_nil] at hfront
  exact ⟨_, hfront⟩

theorem ofChars_chars_eq_ok_iff {p : Spelling} {r : Reference} :
    ofChars p.chars = .ok r ↔ r.address.IsNameable ∧ p.Names r := by
  rw [ofChars_chars]
  constructor
  · intro h
    cases hrow : rowOfDigits p.digits with
    | error => exact nomatch hrow ▸ h
    | ok row =>
      cases hcol : Column.ofLetters p.letters with
      | error => exact nomatch hcol ▸ hrow ▸ h
      | ok col =>
        rw [hrow, hcol] at h
        obtain rfl := Except.ok.inj h
        obtain ⟨hrowWord, hrowNumber⟩ := rowOfDigits_eq_ok_iff.mp hrow
        obtain ⟨-, -, hcolWord, hcolNumber⟩ := Column.ofLetters_eq_ok_iff.mp hcol
        exact ⟨⟨hrowNumber ▸ hrowWord, hcolNumber ▸ hcolWord⟩, hcolNumber, hrowNumber, rfl, rfl⟩
  · rintro ⟨⟨hrowWord, hcolWord⟩, hcolNumber, hrowNumber, hcolPinned, hrowPinned⟩
    have hrow := rowOfDigits_eq_ok_iff.mpr ⟨hrowNumber.trans_lt hrowWord, hrowNumber⟩
    have hcol := Column.ofLetters_eq_ok_iff.mpr
      ⟨p.letters_ne_nil, p.isLetter_of_mem, hcolNumber.trans_lt hcolWord, hcolNumber⟩
    rw [hrow, hcol, hcolPinned, hrowPinned]
    rfl

/-- A text is read as a reference if it spells that reference and both numbers are words. -/
theorem ofChars_eq_ok_iff {cs : List Char} {r : Reference} :
    ofChars cs = .ok r ↔ r.address.IsNameable ∧ ∃ p : Spelling, p.chars = cs ∧ p.Names r := by
  constructor
  · intro h
    obtain ⟨p, rfl⟩ := exists_chars_eq_of_ofChars h
    obtain ⟨hnameable, hnames⟩ := ofChars_chars_eq_ok_iff.mp h
    exact ⟨hnameable, p, rfl, hnames⟩
  · rintro ⟨hnameable, p, rfl, hnames⟩
    exact ofChars_chars_eq_ok_iff.mpr ⟨hnameable, hnames⟩

/-! ## Writing -/

/-- How a reference is spelled when it is written. -/
def spelling (r : Reference) : Spelling where
  colPinned := r.colPinned
  letters := Column.letters r.address.col
  rowPinned := r.rowPinned
  digits := decimal (r.address.row.toNat + 1)
  letters_ne_nil := Column.letters_ne_nil _
  isLetter_of_mem _ := Column.isLetter_of_mem_letters
  digits_ne_nil := decimal_ne_nil _
  isDigit_of_mem _ := isDigit_of_mem_decimal

theorem spelling_names (r : Reference) : r.spelling.Names r where
  col := Column.numberOf_letters _
  row := digitsValue_decimal _
  colPinned := rfl
  rowPinned := rfl

/-- What is written is read back. -/
theorem ofChars_toChars {r : Reference} (h : r.address.IsNameable) : ofChars r.toChars = .ok r :=
  ofChars_chars_eq_ok_iff.mpr ⟨h, r.spelling_names⟩

theorem ofA1_ofList_chars (p : Spelling) : ofA1 (String.ofList p.chars) = ofChars p.chars := by
  rw [ofA1, String.toList_ofList, p.trim_chars]

theorem ofA1_toA1 {r : Reference} (h : r.address.IsNameable) : ofA1 r.toA1 = .ok r :=
  (ofA1_ofList_chars r.spelling).trans (ofChars_toChars h)

theorem toA1_relative (a : Address) : (relative a).toA1 = a.toA1 := by
  simp only [toA1, toChars, relative, mark, Bool.false_eq_true, if_false, List.nil_append,
    List.append_nil, Address.toA1]

end Reference

/-- An address is read back from what is written. -/
theorem Address.ofA1_toA1 {a : Address} (h : a.IsNameable) : Address.ofA1 a.toA1 = .ok a := by
  have hread : Reference.ofA1 (Reference.relative a).toA1 = .ok (.relative a) :=
    Reference.ofA1_toA1 h
  rw [Address.ofA1, ← Reference.toA1_relative, hread]
  rfl

/-! ## Normal forms -/

/-- The text with its letters in upper case and without the zeros in front of its digits. -/
def normalForm (cs : List Char) : List Char :=
  (cs.takeWhile (!isDigit ·)).map Char.toUpper ++ (cs.dropWhile (!isDigit ·)).dropWhile (· == '0')

namespace Spelling

open Reference

theorem isDigit_eq_false_of_mem_mark {pinned : Bool} {c : Char} (h : c ∈ mark pinned) :
    isDigit c = false := by
  rw [eq_of_mem_mark h]
  decide

theorem map_toUpper_mark (pinned : Bool) : (mark pinned).map Char.toUpper = mark pinned := by
  cases pinned <;> rfl

theorem normalForm_chars (p : Spelling) : normalForm p.chars =
    mark p.colPinned ++ p.letters.map Char.toUpper ++ mark p.rowPinned
      ++ p.digits.dropWhile (· == '0') := by
  have hfront : ∀ c ∈ mark p.colPinned ++ p.letters ++ mark p.rowPinned,
      (!isDigit c) = true := by
    intro c hc
    rw [Bool.not_eq_true']
    simp only [List.mem_append] at hc
    rcases hc with (hc | hc) | hc
    · exact isDigit_eq_false_of_mem_mark hc
    · exact isDigit_of_isLetter (p.isLetter_of_mem c hc)
    · exact isDigit_eq_false_of_mem_mark hc
  have hdigits : p.digits.head?.any (!isDigit ·) = false := by
    obtain ⟨d, ds, hds, hd⟩ := p.exists_digits_eq
    rw [hds, List.head?_cons, Option.any_some, hd, Bool.not_true]
  rw [normalForm, chars, takeWhile_append hfront hdigits, dropWhile_append hfront hdigits]
  simp only [List.map_append, map_toUpper_mark]

/-- What is read is written in its normal form. -/
theorem Names.toChars_eq {p : Spelling} {r : Reference} (h : p.Names r) :
    r.toChars = normalForm p.chars := by
  have hletters : Column.letters r.address.col = p.letters.map Char.toUpper := by
    rw [← Column.lettersOf_numberOf p.isLetter_of_mem]
    exact congrArg Column.lettersOf h.col.symm
  have hdigits : decimal (r.address.row.toNat + 1) = p.digits.dropWhile (· == '0') := by
    rw [← h.row]
    exact decimal_digitsValue p.isDigit_of_mem (by rw [← rowNumber, h.row]; exact Nat.succ_pos _)
  rw [p.normalForm_chars, toChars, hletters, hdigits, h.colPinned, h.rowPinned]

end Spelling

/-- A text is read as a reference if, without the blanks around it, it is `$? letters $? digits` and
both of its numbers are positive words, and in no other case; the reference is the one that these
parts name. A reference whose numbers are words is read back from what is written, and what is
written for a text that was read is the normal form of that text. No two columns have the same
letters, and every column but the last is read back from its own; those of the last are refused. -/
theorem a1_is_exact_codec :
    (∀ text, (∃ r, Reference.ofA1 text = .ok r) ↔ ∃ p : Spelling, p.chars = trim text.toList ∧
      (1 ≤ p.rowNumber ∧ p.rowNumber ≤ 2 ^ 32 - 1) ∧
      (1 ≤ p.colNumber ∧ p.colNumber ≤ 2 ^ 32 - 1)) ∧
    (∀ text r (p : Spelling), Reference.ofA1 text = .ok r → p.chars = trim text.toList →
      p.Names r) ∧
    (∀ r : Reference, r.address.row.toNat ≤ 2 ^ 32 - 2 → r.address.col.toNat ≤ 2 ^ 32 - 2 →
      Reference.ofA1 r.toA1 = .ok r) ∧
    (∀ text r, Reference.ofA1 text = .ok r →
      r.toA1 = String.ofList (normalForm (trim text.toList))) ∧
    Function.Injective Column.letters ∧
    (∀ index : UInt32, index.toNat ≠ 2 ^ 32 - 1 →
      Column.ofLetters (Column.letters index) = .ok index) ∧
    ∀ index : UInt32, index.toNat = 2 ^ 32 - 1 →
      Column.ofLetters (Column.letters index)
        = .error (.column (String.ofList (Column.letters index))) := by
  have hsize : UInt32.size = 2 ^ 32 := rfl
  have hlt := fun index : UInt32 => index.toNat_lt
  refine ⟨fun text => ⟨?_, ?_⟩, ?_, ?_, ?_, Column.letters_injective, ?_, ?_⟩
  · rintro ⟨r, h⟩
    obtain ⟨⟨hrow, hcol⟩, p, hp, hnames⟩ := Reference.ofChars_eq_ok_iff.mp h
    rw [hsize] at hrow hcol
    refine ⟨p, hp, ?_, ?_⟩
    · rw [hnames.row]
      omega
    · rw [hnames.col]
      omega
  · rintro ⟨p, hp, ⟨hrowPos, hrow⟩, hcolPos, hcol⟩
    refine ⟨⟨⟨.ofNat (p.rowNumber - 1), .ofNat (p.colNumber - 1)⟩, p.rowPinned, p.colPinned⟩, ?_⟩
    have hrowIndex : (UInt32.ofNat (p.rowNumber - 1)).toNat = p.rowNumber - 1 :=
      UInt32.toNat_ofNat_of_lt' (by omega)
    have hcolIndex : (UInt32.ofNat (p.colNumber - 1)).toNat = p.colNumber - 1 :=
      UInt32.toNat_ofNat_of_lt' (by omega)
    refine Reference.ofChars_eq_ok_iff.mpr ⟨⟨?_, ?_⟩, p, hp, ?_, ?_, rfl, rfl⟩
    · rw [hrowIndex]
      omega
    · rw [hcolIndex]
      omega
    · rw [hcolIndex]
      omega
    · rw [hrowIndex]
      omega
  · intro text r p h hp
    exact (Reference.ofChars_chars_eq_ok_iff.mp (hp ▸ h)).2
  · intro r hrow hcol
    exact Reference.ofA1_toA1 ⟨by omega, by omega⟩
  · intro text r h
    obtain ⟨-, p, hp, hnames⟩ := Reference.ofChars_eq_ok_iff.mp h
    rw [Reference.toA1, hnames.toChars_eq, hp]
  · intro index h
    have := hlt index
    exact Column.ofLetters_letters (by omega)
  · intro index h
    exact Column.ofLetters_letters_last (by omega)

/-- Blanks, lower case and zeros in front are read and not written. The letters of the last column
are written and not read. -/
theorem a1_is_exact_codec_marked :
    Reference.ofA1 " $xfd$0012 " = .ok ⟨⟨11, 16383⟩, true, true⟩ ∧
    Reference.toA1 ⟨⟨11, 16383⟩, true, true⟩ = "$XFD$12" ∧
    Reference.ofA1 "$XFD$12" = .ok ⟨⟨11, 16383⟩, true, true⟩ ∧
    Column.ofLetters (Column.letters 4294967294) = .ok 4294967294 ∧
    Column.ofLetters (Column.letters 4294967295)
      = .error (.column (String.ofList (Column.letters 4294967295))) := by
  obtain ⟨-, -, hwritten, hread, -, hcol, hlast⟩ := a1_is_exact_codec
  have htext : Reference.ofA1 " $xfd$0012 " = .ok ⟨⟨11, 16383⟩, true, true⟩ := by rfl
  have hnormal : String.ofList (normalForm (trim " $xfd$0012 ".toList)) = "$XFD$12" := by rfl
  have hback := hwritten ⟨⟨11, 16383⟩, true, true⟩ (by decide) (by decide)
  rw [(hread _ _ htext).trans hnormal] at hback
  exact ⟨htext, (hread _ _ htext).trans hnormal, hback, hcol _ (by decide), hlast _ (by decide)⟩

end Spreadsheet
