import Spreadsheet.Proofs.Blanks
import Spreadsheet.Proofs.Columns

/-!
# Scanners and the case of letters

No scanner tells the case of a letter apart, except inside string literals. Each class of characters
is a property of the character in upper case, so each scanner measures the same in a text and in
its folded form, where all letters are in upper case; a number read there is the same number, and a
reference the same reference. Only the name of a function keeps the case in which it is written.

So what is found in a text is compared by its folded kind. An answer that is a fault is not compared
any further, since a fault quotes the text.

Results:
1. `folds`: a property that 52 letters share with their upper case does not tell case apart;
2. `numberLength_folded`, `nameLength_folded`, `cellLength?_folded`: scanners measure the same;
3. `readFloat?_folded`, `toOption_ofChars_folded`: what is measured is read as the same;
4. `Scan.found_token_folded`: so the same token is found, string literals aside.
-/

namespace Spreadsheet

open Text Number

/-! ## Characters -/

namespace Text

/-- A function of characters that does not tell upper from lower case. -/
def Folds {α : Type} (p : Char → α) : Prop :=
  ∀ c, p c.toUpper = p c

theorem Folds.eq {α : Type} {p : Char → α} (hp : Folds p) {c d : Char}
    (h : c.toUpper = d.toUpper) : p c = p d := by
  rw [← hp c, h, hp]

theorem toUpper_of_not_isLetter {c : Char} (h : isLetter c = false) : c.toUpper = c := by
  rw [← Bool.not_eq_true, isLetter_iff] at h
  rw [Char.toUpper, dif_neg]
  rintro ⟨hlow, hhigh⟩
  exact h (.inr ⟨UInt32.le_iff_toNat_le.mp hlow, UInt32.le_iff_toNat_le.mp hhigh⟩)

/-- It is enough to look at the letters. -/
theorem folds {α : Type} {p : Char → α}
    (upper : ∀ n < 26, p (Char.ofNat (65 + n)).toUpper = p (Char.ofNat (65 + n)))
    (lower : ∀ n < 26, p (Char.ofNat (97 + n)).toUpper = p (Char.ofNat (97 + n))) : Folds p := by
  intro c
  cases h : isLetter c with
  | true => exact Column.letter_induction h upper lower
  | false => rw [toUpper_of_not_isLetter h]

theorem toUpper_toUpper : Folds Char.toUpper :=
  folds (by decide) (by decide)

theorem isDigit_toUpper : Folds isDigit :=
  folds (by decide) (by decide)

theorem isLetter_toUpper : Folds isLetter :=
  folds (by decide) (by decide)

theorem isBlank_toUpper : Folds isBlank :=
  folds (by decide) (by decide)

theorem letterValue_toUpper : Folds Column.letterValue :=
  folds (by decide) (by decide)

/-- A character that is no letter has no other case. -/
theorem toUpper_eq_iff {c d : Char} (hd : isLetter d = false) : c.toUpper = d ↔ c = d := by
  constructor
  · rintro rfl
    rw [isLetter_toUpper] at hd
    rw [toUpper_of_not_isLetter hd]
  · rintro rfl
    exact toUpper_of_not_isLetter hd

/-- What is the same letter in upper case is the same character, if one of the two is no letter. -/
theorem eq_iff_of_toUpper_eq {c c' d : Char} (hd : isLetter d = false)
    (h : c'.toUpper = c.toUpper) : c' = d ↔ c = d := by
  rw [← toUpper_eq_iff hd, h, toUpper_eq_iff hd]

theorem beq_toUpper {d : Char} (hd : isLetter d = false) : Folds (· == d) := by
  intro c
  rw [Bool.eq_iff_iff, beq_iff_eq, beq_iff_eq, toUpper_eq_iff hd]

/-- The power of ten of a number is marked by the letter `e` in either case. -/
theorem isPowerMark_toUpper (c : Char) :
    (c.toUpper == 'e' || c.toUpper == 'E') = (c == 'e' || c == 'E') :=
  folds (p := fun c => c == 'e' || c == 'E') (by decide) (by decide) c

theorem upperChar_toUpper : Folds upperChar :=
  folds (by decide) (by decide)

/-! ## Lists of characters -/

/-- A text with its ASCII letters in upper case. -/
def folded (cs : List Char) : List Char :=
  cs.map Char.toUpper

theorem folded_cons (c : Char) (cs : List Char) : folded (c :: cs) = c.toUpper :: folded cs := rfl

theorem folded_append (cs ds : List Char) : folded (cs ++ ds) = folded cs ++ folded ds :=
  List.map_append

theorem folded_folded (cs : List Char) : folded (folded cs) = folded cs := by
  rw [folded, folded, List.map_map]
  exact List.map_congr_left fun c _ => toUpper_toUpper c

theorem length_folded (cs : List Char) : (folded cs).length = cs.length :=
  List.length_map _

theorem take_folded (cs : List Char) (n : Nat) : (folded cs).take n = folded (cs.take n) :=
  List.map_take.symm

theorem drop_folded (cs : List Char) (n : Nat) : (folded cs).drop n = folded (cs.drop n) :=
  List.map_drop.symm

theorem folded_eq_nil_iff {cs : List Char} : folded cs = [] ↔ cs = [] :=
  List.map_eq_nil_iff

theorem folded_reverse (cs : List Char) : (folded cs).reverse = folded cs.reverse :=
  List.map_reverse.symm

section

variable {p : Char → Bool} (hp : Folds p)
include hp

theorem comp_toUpper : p ∘ Char.toUpper = p :=
  funext hp

theorem takeWhile_folded (cs : List Char) :
    (folded cs).takeWhile p = folded (cs.takeWhile p) := by
  rw [folded, List.takeWhile_map, comp_toUpper hp, folded]

theorem dropWhile_folded (cs : List Char) :
    (folded cs).dropWhile p = folded (cs.dropWhile p) := by
  rw [folded, List.dropWhile_map, comp_toUpper hp, folded]

theorem all_folded (cs : List Char) : (folded cs).all p = cs.all p := by
  rw [folded, List.all_map, comp_toUpper hp]

theorem head?_any_folded (cs : List Char) : (folded cs).head?.any p = cs.head?.any p := by
  cases cs with
  | nil => rfl
  | cons c cs => exact hp c

end

theorem head?_folded_eq_iff {d : Char} (hd : isLetter d = false) (cs : List Char) :
    (folded cs).head? = some d ↔ cs.head? = some d := by
  cases cs with
  | nil => exact Iff.rfl
  | cons c cs => simp only [folded_cons, List.head?_cons, Option.some.injEq, toUpper_eq_iff hd]

/-- A character without another case stands in the folded text where it stands in the text. -/
theorem exists_of_folded_eq_cons {d : Char} (hd : isLetter d = false) {cs ds : List Char}
    (h : folded cs = d :: ds) : ∃ ds', cs = d :: ds' ∧ folded ds' = ds := by
  obtain ⟨c, ds', rfl, hc, hds⟩ := List.map_eq_cons_iff.mp h
  rw [toUpper_eq_iff hd] at hc
  exact ⟨ds', by rw [hc], hds⟩

theorem folded_ne_cons {d : Char} (hd : isLetter d = false) {cs : List Char}
    (h : ∀ ds, cs ≠ d :: ds) (ds : List Char) : folded cs ≠ d :: ds := by
  intro heq
  obtain ⟨ds', hcs, -⟩ := exists_of_folded_eq_cons hd heq
  exact h ds' hcs

/-- Digits have no case. -/
theorem folded_of_digits {cs : List Char} (h : cs.all isDigit = true) : folded cs = cs := by
  rw [List.all_eq_true] at h
  have hsame : ∀ c ∈ cs, c.toUpper = id c := fun c hc =>
    toUpper_of_not_isLetter (isLetter_of_isDigit (h c hc))
  rw [folded, List.map_congr_left hsame, List.map_id]

theorem takeWhile_digits_folded (cs : List Char) :
    (folded cs).takeWhile isDigit = cs.takeWhile isDigit := by
  rw [takeWhile_folded isDigit_toUpper, folded_of_digits]
  exact List.all_eq_true.mpr fun _ => List.mem_takeWhile_imp

theorem sameKeyword_folded (cs : List Char) (keyword : String) :
    sameKeyword (String.ofList (folded cs)) keyword = sameKeyword (String.ofList cs) keyword := by
  rw [sameKeyword, sameKeyword, String.toList_ofList, String.toList_ofList]
  exact congrArg (· == _) (folded_folded cs)

end Text

/-! ## Numbers -/

namespace Number

theorem splitSign_folded (cs : List Char) :
    splitSign (folded cs) = ((splitSign cs).1, folded (splitSign cs).2) := by
  unfold splitSign
  split
  · next ds h =>
    obtain ⟨ds', rfl, rfl⟩ := exists_of_folded_eq_cons (by decide) h
    rfl
  · next ds h =>
    obtain ⟨ds', rfl, rfl⟩ := exists_of_folded_eq_cons (by decide) h
    rfl
  · next hminus hplus =>
    split
    · next ds => exact absurd rfl (hminus (folded ds))
    · next ds => exact absurd rfl (hplus (folded ds))
    · rfl

theorem readDigits?_folded (cs : List Char) : readDigits? (folded cs) = readDigits? cs := by
  unfold readDigits?
  cases h : cs.all isDigit with
  | true => rw [folded_of_digits h, h]
  | false => rw [all_folded isDigit_toUpper, h, if_neg (by simp), if_neg (by simp)]

theorem readPower?_folded (cs : List Char) : readPower? (folded cs) = readPower? cs := by
  cases cs with
  | nil => rfl
  | cons c cs =>
    rw [folded_cons, readPower?, readPower?, isPowerMark_toUpper c, splitSign_folded]
    simp only [readDigits?_folded]

theorem readUnsigned?_folded (negative : Bool) (cs : List Char) :
    readUnsigned? negative (folded cs) = readUnsigned? negative cs := by
  unfold readUnsigned?
  rw [takeWhile_digits_folded, dropWhile_folded isDigit_toUpper]
  generalize cs.dropWhile isDigit = rest
  by_cases hpoint : ∃ ds, rest = '.' :: ds
  · obtain ⟨ds, rfl⟩ := hpoint
    have hcons : folded ('.' :: ds) = '.' :: folded ds := rfl
    simp only [hcons, takeWhile_digits_folded, dropWhile_folded isDigit_toUpper, readPower?_folded]
  · have hnone : ∀ ds, rest ≠ '.' :: ds := fun ds h => hpoint ⟨ds, h⟩
    dsimp only
    split
    · next ds h => exact absurd h (folded_ne_cons (by decide) hnone ds)
    · rw [readPower?_folded]

theorem readFloat?_folded (cs : List Char) : readFloat? (folded cs) = readFloat? cs := by
  have hdecimal : readDecimal? (folded cs) = readDecimal? cs := by
    rw [readDecimal?, readDecimal?, splitSign_folded]
    exact readUnsigned?_folded _ _
  rw [readFloat?, readFloat?, hdecimal, splitSign_folded]
  simp only [sameKeyword_folded]

end Number

/-! ## References -/

namespace Reference

theorem splitMark_folded (cs : List Char) :
    splitMark (folded cs) = ((splitMark cs).1, folded (splitMark cs).2) := by
  unfold splitMark
  split
  · next ds h =>
    obtain ⟨ds', rfl, rfl⟩ := exists_of_folded_eq_cons (by decide) h
    rfl
  · next hmark =>
    split
    · next ds => exact absurd rfl (hmark (folded ds))
    · rfl

theorem numberOf_folded (cs : List Char) : Column.numberOf (folded cs) = Column.numberOf cs := by
  rw [Column.numberOf, folded, List.foldl_map]
  simp only [letterValue_toUpper _]
  rfl

theorem toOption_ofLetters_folded (cs : List Char) :
    (Column.ofLetters (folded cs)).toOption = (Column.ofLetters cs).toOption := by
  simp only [Column.ofLetters, numberOf_folded, all_folded isLetter_toUpper, ne_eq,
    folded_eq_nil_iff]
  split <;> rfl

theorem toOption_bind_pure {ε α β : Type} (x : Except ε α) (f : α → β) :
    (x >>= fun a => pure (f a)).toOption = x.toOption.map f := by
  cases x <;> rfl

/-- What is read as a reference is read as the same one in upper case, and nothing else is. -/
theorem toOption_ofChars_folded (cs : List Char) :
    (ofChars (folded cs)).toOption = (ofChars cs).toOption := by
  unfold ofChars
  simp only [splitMark_folded, takeWhile_folded isLetter_toUpper, dropWhile_folded isLetter_toUpper,
    takeWhile_digits_folded, dropWhile_folded isDigit_toUpper]
  by_cases hempty : cs = []
  · rw [if_pos (folded_eq_nil_iff.mpr hempty), if_pos hempty]
    rfl
  rw [if_neg (mt folded_eq_nil_iff.mp hempty), if_neg hempty]
  generalize (splitMark cs).2 = rest
  by_cases hletters : rest.takeWhile isLetter = []
  · rw [if_pos (folded_eq_nil_iff.mpr hletters), if_pos hletters]
    rfl
  rw [if_neg (mt folded_eq_nil_iff.mp hletters), if_neg hletters]
  generalize splitMark (rest.dropWhile isLetter) = behind
  by_cases hend : behind.2.takeWhile isDigit = [] ∨ behind.2.dropWhile isDigit ≠ []
  · rw [if_pos (hend.imp_right (mt folded_eq_nil_iff.mp)), if_pos hend]
    rfl
  rw [if_neg (mt (Or.imp_right (mt folded_eq_nil_iff.mpr)) hend), if_neg hend]
  cases rowOfDigits (behind.2.takeWhile isDigit) with
  | error => rfl
  | ok row =>
    exact (toOption_bind_pure _ _).trans <|
      (congrArg _ (toOption_ofLetters_folded _)).trans (toOption_bind_pure _ _).symm

end Reference

namespace Formula

open Text

/-! ## Scanners -/

/-- The kind of a token, a name in upper case. -/
def TokenKind.folded : TokenKind → TokenKind
  | .name s => .name (String.ofList (Text.folded s.toList))
  | kind => kind

theorem nextSignificant?_folded_iff (cs : List Char) :
    nextSignificant? (folded cs) = some '(' ↔ nextSignificant? cs = some '(' := by
  have hparen : isLetter '(' = false := by decide
  have hcomp : (!isBlank ·) ∘ Char.toUpper = (!isBlank ·) :=
    funext fun c => congrArg (!·) (isBlank_toUpper c)
  rw [nextSignificant?, nextSignificant?, folded, List.find?_map, hcomp]
  cases cs.find? (!isBlank ·) with
  | none => exact Iff.rfl
  | some c => simp only [Option.map_some, Option.some.injEq, toUpper_eq_iff hparen]

namespace Scan

open Reference

theorem numberLength_folded (seenPoint seenPower : Bool) (cs : List Char) :
    numberLength seenPoint seenPower (folded cs) = numberLength seenPoint seenPower cs := by
  -- the three tests of a character, in upper case and as it stands
  have hdigit (c : Char) := isDigit_toUpper c
  have hpoint (c : Char) : (c.toUpper == '.') = (c == '.') := beq_toUpper (by decide) c
  have hmark (c : Char) := isPowerMark_toUpper c
  fun_induction numberLength seenPoint seenPower cs with
  | case1 => rfl
  | case2 _ _ c cs h ih =>
    rw [folded_cons, numberLength_of_digit (by rwa [hdigit]), ih]
  | case3 _ _ c cs h hp ih =>
    rw [folded_cons, numberLength_of_point (by rwa [hdigit]) (by rwa [hpoint]), ih]
  | case4 _ _ c h hp he cs ih =>
    have hcons : folded (c :: '+' :: cs) = c.toUpper :: '+' :: folded cs := rfl
    rw [hcons, numberLength_of_signedPower (by rwa [hdigit]) (by rwa [hpoint]) (by rwa [hmark])
      (.inl rfl), ih]
  | case5 _ _ c h hp he cs ih =>
    have hcons : folded (c :: '-' :: cs) = c.toUpper :: '-' :: folded cs := rfl
    rw [hcons, numberLength_of_signedPower (by rwa [hdigit]) (by rwa [hpoint]) (by rwa [hmark])
      (.inr rfl), ih]
  | case6 _ _ c h hp he cs hplus hminus ih =>
    rw [folded_cons, numberLength_of_power (by rwa [hdigit]) (by rwa [hpoint]) (by rwa [hmark])
      (folded_ne_cons (by decide) hplus) (folded_ne_cons (by decide) hminus), ih]
  | case7 _ _ c cs h hp he =>
    refine numberLength_eq_zero ?_
    rw [Bool.not_eq_true] at h hp he
    show inNumber _ _ c.toUpper = false
    rw [inNumber, hdigit, hpoint, hmark, h, hp, he]
    rfl

theorem nameLength_folded (cs : List Char) : nameLength (folded cs) = nameLength cs := by
  have hname : Folds fun c => isWordChar c || c == ' ' :=
    folds (by decide) (by decide)
  have hspace : Folds (· == ' ') := beq_toUpper (by decide)
  rw [nameLength, nameLength, takeWhile_folded hname, folded_reverse, dropWhile_folded hspace,
    length_folded]

theorem cellLength?_folded (cs : List Char) : cellLength? (folded cs) = cellLength? cs := by
  have hgoes : Folds fun c => isWordChar c || c == '$' := folds (by decide) (by decide)
  unfold cellLength?
  simp only [splitMark_folded, takeWhile_folded isLetter_toUpper, dropWhile_folded isLetter_toUpper,
    takeWhile_digits_folded, dropWhile_folded isDigit_toUpper, head?_any_folded hgoes,
    length_folded, ne_eq, folded_eq_nil_iff]

/-! ## What is found -/

/-- The folded kind of the token that is found, and the number of its characters behind the
first. -/
def found (x : Except Fault Scan) : Option (TokenKind × Nat) :=
  x.toOption.map fun scan => (scan.kind.folded, scan.more)

theorem found_ok (kind : TokenKind) (more : Nat) :
    found (.ok ⟨kind, more⟩) = some (kind.folded, more) := rfl

theorem found_number_folded (cs : List Char) : found (number (folded cs)) = found (number cs) := by
  unfold number
  simp only [numberLength_folded, take_folded, readFloat?_folded, all_folded isDigit_toUpper]
  split
  · split
    · next hdigits => rw [folded_of_digits hdigits]
    · rfl
  · rfl

theorem found_name_folded (cs : List Char) : found (name (folded cs)) = found (name cs) := by
  have hmark := head?_folded_eq_iff (d := '$') (by decide) cs
  unfold name
  by_cases hlone : cs.head? = some '$'
  · rw [if_pos (hmark.mpr hlone), if_pos hlone]
  rw [if_neg (mt hmark.mp hlone), if_neg hlone]
  simp only [nameLength_folded, take_folded, drop_folded, sameKeyword_folded,
    nextSignificant?_folded_iff]
  split
  · rw [found_ok, found_ok, TokenKind.folded, TokenKind.folded, String.toList_ofList,
      String.toList_ofList, folded_folded]
  · rfl

theorem toOption_reference (offset : Nat) (cs : List Char) :
    (reference offset cs).toOption = (ofChars cs).toOption := by
  unfold reference
  cases ofChars cs <;> rfl

theorem toOption_reference_folded (offset : Nat) (cs : List Char) :
    (reference offset (folded cs)).toOption = (reference offset cs).toOption := by
  rw [toOption_reference, toOption_reference, toOption_ofChars_folded]

/-- A scanner that reads a reference and then gives a token. -/
theorem found_bind_reference (offset : Nat) (cs : List Char) (f : Reference → Scan) :
    found (reference offset cs >>= fun r => pure (f r)) =
      (reference offset cs).toOption.map fun r => ((f r).kind.folded, (f r).more) := by
  rw [found, toOption_bind_pure, Option.map_map]
  rfl

theorem found_corner_folded (first : Reference) (offset : Nat) (cs : List Char) :
    found (corner first offset (folded cs)) = found (corner first offset cs) := by
  rw [corner, corner, cellLength?_folded]
  cases cellLength? cs with
  | none => rfl
  | some n =>
    dsimp only
    rw [found_bind_reference, found_bind_reference, take_folded, toOption_reference_folded]

/-- What has the shape of a cell is nothing else, unless it can be read and is called. -/
theorem found_word_of_cellLength? {cs : List Char} {n : Nat} (hn : cellLength? cs = some n) :
    found (word cs) = (reference 0 (cs.take n)).toOption.bind fun first =>
      found (if nextSignificant? (cs.drop n) = some '(' then name cs else
        match cs.drop n with
        | ':' :: rest => corner first (n + 1) rest
        | _ => .ok ⟨.cell first, n - 1⟩) := by
  cases hread : reference 0 (cs.take n) with
  | ok first =>
    rw [word_of_cellLength? hn hread]
    rfl
  | error fault =>
    unfold word
    rw [hn]
    simp only [hread]
    rfl

/-- A colon behind a cell is there in upper case, too, and nothing becomes one. -/
theorem found_behind_cell_folded (first : Reference) (n : Nat) (cs : List Char) :
    found (match folded cs with
      | ':' :: rest => corner first (n + 1) rest
      | _ => .ok ⟨.cell first, n - 1⟩) =
    found (match cs with
      | ':' :: rest => corner first (n + 1) rest
      | _ => .ok ⟨.cell first, n - 1⟩) := by
  by_cases hcolon : ∃ ds, cs = ':' :: ds
  · obtain ⟨ds, rfl⟩ := hcolon
    exact found_corner_folded first (n + 1) ds
  · have hnone : ∀ ds, cs ≠ ':' :: ds := fun ds h => hcolon ⟨ds, h⟩
    split
    · next ds h => exact absurd h (folded_ne_cons (by decide) hnone ds)
    · rfl

theorem found_word_folded (cs : List Char) : found (word (folded cs)) = found (word cs) := by
  have hlength := cellLength?_folded cs
  cases hn : cellLength? cs with
  | none =>
    rw [word_of_cellLength?_eq_none hn, word_of_cellLength?_eq_none (hlength.trans hn),
      found_name_folded]
  | some n =>
    rw [found_word_of_cellLength? hn, found_word_of_cellLength? (hlength.trans hn), take_folded,
      toOption_reference_folded]
    refine congrArg _ (funext fun first => ?_)
    rw [drop_folded]
    simp only [nextSignificant?_folded_iff]
    split
    · exact found_name_folded cs
    · exact found_behind_cell_folded first n (cs.drop n)

theorem startsNumber_folded (c : Char) (cs : List Char) :
    startsNumber c.toUpper (folded cs) = startsNumber c cs := by
  have hpoint : (c.toUpper == '.') = (c == '.') := beq_toUpper (by decide) c
  rw [startsNumber, startsNumber, isDigit_toUpper, hpoint, head?_any_folded isDigit_toUpper]

theorem startsWord_toUpper : Folds fun c => c == '$' || c == '_' || isLetter c :=
  folds (by decide) (by decide)

/-- The same token is found in a text and in its folded form, unless it is a string literal. -/
theorem found_token_folded {c : Char} (hc : c ≠ '"') (cs : List Char) :
    found (token c.toUpper (folded cs)) = found (token c cs) := by
  fun_cases token c cs
  case case13 hequal hgreater =>
    exact congrArg found (token_less (folded_ne_cons (by decide) hequal)
      (folded_ne_cons (by decide) hgreater))
  case case15 hequal =>
    exact congrArg found (token_greater (folded_ne_cons (by decide) hequal))
  case case16 => exact absurd rfl hc
  case case17 hnumber =>
    rw [token_eq_number ((startsNumber_folded c cs).trans hnumber)]
    exact found_number_folded (c :: cs)
  case case18 hfirst _ _ _ _ =>
    have hword := (startsWord_toUpper c).trans hfirst
    rw [Bool.or_eq_true, Bool.or_eq_true, beq_iff_eq, beq_iff_eq, or_assoc] at hword
    rw [token_eq_word hword]
    exact found_word_folded (c :: cs)
  case case19 hfirst _ _ _ hnumber =>
    have hletter : isLetter c = false :=
      (Bool.or_eq_false_iff.mp (Bool.eq_false_iff.mpr hfirst)).2
    rw [← head?_any_folded isDigit_toUpper cs] at hnumber
    rw [toUpper_of_not_isLetter hletter, token, if_neg hnumber, if_neg hfirst]
    all_goals first | assumption | exact fun _ heq _ => absurd heq ‹_›
  all_goals rfl

end Scan

end Formula

end Spreadsheet
