import Spreadsheet.Grid
import Spreadsheet.Proofs.Nearest
import Spreadsheet.Proofs.Numerals

/-!
# Readers of numbers

Three places read a number from a text: a formula that consists of it, a cell that it is typed into,
and a function that is given the text in place of a number. On a text without sign and without blanks
around it all three say the same, whether it is a number and which one.

The words `inf` and `nan` are numbers to the reader of doubles. They are no doubles that a cell keeps,
and to the tokenizer they are names, so that all three refuse them.

Results:
1. `exists_numeral_of_readFinite?`: the texts that are finite numbers are numerals;
2. `isNumberToken_iff`: a formula is one number token just if it is such a text;
3. `ofText_of_readFinite?`, `readFinite?_of_ofText`: a cell keeps a number just for such a text;
4. `readers_of_numbers_agree`: the three readers together.
-/

namespace Spreadsheet

open Text Number

namespace Text

/-! ## Trimmed texts -/

theorem trimStart_eq_self_of_trim {cs : List Char} (h : trim cs = cs) : trimStart cs = cs := by
  have hend : (trim cs).length ≤ (trimStart cs).length := by
    have hreverse : (trimStart cs).reverse.length = (trimStart cs).length := List.length_reverse
    rw [trim, trimEnd, List.length_reverse, ← hreverse]
    exact (List.dropWhile_sublist isBlank).length_le
  have hstart : (trimStart cs).Sublist cs := List.dropWhile_sublist isBlank
  rw [h] at hend
  exact hstart.eq_of_length_le hend

/-- A text with nothing to trim begins with no blank. -/
theorem isBlank_of_trim_cons {c : Char} {cs : List Char} (h : trim (c :: cs) = c :: cs) :
    isBlank c = false := by
  have hhead := List.head?_dropWhile_not isBlank (c :: cs)
  have hstart : (c :: cs).dropWhile isBlank = c :: cs := trimStart_eq_self_of_trim h
  rw [hstart] at hhead
  simpa using hhead

/-- And it ends with none. -/
theorem eq_nil_of_trim_append {cs blanks : List Char} (h : trim (cs ++ blanks) = cs ++ blanks)
    (hblanks : ∀ b ∈ blanks, isBlank b = true) : blanks = [] := by
  have hend : ((cs ++ blanks).reverse.dropWhile isBlank).reverse = cs ++ blanks := by
    have hstart := trimStart_eq_self_of_trim h
    rwa [trim, trimEnd, hstart] at h
  have hlength := congrArg List.length hend
  have hrest := (List.dropWhile_sublist (l := cs.reverse) isBlank).length_le
  rw [List.reverse_append, List.dropWhile_append_of_pos fun b hb =>
    hblanks b (List.mem_reverse.mp hb)] at hlength
  rw [List.length_reverse, List.length_append] at hlength
  rw [List.length_reverse] at hrest
  exact List.length_eq_zero_iff.mp (by omega)

end Text

namespace Number

open Float.Model.UnpackedFloat (Sign)

/-! ## Finite numbers -/

theorem not_isFinite_infinity (negative : Bool) :
    (withSign negative infinity).isFinite = false := by
  cases negative <;> rfl

theorem not_isFinite_notANumber : notANumber.isFinite = false := by
  rfl

theorem readFinite?_eq_some_iff {cs : List Char} {x : Float} :
    readFinite? cs = some x ↔ readFloat? cs = some x ∧ x.isFinite = true :=
  Option.filter_eq_some_iff

theorem readFloat?_of_readDecimal? {cs : List Char} {d : Decimal} (h : readDecimal? cs = some d) :
    readFloat? cs = some d.toFloat := by
  rw [readFloat?, h]

/-- The words for infinity and NaN are no finite numbers. -/
theorem readFinite?_eq_some_iff_decimal {cs : List Char} {x : Float} : readFinite? cs = some x ↔
    ∃ d, readDecimal? cs = some d ∧ d.toFloat = x ∧ x.isFinite = true := by
  rw [readFinite?_eq_some_iff]
  constructor
  · rintro ⟨h, hfinite⟩
    unfold readFloat? at h
    split at h
    · next d hd => exact ⟨d, hd, Option.some.inj h, hfinite⟩
    · dsimp only at h
      split at h
      · rw [← Option.some.inj h, not_isFinite_infinity] at hfinite
        exact nomatch hfinite
      · split at h
        · rw [← Option.some.inj h, not_isFinite_notANumber] at hfinite
          exact nomatch hfinite
        · exact nomatch h
  · rintro ⟨d, hd, rfl, hfinite⟩
    exact ⟨readFloat?_of_readDecimal? hd, hfinite⟩

/-- A text without sign that is a finite number is a numeral. -/
theorem exists_numeral_of_readFinite? {cs : List Char} {x : Float} (hplus : cs.head? ≠ some '+')
    (hminus : cs.head? ≠ some '-') (h : readFinite? cs = some x) : ∃ p : Numeral, p.chars = cs := by
  obtain ⟨d, hd, -⟩ := readFinite?_eq_some_iff_decimal.mp h
  have hread : readDecimal? cs = readUnsigned? false cs :=
    readDecimal?_signed hplus hminus .positive
  obtain ⟨p, hp, -⟩ := readUnsigned?_eq_some_iff.mp (hread.symm.trans hd)
  exact ⟨p, hp⟩

/-- The digits of a word are few, so that its double is computed. -/
theorem toFloat_of_lt {n : Nat} (negative : Bool) (hn : n < 2 ^ 64) :
    (Decimal.mk negative n 0).toFloat = withSign negative (Float.ofNat n) := by
  rw [Decimal.toFloat]
  dsimp only
  have hlength : (decimal n).length ≤ 20 :=
    length_decimal_le (hn.trans (by decide)) (by decide)
  by_cases hzero : n = 0
  · subst hzero
    rw [decide_eq_true rfl, Bool.true_or, if_pos rfl]
    rfl
  · have hlow : ¬((decimal n).length : Int) + 0 < -330 := by omega
    have hhigh : ¬310 < ((decimal n).length : Int) + 0 := by omega
    rw [decide_eq_false hzero, decide_eq_false hlow, Bool.false_or, if_neg Bool.false_ne_true,
      if_neg hhigh]
    rfl

theorem isFinite_withSign {x : Float} {b : Int} (h : Fits b (parts x)) (hb : b ≤ 971)
    (negative : Bool) : (withSign negative x).isFinite = true := by
  cases negative with
  | false => exact isFinite_of_fits h
  | true => exact isFinite_pack (h.mono hb).neg.1

/-- An integer is a finite number too. -/
theorem exists_readFinite?_of_readInt64? {p : Numeral} {s : Sign} {n : Int64}
    (h : readInt64? (signed s p.chars) = some n) :
    ∃ x, readFinite? (signed s p.chars) = some x := by
  obtain ⟨k, hdecimal, hn⟩ := p.of_readInt64? s h
  have hword : k < 2 ^ 64 := by
    have hlow := n.le_toInt
    have hhigh := n.toInt_lt
    rw [hn] at hlow hhigh
    cases s <;> simp only [Sign.apply] at hlow hhigh <;> omega
  refine ⟨_, readFinite?_eq_some_iff_decimal.mpr ⟨_, p.readDecimal?_signed_chars s, rfl, ?_⟩⟩
  rw [hdecimal, toFloat_of_lt _ hword]
  exact isFinite_withSign (parts_ofNat hword).1 (by decide) _

end Number

namespace Formula

/-! ## Number tokens -/

def TokenKind.isNumber : TokenKind → Bool
  | .number _ _ => true
  | _ => false

namespace Scan

/-- The scan, if there is one, is not of a number. -/
def NoNumber (x : Except Fault Scan) : Prop :=
  ∀ scan, x = .ok scan → scan.kind.isNumber = false

theorem NoNumber.error (fault : Fault) : NoNumber (.error fault) :=
  fun _ h => nomatch h

theorem NoNumber.ok {kind : TokenKind} (h : kind.isNumber = false) (more : Nat) :
    NoNumber (.ok ⟨kind, more⟩) := by
  rintro _ ⟨⟩
  exact h

variable {c : Char} {cs : List Char}

theorem string_noNumber (cs : List Char) : NoNumber (string cs) := by
  unfold string
  split
  · exact .ok rfl _
  · exact .error _

theorem name_noNumber (cs : List Char) : NoNumber (name cs) := by
  unfold name
  dsimp only
  split
  · exact .error _
  · split
    · exact .ok rfl _
    · exact .error _

theorem corner_noNumber (first : Reference) (offset : Nat) (cs : List Char) :
    NoNumber (corner first offset cs) := by
  unfold corner
  split
  · cases reference offset (cs.take _) with
    | error fault => exact .error fault
    | ok last => exact .ok rfl _
  · exact .error _

theorem word_noNumber (cs : List Char) : NoNumber (word cs) := by
  unfold word
  split
  · exact name_noNumber cs
  · next n _ =>
    cases reference 0 (cs.take n) with
    | error fault => exact .error fault
    | ok first =>
      dsimp only [Bind.bind, Except.bind]
      split
      · exact name_noNumber cs
      · split
        · exact corner_noNumber first _ _
        · exact .ok rfl _

/-- A number token begins like a number. -/
theorem startsNumber_of_token {value : Float} {int : Option Int64} {n : Nat}
    (h : token c cs = .ok ⟨.number value int, n⟩) : startsNumber c cs = true := by
  by_contra hstart
  suffices hno : NoNumber (token c cs) from nomatch hno _ h
  unfold token
  split
  case h_16 => exact string_noNumber _
  case h_17 =>
    rw [startsNumber] at hstart
    rw [if_neg hstart]
    split
    · exact word_noNumber _
    · exact .error _
  all_goals exact .ok rfl _

/-- What a number token says of its text. -/
theorem number_eq_ok_iff {value : Float} {int : Option Int64}
    (hlength : numberLength false false (c :: cs) = (c :: cs).length) :
    number (c :: cs) = .ok ⟨.number value int, cs.length⟩ ↔ readFloat? (c :: cs) = some value ∧
      (if (c :: cs).all isDigit then readInt64? (c :: cs) else none) = int := by
  have hmore : (c :: cs).length - 1 = cs.length := rfl
  rw [number, hlength, List.take_length, hmore]
  cases readFloat? (c :: cs) with
  | none => simp
  | some x => simp

end Scan

open Scan

/-- A text that is one number token, finite, and nothing else. -/
def IsNumberToken (text : String) (value : Float) (int : Option Int64) : Prop :=
  (∃ ts, tokenize text = .ok ts ∧ ts.map Token.kind = [.number value int, .eof]) ∧
    value.isFinite = true

/-- The scanner of numbers takes all of a text that is one number token. -/
theorem exists_of_tokenize {text : String} {value : Float} {int : Option Int64} {ts : List Token}
    (htrim : trim text.toList = text.toList) (h : tokenize text = .ok ts)
    (hkinds : ts.map Token.kind = [.number value int, .eof]) :
    ∃ c cs, text.toList = c :: cs ∧ token c cs = .ok ⟨.number value int, cs.length⟩ := by
  rw [tokenize, tokensFrom_eq_ok_iff] at h
  generalize text.toList = chars at htrim h
  cases chars with
  | nil =>
    obtain ⟨rfl⟩ := tokensFrom_nil 0 ▸ h.tokensFrom_eq
    have hkind : TokenKind.eof = .number value int := (List.cons.inj hkinds).1
    cases hkind
  | cons c cs =>
    obtain ⟨kind, chars, rest, ts', rfl, htoken, rfl, hrest⟩ :=
      h.exists_of_cons (isBlank_of_trim_cons htrim)
    obtain ⟨hkind, hend⟩ := List.cons.inj hkinds
    replace hkind : kind = .number value int := hkind
    -- only blanks have an end token alone behind them
    have hblanks : ∀ b ∈ rest, isBlank b = true := by
      cases hrest with
      | last hblanks => exact hblanks
      | token _ _ _ hmore =>
        cases hmore <;> exact absurd (List.cons.inj hend).2 (List.cons_ne_nil _ _)
    have hwhole : trim ((c :: chars) ++ rest) = (c :: chars) ++ rest := htrim
    obtain rfl := eq_nil_of_trim_append hwhole hblanks
    rw [List.append_nil] at htoken ⊢
    exact ⟨c, chars, rfl, hkind ▸ htoken⟩

section

variable {text : String} {value : Float} {int : Option Int64}
  (hplus : text.toList.head? ≠ some '+') (hminus : text.toList.head? ≠ some '-')
  (htrim : trim text.toList = text.toList)
include hplus hminus htrim

/-- The integer of a number token is what the reader of integers finds: it refuses all texts that have
more than digits. -/
theorem isNumberToken_iff : IsNumberToken text value int ↔
    readFinite? text.toList = some value ∧ readInt64? text.toList = int := by
  have hint : (if text.toList.all isDigit then readInt64? text.toList else none) =
      readInt64? text.toList := by
    split
    · rfl
    · next hall =>
      refine (Option.eq_none_iff_forall_ne_some.mpr fun n hn => ?_).symm
      have hdigits := ((readInt64?_eq_some_iff (s := .positive) hplus hminus).mp hn).2.1
      exact hall (List.all_eq_true.mpr hdigits)
  rw [← hint, readFinite?_eq_some_iff]
  constructor
  · rintro ⟨⟨ts, hts, hkinds⟩, hfinite⟩
    obtain ⟨c, cs, hcs, htoken⟩ := exists_of_tokenize htrim hts hkinds
    have hnumber := token_eq_number (startsNumber_of_token htoken) ▸ htoken
    have hlength : numberLength false false (c :: cs) = (c :: cs).length := by
      have hmore := length_of_number hnumber
      have hle := numberLength_le false false (c :: cs)
      have hpos : 0 < numberLength false false (c :: cs) := by
        by_contra hzero
        have htake : (c :: cs).take (numberLength false false (c :: cs)) = [] := by
          rw [Nat.eq_zero_of_not_pos hzero, List.take_zero]
        rw [number, htake] at hnumber
        exact nomatch hnumber
      rw [List.length_cons] at hle ⊢
      omega
    rw [hcs]
    obtain ⟨hread, hint⟩ := (number_eq_ok_iff hlength).mp hnumber
    exact ⟨⟨hread, hfinite⟩, hint⟩
  · rintro ⟨⟨hread, hfinite⟩, hint⟩
    obtain ⟨p, hp⟩ := exists_numeral_of_readFinite? hplus hminus
      (readFinite?_eq_some_iff.mpr ⟨hread, hfinite⟩)
    obtain ⟨c, cs, hcs, hstart⟩ := p.exists_of_chars
    have hlength := p.numberLength_chars
    have hblank : isBlank c = false := p.isBlank_of_mem_chars (hcs ▸ List.mem_cons_self)
    rw [← hp, hcs] at hread hint
    rw [hcs] at hlength
    have htoken := (token_eq_number hstart).trans ((number_eq_ok_iff hlength).mpr ⟨hread, hint⟩)
    have hts : tokensFrom 0 (c :: cs) = _ := tokensFrom_of_token hblank htoken
    rw [← hcs, hp] at hts
    exact ⟨⟨_, hts, rfl⟩, hfinite⟩

end

end Formula

/-! ## Cells -/

section

open Float.Model.UnpackedFloat (Sign)

variable {text : String}

/-- The value that a cell keeps of a number: an integer if it is one that fits. -/
def numberValue (int : Option Int64) (x : Float) : Value :=
  match int with
  | some n => .int n
  | none => .float x

theorem isNumber_numberValue (int : Option Int64) (x : Float) :
    (numberValue int x).isNumber = true := by
  cases int <;> rfl

/-- What a numeral begins with, perhaps behind a minus sign: not with a letter. -/
theorem exists_of_signed (p : Numeral) (s : Sign) :
    ∃ c cs, signed s p.chars = c :: cs ∧ 45 ≤ c.toNat ∧ c.toNat ≤ 57 := by
  cases s with
  | negative => exact ⟨'-', p.chars, rfl, by decide, by decide⟩
  | positive =>
    obtain ⟨c, cs, hcs, hstart⟩ := p.exists_of_chars
    rw [Formula.Scan.startsNumber, Bool.or_eq_true, Bool.and_eq_true, beq_iff_eq,
      isDigit_iff] at hstart
    refine ⟨c, cs, hcs, ?_⟩
    rcases hstart with hdigit | ⟨rfl, -⟩
    · omega
    · decide

/-- So it is no word that begins with one. -/
theorem not_sameKeyword_of_cons {c : Char} {cs : List Char} {word : String} (h : c.toNat ≤ 57)
    (hword : word.toList.head?.any (fun d => 57 < d.toUpper.toNat) = true) :
    sameKeyword (String.ofList (c :: cs)) word = false := by
  have hupper : c.toUpper = c := by
    rw [Char.toUpper]
    exact dif_neg fun hletter => absurd hletter.1 (by
      show ¬(97 : Nat) ≤ c.toNat
      omega)
  rw [sameKeyword, String.toList_ofList, beq_eq_false_iff_ne, List.map_cons, hupper]
  intro heq
  cases hchars : word.toList with
  | nil =>
    rw [hchars] at hword
    exact absurd hword Bool.false_ne_true
  | cons d ds =>
    rw [hchars, List.map_cons] at heq
    rw [hchars, List.head?_cons, Option.any_some, decide_eq_true_iff,
      ← (List.cons.inj heq).1] at hword
    omega

/-- A cell keeps a number for a numeral that is a finite number. -/
theorem ofText_of_readFinite? {p : Numeral} {s : Sign} {x : Float}
    (htext : text.toList = signed s p.chars) (h : readFinite? text.toList = some x) :
    Content.ofText text = .literal (numberValue (readInt64? text.toList) x) := by
  obtain ⟨c, cs, hcs, hlow, hhigh⟩ := exists_of_signed p s
  have htrim : trim text.toList = text.toList :=
    htext ▸ trim_eq_self fun _ hc => p.isBlank_of_mem_signed s hc
  have hchars : text.toList = c :: cs := htext.trans hcs
  have hliteral : literalOf text = numberValue (readInt64? text.toList) x := by
    have htrue : sameKeyword (String.ofList text.toList) "TRUE" = false :=
      hchars ▸ not_sameKeyword_of_cons hhigh (by decide)
    have hfalse : sameKeyword (String.ofList text.toList) "FALSE" = false :=
      hchars ▸ not_sameKeyword_of_cons hhigh (by decide)
    rw [literalOf, htrim, htrue, hfalse, if_neg Bool.false_ne_true, if_neg Bool.false_ne_true, h]
    cases readInt64? text.toList <;> rfl
  rw [Content.ofText, htrim, hliteral]
  split
  · next hnil => exact nomatch hnil.symm.trans hchars
  · next hequal =>
    obtain ⟨rfl, -⟩ := List.cons.inj (hequal.symm.trans hchars)
    exact absurd hhigh (by decide)
  · rfl

variable (hplus : text.toList.head? ≠ some '+') (hminus : text.toList.head? ≠ some '-')
  (htrim : trim text.toList = text.toList)
include hplus hminus htrim

/-- It keeps none for another text. -/
theorem readFinite?_of_ofText {v : Value} (h : Content.ofText text = .literal v)
    (hv : v.isNumber = true) : ∃ x, readFinite? text.toList = some x := by
  have hliteral : literalOf text = v := by
    unfold Content.ofText at h
    split at h
    · exact nomatch h
    · exact nomatch h
    · exact Content.literal.inj h
  rw [literalOf, htrim] at hliteral
  split at hliteral
  · exact absurd hv (by rw [← hliteral]; exact Bool.false_ne_true)
  · split at hliteral
    · exact absurd hv (by rw [← hliteral]; exact Bool.false_ne_true)
    · split at hliteral
      · next n hn =>
        obtain ⟨hne, hall, -⟩ := (readInt64?_eq_some_iff (s := .positive) hplus hminus).mp hn
        rw [← Numeral.chars_ofDigits _ hne hall] at hn ⊢
        exact exists_readFinite?_of_readInt64? (s := .positive) hn
      · split at hliteral
        · next x hx => exact ⟨x, hx⟩
        · exact absurd hv (by rw [← hliteral]; exact Bool.false_ne_true)

omit hplus hminus in
theorem toNumber_text_eq_ok_iff {x : Float} :
    (Value.text text).toNumber = .ok x ↔ readFinite? text.toList = some x := by
  have hread : Value.numberOfText? text = readFinite? text.toList := by
    rw [Value.numberOfText?, htrim]
  have hnumber : (Value.text text).toNumber =
      (Value.numberOfText? text).elim (.error .value) .ok := by
    have hscalar : (Value.text text).scalar = .ok (.text text) := rfl
    simp only [Value.toNumber, hscalar, bind, Except.bind]
    cases Value.numberOfText? text <;> rfl
  rw [hnumber, hread]
  cases readFinite? text.toList <;> simp

end

/-- The tokenizer, a cell and a conversion to a number agree on every text that has no sign in front
and no blanks around it: whether it is a number, and which one. -/
theorem readers_of_numbers_agree (text : String) (hplus : text.toList.head? ≠ some '+')
    (hminus : text.toList.head? ≠ some '-') (htrim : trim text.toList = text.toList) :
    ((∃ value int, Formula.IsNumberToken text value int) ↔
      ∃ v : Value, v.isNumber = true ∧ Content.ofText text = .literal v) ∧
    ((∃ value int, Formula.IsNumberToken text value int) ↔
      ∃ x, (Value.text text).toNumber = .ok x) ∧
    ∀ value int, Formula.IsNumberToken text value int →
      Content.ofText text = .literal (numberValue int value) ∧
        (Value.text text).toNumber = .ok value := by
  simp only [Formula.isNumberToken_iff hplus hminus htrim, toNumber_text_eq_ok_iff htrim]
  have hcell : ∀ {x}, readFinite? text.toList = some x →
      Content.ofText text = .literal (numberValue (readInt64? text.toList) x) := by
    intro x hx
    obtain ⟨p, hp⟩ := exists_numeral_of_readFinite? hplus hminus hx
    exact ofText_of_readFinite? (s := .positive) hp.symm hx
  refine ⟨⟨?_, ?_⟩, ⟨?_, ?_⟩, ?_⟩
  · rintro ⟨value, int, hvalue, -⟩
    exact ⟨_, isNumber_numberValue _ _, hcell hvalue⟩
  · rintro ⟨v, hv, h⟩
    obtain ⟨x, hx⟩ := readFinite?_of_ofText hplus hminus htrim h hv
    exact ⟨x, _, hx, rfl⟩
  · rintro ⟨value, int, hvalue, -⟩
    exact ⟨value, hvalue⟩
  · rintro ⟨x, hx⟩
    exact ⟨x, _, hx, rfl⟩
  · rintro value int ⟨hvalue, rfl⟩
    exact ⟨hcell hvalue, hvalue⟩

/-- A number with a power of ten is a number token, and the other two read the same number. -/
theorem readers_of_numbers_agree_power :
    "2.5e3".toList.head? ≠ some '+' ∧ "2.5e3".toList.head? ≠ some '-' ∧
      trim "2.5e3".toList = "2.5e3".toList ∧ Formula.IsNumberToken "2.5e3" 2500 none ∧
      Content.ofText "2.5e3" = .literal (.float 2500) ∧
      (Value.text "2.5e3").toNumber = .ok 2500 := by
  have hplus : "2.5e3".toList.head? ≠ some '+' := by decide
  have hminus : "2.5e3".toList.head? ≠ some '-' := by decide
  have htrim : trim "2.5e3".toList = "2.5e3".toList := by decide
  have htoken : Formula.IsNumberToken "2.5e3" 2500 none :=
    (Formula.isNumberToken_iff hplus hminus htrim).mpr ⟨by decide +kernel, by decide⟩
  obtain ⟨-, -, hagree⟩ := readers_of_numbers_agree "2.5e3" hplus hminus htrim
  exact ⟨hplus, hminus, htrim, htoken, hagree _ _ htoken⟩

end Spreadsheet
