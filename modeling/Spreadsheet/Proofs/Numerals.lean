import Spreadsheet.Proofs.Blanks
import Spreadsheet.Proofs.Spelling

/-!
# Numerals

The text of a number without sign has digits, perhaps a point with digits behind it, and perhaps a
power of ten. There is a digit on one side of the point at least. `Numeral` is such a text taken
apart.

Two readers meet it. One cuts the text at its end: it walks over the characters and remembers which
of the marks it has seen, but neither counts digits nor looks at what it has read. The other takes the
text apart and computes the number. All that the second one takes, the first one walks over to the
end.

Results:
1. `readUnsigned?_eq_some_iff`: which texts are read, and as what;
2. `Numeral.numberLength_chars`: the tokenizer walks over all of them;
3. `Numeral.isBlank_of_mem_chars`, `Numeral.exists_of_chars`: what stands in them, and what in front;
4. `readDecimal?_signed`, `readInt64?_eq_some_iff`: numerals behind a minus sign, and which of them are
   integers as well.
-/

namespace Spreadsheet.Number

open Float.Model.UnpackedFloat (Sign)
open Text Formula.Scan
open Spelling (takeWhile_append dropWhile_append)

/-! ## Digits -/

theorem readDigits?_eq_some_iff {cs : List Char} {n : Nat} :
    readDigits? cs = some n ↔ cs ≠ [] ∧ (∀ c ∈ cs, isDigit c = true) ∧ digitsValue cs = n := by
  simp only [readDigits?, Option.ite_none_right_eq_some, Option.some.injEq, List.all_eq_true,
    and_assoc]

/-- Digits are no sign. -/
theorem splitSign_of_digits {cs : List Char} (h : ∀ c ∈ cs, isDigit c = true) :
    splitSign cs = (false, cs) := by
  unfold splitSign
  split
  · exact nomatch h '-' List.mem_cons_self
  · exact nomatch h '+' List.mem_cons_self
  · rfl

/-- What does not begin with a sign has none. -/
theorem splitSign_of_head {cs : List Char} (hplus : cs.head? ≠ some '+')
    (hminus : cs.head? ≠ some '-') : splitSign cs = (false, cs) := by
  unfold splitSign
  split
  · exact absurd rfl hminus
  · exact absurd rfl hplus
  · rfl

/-! ## Parts -/

/-- A power of ten, taken apart: `e` in either case, perhaps a sign, and digits. -/
structure Power where
  mark : Char
  sign : Option Char
  digits : List Char
  isMark : mark = 'e' ∨ mark = 'E'
  isSign : ∀ c, sign = some c → c = '+' ∨ c = '-'
  digits_ne_nil : digits ≠ []
  isDigit_of_mem : ∀ c ∈ digits, isDigit c = true

namespace Power

/-- The text. -/
def chars (p : Power) : List Char :=
  p.mark :: (p.sign.toList ++ p.digits)

/-- The exponent. -/
def value (p : Power) : Int :=
  if p.sign = some '-' then -(digitsValue p.digits : Int) else digitsValue p.digits

theorem splitSign_eq (p : Power) :
    splitSign (p.sign.toList ++ p.digits) = (decide (p.sign = some '-'), p.digits) := by
  cases hsign : p.sign with
  | none => exact splitSign_of_digits p.isDigit_of_mem
  | some c =>
    obtain rfl | rfl := p.isSign c hsign
    · rfl
    · rfl

/-- Behind the mark there is an integer with or without a sign. -/
theorem readPower?_cons {c : Char} (hc : c = 'e' ∨ c = 'E') (cs : List Char) :
    readPower? (c :: cs) = (readDigits? (splitSign cs).2).map fun n : Nat =>
      if (splitSign cs).1 = true then -(n : Int) else n := by
  have hmark : (c == 'e' || c == 'E') = true := by
    rcases hc with rfl | rfl <;> rfl
  rw [readPower?, if_pos hmark]
  dsimp only
  cases readDigits? (splitSign cs).2 <;> rfl

theorem readPower?_chars (p : Power) : readPower? p.chars = some p.value := by
  have hdigits : readDigits? p.digits = some (digitsValue p.digits) :=
    readDigits?_eq_some_iff.mpr ⟨p.digits_ne_nil, p.isDigit_of_mem, rfl⟩
  rw [chars, readPower?_cons p.isMark, splitSign_eq, hdigits, Option.map_some, value]
  simp only [decide_eq_true_eq]

/-- A sign that was split off is there. -/
theorem exists_of_splitSign (cs : List Char) : ∃ sign : Option Char,
    (∀ c, sign = some c → c = '+' ∨ c = '-') ∧ cs = sign.toList ++ (splitSign cs).2 ∧
      ((splitSign cs).1 = true ↔ sign = some '-') := by
  unfold splitSign
  split
  · exact ⟨some '-', by simp, rfl, by simp⟩
  · exact ⟨some '+', by simp, rfl, by simp⟩
  · exact ⟨none, nofun, rfl, by simp⟩

end Power

/-- The text of a power of ten, which may be missing. -/
def powerChars (power : Option Power) : List Char :=
  power.elim [] Power.chars

theorem readPower?_eq_some_iff {cs : List Char} {k : Int} : readPower? cs = some k ↔
    ∃ power : Option Power, powerChars power = cs ∧ power.elim 0 Power.value = k := by
  constructor
  · intro h
    cases cs with
    | nil => exact ⟨none, rfl, Option.some.inj h⟩
    | cons c cs =>
      by_cases hmark : c = 'e' ∨ c = 'E'
      · obtain ⟨sign, hsign, hsplit, hminus⟩ := Power.exists_of_splitSign cs
        rw [Power.readPower?_cons hmark] at h
        obtain ⟨n, hn, hk⟩ := Option.map_eq_some_iff.mp h
        obtain ⟨hne, hall, rfl⟩ := readDigits?_eq_some_iff.mp hn
        refine ⟨some ⟨c, sign, (splitSign cs).2, hmark, hsign, hne, hall⟩, ?_, ?_⟩
        · exact congrArg (c :: ·) hsplit.symm
        · rw [← hk, Option.elim_some, Power.value]
          simp only [hminus]
      · rw [readPower?, if_neg (by simpa using hmark)] at h
        exact nomatch h
  · rintro ⟨power, rfl, rfl⟩
    cases power with
    | none => rfl
    | some p => exact p.readPower?_chars

/-- The digits behind a point, and what is behind them. -/
def splitPoint (cs : List Char) : List Char × List Char :=
  match cs with
  | '.' :: rest => (rest.takeWhile isDigit, rest.dropWhile isDigit)
  | _ => ([], cs)

theorem readUnsigned?_eq (negative : Bool) (cs : List Char) : readUnsigned? negative cs =
    (readDigits? (cs.takeWhile isDigit ++ (splitPoint (cs.dropWhile isDigit)).1)).bind fun n =>
      (readPower? (splitPoint (cs.dropWhile isDigit)).2).map fun k =>
        ⟨negative, n, k - (splitPoint (cs.dropWhile isDigit)).1.length⟩ := by
  have hmap : ∀ (o : Option Int) (f : Int → Decimal),
      (o.bind fun k => some (f k)) = o.map f := by
    intro o f
    cases o <;> rfl
  simp only [← hmap]
  rfl

/-- A point that was split off is there. -/
theorem exists_of_splitPoint (cs : List Char) : ∃ fraction : Option (List Char),
    (splitPoint cs).1 = fraction.getD [] ∧
      cs = fraction.elim [] ('.' :: ·) ++ (splitPoint cs).2 := by
  unfold splitPoint
  split
  · next rest =>
    refine ⟨some (rest.takeWhile isDigit), rfl, ?_⟩
    exact congrArg ('.' :: ·) (List.takeWhile_append_dropWhile).symm
  · exact ⟨none, rfl, rfl⟩

/-- The text of a number without sign, taken apart. -/
structure Numeral where
  whole : List Char
  /-- The digits behind the point, if there is one. -/
  fraction : Option (List Char)
  power : Option Power
  isDigit_of_mem_whole : ∀ c ∈ whole, isDigit c = true
  isDigit_of_mem_fraction : ∀ c ∈ fraction.getD [], isDigit c = true
  digits_ne_nil : whole ++ fraction.getD [] ≠ []

namespace Numeral

/-- The point and the digits behind it. -/
def pointed (p : Numeral) : List Char :=
  p.fraction.elim [] ('.' :: ·)

/-- The text. -/
def chars (p : Numeral) : List Char :=
  p.whole ++ (p.pointed ++ powerChars p.power)

/-- The digits on both sides of the point. -/
def digits (p : Numeral) : List Char :=
  p.whole ++ p.fraction.getD []

/-- The number, with a sign in front. -/
def decimal (negative : Bool) (p : Numeral) : Decimal :=
  ⟨negative, digitsValue p.digits, p.power.elim 0 Power.value - (p.fraction.getD []).length⟩

variable (p : Numeral)

theorem isDigit_of_mem_digits : ∀ c ∈ p.digits, isDigit c = true :=
  List.forall_mem_append.mpr ⟨p.isDigit_of_mem_whole, p.isDigit_of_mem_fraction⟩

/-- Digits do not go on with a power of ten, so that they end where it begins. -/
theorem head_powerChars (power : Option Power) :
    (powerChars power).head?.any isDigit = false := by
  cases power with
  | none => rfl
  | some p => rcases p.isMark with h | h <;> simp [powerChars, Power.chars, h, isDigit]

theorem head_behindWhole : (p.pointed ++ powerChars p.power).head?.any isDigit = false := by
  unfold pointed
  cases p.fraction with
  | none => exact head_powerChars p.power
  | some ds => rfl

theorem splitPoint_eq :
    splitPoint (p.pointed ++ powerChars p.power) = (p.fraction.getD [], powerChars p.power) := by
  have hfraction := p.isDigit_of_mem_fraction
  unfold pointed
  cases hpoint : p.fraction with
  | none =>
    cases hpower : p.power with
    | none => rfl
    | some q => rcases q.isMark with h | h <;> simp [splitPoint, powerChars, Power.chars, h]
  | some ds =>
    rw [hpoint] at hfraction
    exact Prod.ext (takeWhile_append hfraction (head_powerChars p.power))
      (dropWhile_append hfraction (head_powerChars p.power))

/-- A numeral is read. -/
theorem readUnsigned?_chars (negative : Bool) :
    readUnsigned? negative p.chars = some (p.decimal negative) := by
  have hdigits : readDigits? p.digits = some (digitsValue p.digits) :=
    readDigits?_eq_some_iff.mpr ⟨p.digits_ne_nil, p.isDigit_of_mem_digits, rfl⟩
  have hpower : readPower? (powerChars p.power) = some (p.power.elim 0 Power.value) :=
    readPower?_eq_some_iff.mpr ⟨p.power, rfl, rfl⟩
  rw [readUnsigned?_eq, chars, takeWhile_append p.isDigit_of_mem_whole p.head_behindWhole,
    dropWhile_append p.isDigit_of_mem_whole p.head_behindWhole, splitPoint_eq]
  dsimp only
  rw [← digits, hdigits, hpower]
  rfl

end Numeral

/-- The texts that are read as a number without sign, and the numbers. -/
theorem readUnsigned?_eq_some_iff {negative : Bool} {cs : List Char} {d : Decimal} :
    readUnsigned? negative cs = some d ↔ ∃ p : Numeral, p.chars = cs ∧ p.decimal negative = d := by
  constructor
  · intro h
    rw [readUnsigned?_eq] at h
    obtain ⟨n, hn, h⟩ := Option.bind_eq_some_iff.mp h
    obtain ⟨k, hk, h⟩ := Option.map_eq_some_iff.mp h
    obtain ⟨hne, hall, rfl⟩ := readDigits?_eq_some_iff.mp hn
    obtain ⟨power, hpower, rfl⟩ := readPower?_eq_some_iff.mp hk
    obtain ⟨fraction, hfraction, hrest⟩ := exists_of_splitPoint (cs.dropWhile isDigit)
    rw [hfraction] at hne hall h
    obtain ⟨hwhole, hbehind⟩ := List.forall_mem_append.mp hall
    refine ⟨⟨cs.takeWhile isDigit, fraction, power, hwhole, hbehind, hne⟩, ?_, h⟩
    rw [Numeral.chars, Numeral.pointed, hpower, ← hrest, List.takeWhile_append_dropWhile]
  · rintro ⟨p, rfl, rfl⟩
    exact p.readUnsigned?_chars negative

namespace Numeral

variable (p : Numeral)

/-! ## The tokenizer -/

theorem numberLength_digits {seenPoint seenPower : Bool} {ds cs : List Char}
    (h : ∀ c ∈ ds, isDigit c = true) : numberLength seenPoint seenPower (ds ++ cs) =
      ds.length + numberLength seenPoint seenPower cs := by
  induction ds with
  | nil => exact (Nat.zero_add _).symm
  | cons d ds ih =>
    obtain ⟨hd, hds⟩ := List.forall_mem_cons.mp h
    rw [List.cons_append, numberLength_of_digit hd, ih hds, List.length_cons]
    omega

theorem numberLength_powerChars (seenPoint : Bool) (power : Option Power) :
    numberLength seenPoint false (powerChars power) = (powerChars power).length := by
  cases power with
  | none => rfl
  | some p =>
    have hdigits : numberLength seenPoint true p.digits = p.digits.length := by
      have h : numberLength seenPoint true (p.digits ++ []) = _ :=
        numberLength_digits p.isDigit_of_mem
      rwa [List.append_nil, numberLength, Nat.add_zero] at h
    have hdigit : ¬isDigit p.mark = true := by rcases p.isMark with h | h <;> rw [h] <;> decide
    have hpoint : ¬(p.mark == '.' && !seenPoint && !false) = true := by
      rcases p.isMark with h | h <;> simp [h]
    have hmark : ((p.mark == 'e' || p.mark == 'E') && !false) = true := by
      rcases p.isMark with h | h <;> rw [h] <;> rfl
    rw [powerChars, Option.elim_some, Power.chars]
    cases hsign : p.sign with
    | some c =>
      rw [Option.toList_some, List.singleton_append,
        numberLength_of_signedPower hdigit hpoint hmark (p.isSign c hsign), hdigits]
      rfl
    | none =>
      have hne : ∀ c, isDigit c = false → ∀ ds, p.digits ≠ c :: ds := by
        intro c hc ds hds
        have := p.isDigit_of_mem c (hds ▸ List.mem_cons_self)
        rw [hc] at this
        exact Bool.false_ne_true this
      rw [Option.toList_none, List.nil_append,
        numberLength_of_power hdigit hpoint hmark (hne '+' rfl) (hne '-' rfl), hdigits]
      rfl

/-- The tokenizer walks over a numeral to its end. -/
theorem numberLength_chars : numberLength false false p.chars = p.chars.length := by
  rw [chars, numberLength_digits p.isDigit_of_mem_whole, List.length_append]
  congr 1
  unfold pointed
  have hfraction := p.isDigit_of_mem_fraction
  cases hpoint : p.fraction with
  | none => exact numberLength_powerChars false p.power
  | some ds =>
    rw [hpoint, Option.getD_some] at hfraction
    rw [Option.elim_some, List.cons_append, numberLength_of_point (by decide) rfl,
      numberLength_digits hfraction, numberLength_powerChars, List.length_cons, List.length_append]

/-- A numeral begins with a digit, or with a point and a digit. -/
theorem exists_of_chars : ∃ c cs, p.chars = c :: cs ∧ startsNumber c cs = true := by
  have hne := p.digits_ne_nil
  have hwhole := p.isDigit_of_mem_whole
  have hfraction := p.isDigit_of_mem_fraction
  unfold chars pointed
  cases hdigits : p.whole with
  | cons c cs =>
    rw [hdigits] at hwhole
    exact ⟨c, _, rfl, by rw [startsNumber, hwhole c List.mem_cons_self, Bool.true_or]⟩
  | nil =>
    rw [hdigits, List.nil_append] at hne
    cases hpoint : p.fraction with
    | none => exact absurd (by rw [hpoint]; rfl) hne
    | some ds =>
      rw [hpoint] at hne hfraction
      obtain ⟨d, ds, rfl⟩ := List.exists_cons_of_ne_nil hne
      exact ⟨'.', _, rfl, hfraction d List.mem_cons_self⟩

/-! ## Characters -/

theorem isBlank_of_mem_powerChars {power : Option Power} {c : Char} (h : c ∈ powerChars power) :
    isBlank c = false := by
  cases power with
  | none => exact nomatch h
  | some p =>
    rcases List.mem_cons.mp h with rfl | h
    · rcases p.isMark with hmark | hmark <;> rw [hmark] <;> rfl
    · rcases List.mem_append.mp h with h | h
      · rcases p.isSign c (Option.mem_toList.mp h) with rfl | rfl <;> rfl
      · exact isBlank_of_isDigit (p.isDigit_of_mem c h)

/-- There are no blanks in a numeral. -/
theorem isBlank_of_mem_chars {c : Char} (h : c ∈ p.chars) : isBlank c = false := by
  rcases List.mem_append.mp h with h | h
  · exact isBlank_of_isDigit (p.isDigit_of_mem_whole c h)
  · rcases List.mem_append.mp h with h | h
    · unfold pointed at h
      have hfraction := p.isDigit_of_mem_fraction
      cases hpoint : p.fraction with
      | none =>
        rw [hpoint] at h
        exact nomatch h
      | some ds =>
        rw [hpoint] at h hfraction
        rcases List.mem_cons.mp h with rfl | h
        · rfl
        · exact isBlank_of_isDigit (hfraction c h)
    · exact isBlank_of_mem_powerChars h

/-- A numeral of digits only. -/
def ofDigits (ds : List Char) (hne : ds ≠ []) (hall : ∀ c ∈ ds, isDigit c = true) : Numeral where
  whole := ds
  fraction := none
  power := none
  isDigit_of_mem_whole := hall
  isDigit_of_mem_fraction := nofun
  digits_ne_nil := by rwa [Option.getD_none, List.append_nil]

theorem chars_ofDigits (ds : List Char) (hne) (hall) : (ofDigits ds hne hall).chars = ds :=
  List.append_nil ds

theorem decimal_ofDigits (negative : Bool) (ds : List Char) (hne) (hall) :
    (ofDigits ds hne hall).decimal negative = ⟨negative, digitsValue ds, 0⟩ := by
  have hdigits : (ofDigits ds hne hall).digits = ds := List.append_nil ds
  rw [decimal, hdigits]
  rfl

end Numeral

/-- A numeral of digits is one with neither a point nor a power of ten. -/
theorem Numeral.forall_isDigit_iff (p : Numeral) :
    (∀ c ∈ p.chars, isDigit c = true) ↔ p.fraction = none ∧ p.power = none := by
  constructor
  · intro h
    obtain ⟨-, hbehind⟩ := List.forall_mem_append.mp h
    obtain ⟨hpointed, hpower⟩ := List.forall_mem_append.mp hbehind
    constructor
    · cases hpoint : p.fraction with
      | none => rfl
      | some ds =>
        rw [pointed, hpoint] at hpointed
        exact nomatch hpointed '.' List.mem_cons_self
    · cases hten : p.power with
      | none => rfl
      | some q =>
        rw [hten] at hpower
        have hmark := hpower q.mark List.mem_cons_self
        rcases q.isMark with h | h <;> exact nomatch h ▸ hmark
  · rintro ⟨hpoint, hten⟩
    rw [chars, pointed, hpoint, hten]
    exact List.forall_mem_append.mpr ⟨p.isDigit_of_mem_whole, nofun⟩

/-- The digits are all there is to such a numeral. -/
theorem Numeral.decimal_of_digits {p : Numeral} (hpoint : p.fraction = none)
    (hten : p.power = none) (negative : Bool) :
    p.decimal negative = ⟨negative, digitsValue p.chars, 0⟩ := by
  rw [decimal, digits, chars, pointed, hpoint, hten]
  rfl

/-! ## Signs -/

section Signs

variable {cs : List Char} {s : Sign} {n : Int64} (hplus : cs.head? ≠ some '+')
  (hminus : cs.head? ≠ some '-')
include hplus hminus

theorem readDecimal?_signed (s : Sign) :
    readDecimal? (signed s cs) = readUnsigned? (isNegative s) cs := by
  cases s with
  | negative => rfl
  | positive =>
    change readDecimal? cs = _
    rw [readDecimal?, splitSign_of_head hplus hminus]
    rfl

/-- The integers are the digit strings, with or without a minus sign, whose number fits. -/
theorem readInt64?_eq_some_iff : readInt64? (signed s cs) = some n ↔
    cs ≠ [] ∧ (∀ c ∈ cs, isDigit c = true) ∧ int64? (s.apply (digitsValue cs)) = some n := by
  have hread : readInt64? (signed s cs) =
      (readDigits? cs).bind fun k => int64? (s.apply (k : Int)) := by
    cases s with
    | negative => rfl
    | positive =>
      change readInt64? cs = _
      unfold readInt64?
      split
      · exact absurd rfl hminus
      · exact absurd rfl hplus
      · rfl
  rw [hread, Option.bind_eq_some_iff]
  simp only [readDigits?_eq_some_iff]
  constructor
  · rintro ⟨_, ⟨hne, hall, rfl⟩, hn⟩
    exact ⟨hne, hall, hn⟩
  · rintro ⟨hne, hall, hn⟩
    exact ⟨_, ⟨hne, hall, rfl⟩, hn⟩

end Signs

namespace Numeral

variable (p : Numeral) (s : Sign)

/-- A numeral does not begin with a sign. -/
theorem head_ne_sign : p.chars.head? ≠ some '+' ∧ p.chars.head? ≠ some '-' := by
  obtain ⟨c, cs, hcs, hstart⟩ := p.exists_of_chars
  rw [hcs]
  constructor <;> rintro ⟨⟩ <;> exact nomatch hstart

theorem readDecimal?_signed_chars :
    readDecimal? (signed s p.chars) = some (p.decimal (isNegative s)) :=
  (readDecimal?_signed p.head_ne_sign.1 p.head_ne_sign.2 s).trans (p.readUnsigned?_chars _)

/-- Whatever is read as an integer is read as the same decimal. -/
theorem of_readInt64? {n : Int64} (h : readInt64? (signed s p.chars) = some n) : ∃ k : Nat,
    p.decimal (isNegative s) = ⟨isNegative s, k, 0⟩ ∧ n.toInt = s.apply k := by
  obtain ⟨-, hall, hn⟩ := (readInt64?_eq_some_iff p.head_ne_sign.1 p.head_ne_sign.2).mp h
  obtain ⟨hpoint, hten⟩ := p.forall_isDigit_iff.mp hall
  exact ⟨_, decimal_of_digits hpoint hten _, toInt_of_int64? hn⟩

theorem isBlank_of_mem_signed {c : Char} (h : c ∈ signed s p.chars) : isBlank c = false := by
  cases s with
  | positive => exact p.isBlank_of_mem_chars h
  | negative =>
    rcases List.mem_cons.mp h with rfl | h
    · rfl
    · exact p.isBlank_of_mem_chars h

end Numeral

end Spreadsheet.Number
