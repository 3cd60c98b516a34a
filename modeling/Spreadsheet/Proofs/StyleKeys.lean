import Spreadsheet.Proofs.Characters
import Spreadsheet.Sheet.Style
import Mathlib

/-!
# Keys of styles

A style is stored under the row and the column of its cell, written as two numbers with a comma
between them. Only one spelling is written, but many are read: there may be blanks around either
number and zeros in front of it. So one cell can have several keys in a document, and which of their
styles it gets depends on the order of the keys. Keys are compared by their bytes. Sorting compares
characters, which comes to the same, since the bytes of a character grow with its code point.

Results:
1. `bytes_lt_bytes_iff`: texts have the order of their bytes;
2. `keyNumber?_eq_some_iff`: what is read as a number of a key;
3. `parseKey?_eq_some_iff`: what is read as a key, and of which cell;
4. `parseKey?_key`: a key is read back as its cell.
-/

namespace Spreadsheet

/-! ## The order of bytes -/

/-- The bytes of a text. -/
def bytes (s : String) : List UInt8 :=
  s.toByteArray.data.toList

theorem bytes_eq (s : String) : bytes s = s.toList.flatMap String.utf8EncodeChar := by
  rw [bytes, ← String.utf8Encode_toList, List.utf8Encode, List.data_toByteArray]

/-- How many bytes follow the first one of a character. -/
def followers (n : Nat) : Nat :=
  if n ≤ 127 then 0 else if n ≤ 2047 then 1 else if n ≤ 65535 then 2 else 3

/-- The first byte of a character: what is left of its code point without six bits for each byte
that follows, behind as many ones as the character has bytes. -/
def firstByte (n : Nat) : Nat :=
  n / 64 ^ followers n +
    if n ≤ 127 then 0 else if n ≤ 2047 then 192 else if n ≤ 65535 then 224 else 240

/-- The last bytes of a character, with six bits in each. -/
def lastBytes : Nat → Nat → List UInt8
  | 0, _ => []
  | k + 1, n => UInt8.ofNat (n / 64 ^ k % 64 + 128) :: lastBytes k n

theorem toNat_lt_of_char (c : Char) : c.val.toNat < 0x110000 := by
  have hvalid := c.valid
  rw [UInt32.isValidChar, Nat.isValidChar] at hvalid
  omega

theorem utf8EncodeChar_eq (c : Char) : String.utf8EncodeChar c =
    UInt8.ofNat (firstByte c.val.toNat) :: lastBytes (followers c.val.toNat) c.val.toNat := by
  have hlt := toNat_lt_of_char c
  simp only [String.utf8EncodeChar, firstByte, followers]
  generalize c.val.toNat = n at hlt ⊢
  split_ifs with h1 h2 h3
  · simp [lastBytes]
  · have hmod : n / 64 % 32 = n / 64 := Nat.mod_eq_of_lt (by omega)
    simp [lastBytes, hmod]
  · have hmod : n / 4096 % 16 = n / 4096 := Nat.mod_eq_of_lt (by omega)
    simp [lastBytes, hmod]
  · have hmod : n / 262144 % 8 = n / 262144 := Nat.mod_eq_of_lt (by omega)
    simp [lastBytes, hmod]

theorem firstByte_lt {n : Nat} (h : n < 0x110000) : firstByte n < 256 := by
  unfold firstByte followers
  split_ifs <;> omega

/-- The first byte grows with the code point. It stays the same only for code points that differ in
what follows it. -/
theorem firstByte_lt_or {m n : Nat} (h : m < n) (hn : n < 0x110000) : firstByte m < firstByte n ∨
    firstByte m = firstByte n ∧ followers m = followers n ∧
      m / 64 ^ followers n = n / 64 ^ followers n := by
  unfold firstByte followers
  split_ifs <;> omega

theorem lastBytes_append_lt {m n : Nat} (h : m < n) (cs ds : List UInt8) :
    (k : Nat) → m / 64 ^ k = n / 64 ^ k → lastBytes k m ++ cs < lastBytes k n ++ ds
  | 0, heq => absurd heq (by simpa using h.ne)
  | k + 1, heq => by
    have hle : m / 64 ^ k ≤ n / 64 ^ k := Nat.div_le_div_right h.le
    rw [pow_succ, ← Nat.div_div_eq_div_mul, ← Nat.div_div_eq_div_mul] at heq
    refine List.cons_lt_cons_iff.mpr ?_
    rcases hle.lt_or_eq with hlt | hsame
    · refine .inl (UInt8.lt_iff_toNat_lt.mpr ?_)
      rw [UInt8.toNat_ofNat', UInt8.toNat_ofNat']
      omega
    · exact .inr ⟨by rw [hsame], lastBytes_append_lt h cs ds k hsame⟩

/-- Two characters differ in their bytes before either of them ends. -/
theorem utf8EncodeChar_append_lt {c d : Char} (h : c < d) (cs ds : List UInt8) :
    String.utf8EncodeChar c ++ cs < String.utf8EncodeChar d ++ ds := by
  have hlt : c.val.toNat < d.val.toNat := UInt32.lt_iff_toNat_lt.mp h
  have hc := firstByte_lt (toNat_lt_of_char c)
  have hd := firstByte_lt (toNat_lt_of_char d)
  rw [utf8EncodeChar_eq, utf8EncodeChar_eq]
  refine List.cons_lt_cons_iff.mpr ?_
  rcases firstByte_lt_or hlt (toNat_lt_of_char d) with hfirst | ⟨hfirst, hlength, hrest⟩
  · refine .inl (UInt8.lt_iff_toNat_lt.mpr ?_)
    rwa [UInt8.toNat_ofNat', UInt8.toNat_ofNat', Nat.mod_eq_of_lt hc, Nat.mod_eq_of_lt hd]
  · rw [hfirst, hlength]
    exact .inr ⟨rfl, lastBytes_append_lt hlt cs ds _ hrest⟩

theorem flatMap_lt {cs ds : List Char} (h : cs < ds) :
    cs.flatMap String.utf8EncodeChar < ds.flatMap String.utf8EncodeChar := by
  induction h with
  | nil =>
    rw [List.flatMap_nil, List.flatMap_cons, utf8EncodeChar_eq]
    exact List.nil_lt_cons _ _
  | cons _ ih =>
    rw [List.flatMap_cons, List.flatMap_cons]
    exact List.Lex.append_left _ ih _
  | rel hlt =>
    rw [List.flatMap_cons, List.flatMap_cons]
    exact utf8EncodeChar_append_lt hlt _ _

/-- Texts have the order of their bytes. -/
theorem bytes_lt_bytes_iff {s t : String} : bytes s < bytes t ↔ s < t := by
  have hlt : ∀ {s t : String}, s < t → bytes s < bytes t := fun h => by
    rw [bytes_eq, bytes_eq]
    exact flatMap_lt (String.lt_iff_toList_lt.mp h)
  refine ⟨fun h => ?_, hlt⟩
  rcases lt_trichotomy s t with hst | rfl | hst
  · exact hst
  · exact absurd h (List.lt_irrefl _)
  · exact absurd (hlt hst) (List.lt_asymm h)

/-! ## Blanks around a text -/

namespace Text

/-- What is trimmed away is blank. -/
theorem exists_blanks_trim (cs : List Char) : ∃ before after, cs = before ++ trim cs ++ after ∧
    (∀ c ∈ before, isBlank c = true) ∧ ∀ c ∈ after, isBlank c = true := by
  have hend : trimStart cs = trim cs ++ ((trimStart cs).reverse.takeWhile isBlank).reverse := by
    rw [trim, trimEnd, ← List.reverse_append, List.takeWhile_append_dropWhile,
      List.reverse_reverse]
  refine ⟨cs.takeWhile isBlank, ((trimStart cs).reverse.takeWhile isBlank).reverse, ?_,
    fun _ => List.mem_takeWhile_imp, fun _ hc => List.mem_takeWhile_imp (List.mem_reverse.mp hc)⟩
  rw [List.append_assoc, ← hend, trimStart, List.takeWhile_append_dropWhile]

/-- Blanks around a text without blanks are trimmed away. -/
theorem trim_blanks {before cs after : List Char} (hbefore : ∀ c ∈ before, isBlank c = true)
    (hne : cs ≠ []) (hcs : ∀ c ∈ cs, isBlank c = false) (hafter : ∀ c ∈ after, isBlank c = true) :
    trim (before ++ cs ++ after) = cs := by
  have hdrop : ∀ {cs : List Char} (ds), cs ≠ [] → (∀ c ∈ cs, isBlank c = false) →
      (cs ++ ds).dropWhile isBlank = cs ++ ds := by
    intro cs ds hne hcs
    cases cs with
    | nil => exact absurd rfl hne
    | cons c cs =>
      exact List.dropWhile_cons_of_neg (by rw [hcs c List.mem_cons_self]; exact Bool.false_ne_true)
  have hreverse := hdrop [] (mt List.reverse_eq_nil_iff.mp hne)
    fun c hc => hcs c (List.mem_reverse.mp hc)
  rw [List.append_nil] at hreverse
  rw [trim, trimStart, List.append_assoc, List.dropWhile_append_of_pos hbefore, hdrop _ hne hcs,
    trimEnd, List.reverse_append, List.dropWhile_append_of_pos fun c hc =>
      hafter c (List.mem_reverse.mp hc), hreverse, List.reverse_reverse]

end Text

/-! ## Keys -/

namespace Style

open Text Number

/-- A spelling of a 64-bit word in a key: its digits, perhaps with zeros in front, and blanks around
them. -/
inductive SpellsNumber : List Char → Nat → Prop where
  | intro {before digits after : List Char} (before_blank : ∀ c ∈ before, isBlank c = true)
      (ne_nil : digits ≠ []) (digits_digit : ∀ c ∈ digits, isDigit c = true)
      (after_blank : ∀ c ∈ after, isBlank c = true) (lt : digitsValue digits < wordSize) :
      SpellsNumber (before ++ digits ++ after) (digitsValue digits)

/-- A spelling of the row and the column of a cell with a comma between them. -/
inductive SpellsCell : String → Nat × Nat → Prop where
  | intro {key : String} {rowChars colChars : List Char} {row col : Nat}
      (key_eq : key.toList = rowChars ++ ',' :: colChars) (spells_row : SpellsNumber rowChars row)
      (spells_col : SpellsNumber colChars col) : SpellsCell key (row, col)

variable {cs : List Char} {n : Nat}

/-- The numbers of keys are read in all their spellings and in nothing else. -/
theorem keyNumber?_eq_some_iff : keyNumber? cs = some n ↔ SpellsNumber cs n := by
  rw [keyNumber?, Option.filter_eq_some_iff, decide_eq_true_eq]
  constructor
  · rintro ⟨hread, hlt⟩
    rw [readDigits?, Option.ite_none_right_eq_some] at hread
    obtain ⟨⟨hne, hdigits⟩, hvalue⟩ := hread
    obtain rfl := Option.some.inj hvalue
    obtain ⟨before, after, hcs, hbefore, hafter⟩ := exists_blanks_trim cs
    have hspells := SpellsNumber.intro hbefore hne (List.all_eq_true.mp hdigits) hafter hlt
    rwa [← hcs] at hspells
  · rintro ⟨hbefore, hne, hdigits, hafter, hlt⟩
    have hblank : ∀ c ∈ _, isBlank c = false := fun c hc => isBlank_of_isDigit (hdigits c hc)
    rw [trim_blanks hbefore hne hblank hafter, readDigits?,
      if_pos ⟨hne, List.all_eq_true.mpr hdigits⟩]
    exact ⟨rfl, hlt⟩

/-- A number is spelled by its digits. -/
theorem SpellsNumber.of_decimal (h : n < wordSize) : SpellsNumber (decimal n) n := by
  have hspells : SpellsNumber ([] ++ decimal n ++ []) (digitsValue (decimal n)) :=
    .intro nofun (decimal_ne_nil n) (fun _ => isDigit_of_mem_decimal) nofun
      ((digitsValue_decimal n).symm ▸ h)
  rwa [List.nil_append, List.append_nil, digitsValue_decimal] at hspells

theorem SpellsNumber.lt_wordSize (h : SpellsNumber cs n) : n < wordSize := by
  obtain ⟨-, -, -, -, hlt⟩ := h
  exact hlt

/-- In the spelling of a number there is no comma. -/
theorem SpellsNumber.ne_comma (h : SpellsNumber cs n) {c : Char} (hc : c ∈ cs) :
    (c != ',') = true := by
  obtain ⟨hbefore, -, hdigits, hafter, -⟩ := h
  rw [bne_iff_ne]
  rintro rfl
  rcases List.mem_append.mp hc with hc | hc
  · rcases List.mem_append.mp hc with hc | hc
    · exact absurd (hbefore _ hc) (by decide)
    · exact absurd (hdigits _ hc) (by decide)
  · exact absurd (hafter _ hc) (by decide)

/-- A cell is read from all spellings of its row and column and from nothing else. -/
theorem parseKey?_eq_some_iff {key : String} {cell : Nat × Nat} :
    parseKey? key = some cell ↔ SpellsCell key cell := by
  constructor
  · intro h
    have hsplit := List.takeWhile_append_dropWhile (p := (· != ',')) (l := key.toList)
    rw [parseKey?] at h
    split at h
    · exact nomatch h
    · next c rest hdrop =>
      obtain ⟨row, hrow, h⟩ := Option.bind_eq_some_iff.mp h
      obtain ⟨col, hcol, h⟩ := Option.bind_eq_some_iff.mp h
      obtain rfl := Option.some.inj h
      have hcomma : c = ',' := by
        have hhead := List.head?_dropWhile_not (· != ',') key.toList
        rw [hdrop] at hhead
        simpa using hhead
      rw [hdrop, hcomma] at hsplit
      exact ⟨hsplit.symm, keyNumber?_eq_some_iff.mp hrow, keyNumber?_eq_some_iff.mp hcol⟩
  · rintro ⟨hkey, hrow, hcol⟩
    have hcomma := fun c (hc : c ∈ _) => hrow.ne_comma hc
    simp only [parseKey?, hkey, List.dropWhile_append_of_pos hcomma,
      List.takeWhile_append_of_pos hcomma]
    simp [keyNumber?_eq_some_iff.mpr hrow, keyNumber?_eq_some_iff.mpr hcol]

/-- A key is read back as the cell it was written for. -/
theorem parseKey?_key {row col : Nat} (hrow : row < wordSize) (hcol : col < wordSize) :
    parseKey? (key row col) = some (row, col) :=
  parseKey?_eq_some_iff.mpr ⟨String.toList_ofList, .of_decimal hrow, .of_decimal hcol⟩

end Style

end Spreadsheet
