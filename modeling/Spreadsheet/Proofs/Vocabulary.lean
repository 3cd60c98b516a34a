import Spreadsheet.Proofs.Rereading
import Spreadsheet.Proofs.Tiling

/-!
# The words of a formula

A word is a cell, a range or a name, and what stands behind it takes part in the decision. `A1` is a
cell in front of a sign, the first corner of a range in front of a colon, and the name of a function
in front of an opening parenthesis, however many blanks are between. `Word` says of the text of a
word, of what stands behind it and of the kind of the token whether they go together. It says so
without measuring anything, and asks little of what stands behind: that it does not go on with the
word, and what the first character in it is that is not blank.

A name may have spaces in it, and may begin like a cell. Then the cell must be the whole name, since
a cell with a space behind it is read as a cell; and a grid must have it, since its numbers are
looked at before the parenthesis is.

Results:
1. `nameLength_append`, `exists_of_nameLength`: what is measured as a name;
2. `IsName.free_of_name`: what a name that is found may begin with;
3. `word_of_isWord`, `isWord_of_word`: the scanner of words finds just the words;
4. `tokensFrom_eq_ok_iff`: a text is cut into tokens, each found by the scanner.
-/

namespace Spreadsheet.Formula

open Text Number Formula.Parser

/-! ## What is not blank -/

theorem isBlank_of_isWordChar {c : Char} (h : isWordChar c = true) : isBlank c = false := by
  simp only [isWordChar, Bool.or_eq_true] at h
  rcases h with (h | h) | h
  · exact isBlank_of_isLetter h
  · exact isBlank_of_isDigit h
  · rw [eq_of_beq h]
    rfl

theorem isWordChar_of_isBlank {c : Char} (h : isBlank c = true) : isWordChar c = false := by
  rw [← Bool.not_eq_true]
  intro hword
  rw [isBlank_of_isWordChar hword] at h
  exact nomatch h

theorem isDigit_of_isBlank {c : Char} (h : isBlank c = true) : isDigit c = false := by
  rw [← Bool.not_eq_true]
  intro hdigit
  rw [isBlank_of_isDigit hdigit] at h
  exact nomatch h

theorem ne_of_isBlank {b c : Char} (hb : isBlank b = true) (hc : isBlank c = false) : b ≠ c := by
  rintro rfl
  exact nomatch hb.symm.trans hc

theorem nextSignificant?_cons_of_isBlank {c : Char} (h : isBlank c = true) (cs : List Char) :
    nextSignificant? (c :: cs) = nextSignificant? cs := by
  rw [nextSignificant?, List.find?_cons_of_neg (by simp [h]), nextSignificant?]

theorem nextSignificant?_cons {c : Char} (h : isBlank c = false) (cs : List Char) :
    nextSignificant? (c :: cs) = some c :=
  List.find?_cons_of_pos (by simp [h])

theorem nextSignificant?_append {blanks : List Char} (h : ∀ c ∈ blanks, isBlank c = true)
    (cs : List Char) : nextSignificant? (blanks ++ cs) = nextSignificant? cs := by
  induction blanks with
  | nil => rfl
  | cons c blanks ih =>
    obtain ⟨hc, hblanks⟩ := List.forall_mem_cons.mp h
    rw [List.cons_append, nextSignificant?_cons_of_isBlank hc, ih hblanks]

namespace Scan

open Reference Spelling

/-! ## Names -/

/-- A character of a name: a word character, or a space between two of them. -/
def isNameChar (c : Char) : Bool :=
  isWordChar c || c == ' '

/-- The text of a name. -/
structure IsName (w : List Char) : Prop where
  ne_nil : w ≠ []
  chars : ∀ c ∈ w, isNameChar c = true
  last : w.getLast? ≠ some ' '

/-- A text that does not go on with a name in front of it: behind spaces, if there are any, stands
no word character. -/
def EndsName (tail : List Char) : Prop :=
  (tail.dropWhile (· == ' ')).head?.any isWordChar = false

/-- The two names that are values. -/
def IsKeyword (w : List Char) : Prop :=
  sameKeyword (String.ofList w) "TRUE" = true ∨ sameKeyword (String.ofList w) "FALSE" = true

theorem isNameChar_eq_false {c : Char} (hword : isWordChar c = false) (hspace : c ≠ ' ') :
    isNameChar c = false := by
  rw [isNameChar, hword, Bool.false_or, beq_eq_false_iff_ne]
  exact hspace

theorem EndsName.isWordChar_eq_false {c : Char} {tail : List Char} (h : EndsName (c :: tail))
    (hc : c ≠ ' ') : isWordChar c = false := by
  have hdrop : (c :: tail).dropWhile (· == ' ') = c :: tail :=
    List.dropWhile_cons_of_neg (by simpa using hc)
  rw [EndsName, hdrop] at h
  exact h

theorem EndsName.head?_any {tail : List Char} (h : EndsName tail) :
    tail.head?.any isWordChar = false := by
  cases tail with
  | nil => rfl
  | cons c tail =>
    by_cases hspace : c = ' '
    · subst hspace
      rfl
    · exact h.isWordChar_eq_false hspace

/-- A name does not go on behind more blanks than before. -/
theorem EndsName.blank {b : Char} {tail : List Char} (h : EndsName tail) (hb : isBlank b = true) :
    EndsName (b :: tail) := by
  by_cases hspace : b = ' '
  · subst hspace
    exact h
  · rw [EndsName, List.dropWhile_cons_of_neg (by simpa using hspace)]
    exact isWordChar_of_isBlank hb

/-- Of the characters behind a name only spaces can be mistaken for some of it. -/
theorem EndsName.takeWhile_eq {tail : List Char} (h : EndsName tail) :
    tail.takeWhile isNameChar = tail.takeWhile (· == ' ') := by
  induction tail with
  | nil => rfl
  | cons c tail ih =>
    by_cases hspace : c = ' '
    · subst hspace
      have htail : EndsName tail := h
      rw [List.takeWhile_cons_of_pos rfl, List.takeWhile_cons_of_pos rfl, ih htail]
    · have hword := h.isWordChar_eq_false hspace
      rw [List.takeWhile_cons_of_neg (by simp [isNameChar_eq_false hword hspace]),
        List.takeWhile_cons_of_neg (by simpa using hspace)]

theorem dropWhile_reverse_append {w spaces : List Char} (hspaces : ∀ c ∈ spaces, c = ' ')
    (hlast : w.getLast? ≠ some ' ') :
    (w ++ spaces).reverse.dropWhile (· == ' ') = w.reverse := by
  rw [List.reverse_append, List.dropWhile_append_of_pos fun c hc => by
    simpa using hspaces c (List.mem_reverse.mp hc)]
  cases hrev : w.reverse with
  | nil => rfl
  | cons c cs =>
    have hc : c ≠ ' ' := by
      rintro rfl
      rw [List.getLast?_eq_head?_reverse, hrev] at hlast
      exact hlast rfl
    exact List.dropWhile_cons_of_neg (by simpa using hc)

/-- A name is measured up to what does not go on with it. -/
theorem nameLength_append {w tail : List Char} (hw : IsName w) (htail : EndsName tail) :
    nameLength (w ++ tail) = w.length := by
  have hrun : (w ++ tail).takeWhile isNameChar = w ++ tail.takeWhile (· == ' ') := by
    rw [List.takeWhile_append_of_pos hw.chars, htail.takeWhile_eq]
  have hspaces : ∀ c ∈ tail.takeWhile (· == ' '), c = ' ' := fun c hc => by
    simpa using List.mem_takeWhile_imp hc
  show (((w ++ tail).takeWhile isNameChar).reverse.dropWhile (· == ' ')).length = w.length
  rw [hrun, dropWhile_reverse_append hspaces hw.last, List.length_reverse]

/-- What is measured is a name, if the text begins with a word character. -/
theorem exists_of_nameLength {cs : List Char} (hfirst : cs.head?.any isWordChar = true) :
    ∃ w tail, w ++ tail = cs ∧ w.length = nameLength cs ∧ IsName w ∧ EndsName tail := by
  generalize hrun : (cs.takeWhile isNameChar).reverse = run
  have hcut : (run.dropWhile (· == ' ')).reverse ++ ((run.takeWhile (· == ' ')).reverse
      ++ cs.dropWhile isNameChar) = cs := by
    rw [← List.append_assoc, ← List.reverse_append, List.takeWhile_append_dropWhile, ← hrun,
      List.reverse_reverse, List.takeWhile_append_dropWhile]
  have hspaces : ∀ c ∈ (run.takeWhile (· == ' ')).reverse, (c == ' ') = true :=
    fun _ hc => List.mem_takeWhile_imp (p := (· == ' ')) (List.mem_reverse.mp hc)
  have hends : EndsName ((run.takeWhile (· == ' ')).reverse ++ cs.dropWhile isNameChar) := by
    rw [EndsName, List.dropWhile_append_of_pos hspaces]
    cases hdrop : cs.dropWhile isNameChar with
    | nil => rfl
    | cons c rest =>
      have hc : isNameChar c = false := by
        have := List.head_dropWhile_not isNameChar (l := cs) (by simp [hdrop])
        simpa [hdrop] using this
      rw [isNameChar, Bool.or_eq_false_iff] at hc
      rw [List.dropWhile_cons_of_neg (by simp [hc.2])]
      exact hc.1
  refine ⟨_, _, hcut, ?_, ⟨?_, ?_, ?_⟩, hends⟩
  · rw [List.length_reverse, ← hrun]
    rfl
  · -- without a name the text would be all behind it, though it begins with a word character
    intro hnil
    rw [hnil, List.nil_append] at hcut
    rw [hcut] at hends
    exact absurd (hfirst.symm.trans hends.head?_any) (by decide)
  · intro c hc
    have hmem : c ∈ run := (List.dropWhile_sublist _).subset (List.mem_reverse.mp hc)
    rw [← hrun, List.mem_reverse] at hmem
    exact List.mem_takeWhile_imp hmem
  · rw [List.getLast?_reverse]
    intro hspace
    have hhead := List.head?_dropWhile_not (· == ' ') run
    rw [hspace] at hhead
    exact nomatch hhead

theorem IsName.head?_ne_mark {w : List Char} (h : IsName w) (tail : List Char) :
    (w ++ tail).head? ≠ some '$' := by
  obtain ⟨c, cs, rfl⟩ := List.exists_cons_of_ne_nil h.ne_nil
  rintro ⟨⟩
  exact absurd (h.chars '$' List.mem_cons_self) (by decide)

theorem name_append {w tail : List Char} (hw : IsName w) (htail : EndsName tail)
    (huse : nextSignificant? tail = some '(' ∨ IsKeyword w) :
    name (w ++ tail) = .ok ⟨.name (String.ofList w), w.length - 1⟩ := by
  have hlist := nameLength_append hw htail
  unfold name
  rw [if_neg (hw.head?_ne_mark tail)]
  dsimp only
  rw [hlist, List.take_left, List.drop_left, if_pos]
  simp only [Bool.or_eq_true, decide_eq_true_eq, or_assoc]
  exact huse

theorem exists_of_name {cs : List Char} {scan : Scan} (h : name cs = .ok scan)
    (hfirst : cs.head? = some '$' ∨ cs.head?.any isWordChar = true) :
    ∃ w tail, w ++ tail = cs ∧ scan = ⟨.name (String.ofList w), w.length - 1⟩ ∧ IsName w ∧
      EndsName tail ∧ (nextSignificant? tail = some '(' ∨ IsKeyword w) := by
  unfold name at h
  split at h
  · exact nomatch h
  · next hmark =>
    obtain ⟨w, tail, rfl, hlength, hw, htail⟩ := exists_of_nameLength (hfirst.resolve_left hmark)
    dsimp only at h
    rw [← hlength, List.take_left, List.drop_left] at h
    split at h
    · next huse =>
      simp only [Bool.or_eq_true, decide_eq_true_eq, or_assoc] at huse
      cases h
      exact ⟨w, tail, rfl, rfl, hw, htail, huse⟩
    · exact nomatch h

/-! ## Cells in the way of names -/

/-- No cell is in the way of a name: if it begins like a cell then it goes on with a word character,
unless it is all of a cell that can be read. -/
def Free (w : List Char) : Prop :=
  ∀ (p : Spelling) (u : List Char), w = p.chars ++ u →
    u.head?.any isWordChar = true ∨ u = [] ∧ ∃ r, ofChars p.chars = .ok r

/-- The text does not begin with a pinned row, which letters in front of it could go on with. -/
def NoRow (tail : List Char) : Prop :=
  ∀ ds, tail = '$' :: ds → ds.head?.any isDigit = false

theorem ends_of_called {tail : List Char} (h : nextSignificant? tail = some '(') : Ends tail := by
  cases tail with
  | nil => rfl
  | cons c tail =>
    cases hblank : isBlank c with
    | true =>
      have hmark : c ≠ '$' := ne_of_isBlank hblank (by decide)
      simp [Ends, isWordChar_of_isBlank hblank, hmark]
    | false =>
      rw [nextSignificant?_cons hblank] at h
      cases h
      rfl

theorem toUpper_mem_of_sameKeyword {w : List Char} {keyword : String} {c : Char}
    (h : sameKeyword (String.ofList w) keyword = true) (hc : c ∈ w) :
    c.toUpper ∈ keyword.toList.map Char.toUpper := by
  rw [sameKeyword, beq_iff_eq, String.toList_ofList] at h
  rw [← h]
  exact List.mem_map_of_mem hc

/-- No keyword is spelled like a cell: there is no digit in it. -/
theorem not_isKeyword_chars (p : Spelling) : ¬ IsKeyword p.chars := by
  obtain ⟨d, ds, hds, hd⟩ := p.exists_digits_eq
  have hmem : d ∈ p.chars := by
    rw [chars, hds]
    exact List.mem_append_right _ List.mem_cons_self
  have hupper : d.toUpper ∉ "TRUE".toList.map Char.toUpper ∧
      d.toUpper ∉ "FALSE".toList.map Char.toUpper := by
    rw [← digitChar_digitValue hd]
    have hlt := digitValue_lt hd
    generalize digitValue d = n at hlt
    revert n
    decide
  rintro (h | h)
  · exact hupper.1 (toUpper_mem_of_sameKeyword h hmem)
  · exact hupper.2 (toUpper_mem_of_sameKeyword h hmem)

/-- Behind a dollar sign inside a spelling stands its row. -/
theorem head_isDigit_of_chars_eq {p : Spelling} {w v : List Char} (h : p.chars = w ++ '$' :: v)
    (hw : w ≠ []) (hmark : '$' ∉ w) : v.head?.any isDigit = true := by
  obtain ⟨d, ds, hds, hd⟩ := p.exists_digits_eq
  have hletters : '$' ∉ p.letters := fun hmem => absurd (p.isLetter_of_mem _ hmem) (by decide)
  have hdigits : '$' ∉ p.digits := fun hmem => absurd (p.isDigit_of_mem _ hmem) (by decide)
  have hcol : p.colPinned = false := by
    cases hpinned : p.colPinned with
    | false => rfl
    | true =>
      obtain ⟨c, cs, rfl⟩ := List.exists_cons_of_ne_nil hw
      rw [chars, hpinned] at h
      cases (List.cons.inj h).1
      exact absurd List.mem_cons_self hmark
  rw [chars, hcol] at h
  cases hrow : p.rowPinned with
  | false =>
    rw [hrow] at h
    have hmem : '$' ∈ p.letters ++ p.digits := by
      have : p.letters ++ p.digits = w ++ '$' :: v := by simpa [mark] using h
      rw [this]
      exact List.mem_append_right w List.mem_cons_self
    exact absurd hmem (by simp [hletters, hdigits])
  | true =>
    rw [hrow] at h
    have hcut : p.letters ++ '$' :: p.digits = w ++ '$' :: v := by simpa [mark] using h
    obtain ⟨-, -, rfl⟩ := (List.append_cons_inj_of_notMem hletters hdigits).mp hcut
    rw [hds]
    exact hd

/-- A name ends with a word character, so this is what is found behind any front of it. -/
theorem nextSignificant?_of_isName {u tail : List Char} (hne : u ≠ [])
    (hchars : ∀ c ∈ u, isNameChar c = true) (hlast : u.getLast? ≠ some ' ') :
    nextSignificant? (u ++ tail) ≠ some '(' := by
  have hfound : u.find? (!isBlank ·) ≠ none := by
    intro hnone
    have hmem := List.getLast_mem hne
    have hblank : isBlank (u.getLast hne) = true := by
      simpa using List.find?_eq_none.mp hnone _ hmem
    have hspace : u.getLast hne = ' ' := by
      simpa [isNameChar, isWordChar_of_isBlank hblank] using hchars _ hmem
    rw [List.getLast?_eq_some_getLast hne, hspace] at hlast
    exact hlast rfl
  obtain ⟨c, hc⟩ := Option.ne_none_iff_exists'.mp hfound
  rw [nextSignificant?, List.find?_append, hc]
  rintro ⟨⟩
  exact absurd (hchars _ (List.mem_of_find?_eq_some hc)) (by decide)

/-- If a cell at the front of a name is looked at before the name is, it can be read, and the
parenthesis is what is found behind it. So it is all of the name. -/
theorem IsName.free_of_name {w tail : List Char} (hw : IsName w)
    (huse : nextSignificant? tail = some '(' ∨ IsKeyword w)
    (hcell : ∀ n, cellLength? (w ++ tail) = some n →
      nextSignificant? ((w ++ tail).drop n) = some '(' ∧
        ∃ r, ofChars ((w ++ tail).take n) = .ok r) : Free w := by
  rintro p u rfl
  cases hu : u.head?.any isWordChar with
  | true => exact .inl rfl
  | false =>
    have hends : Ends (u ++ tail) := by
      cases u with
      | nil =>
        rw [List.append_nil] at huse
        exact ends_of_called (huse.resolve_right (not_isKeyword_chars p))
      | cons c u =>
        have hc := hw.chars c (by simp)
        have hspace : c = ' ' := by
          have hword : isWordChar c = false := hu
          simpa [isNameChar, hword] using hc
        rw [hspace]
        rfl
    rw [List.append_assoc] at hcell
    obtain ⟨hcalled, hread⟩ := hcell _ (cellLength?_chars p hends)
    rw [List.drop_left] at hcalled
    rw [List.take_left] at hread
    refine .inr ⟨?_, hread⟩
    by_contra hne
    have hlast : u.getLast? ≠ some ' ' := by
      have := hw.last
      rwa [List.getLast?_append_of_ne_nil _ hne] at this
    exact nextSignificant?_of_isName hne (fun c hc => hw.chars c (by simp [hc])) hlast hcalled

/-! ## Words -/

/-- The text of a word, what stands behind it, and the kind of its token. -/
inductive Word : List Char → List Char → TokenKind → Prop where
  | cell {p : Spelling} {r : Reference} {tail : List Char} (hread : ofChars p.chars = .ok r)
      (hends : Ends tail) (hcall : nextSignificant? tail ≠ some '(')
      (hcolon : tail.head? ≠ some ':') : Word p.chars tail (.cell r)
  | range {p q : Spelling} {a b : Reference} {tail : List Char} (ha : ofChars p.chars = .ok a)
      (hb : ofChars q.chars = .ok b) (hends : Ends tail) :
      Word (p.chars ++ ':' :: q.chars) tail (.range a b)
  | name {w tail : List Char} (hname : IsName w) (hfree : Free w) (hends : EndsName tail)
      (hrow : NoRow tail) (huse : nextSignificant? tail = some '(' ∨ IsKeyword w) :
      Word w tail (.name (String.ofList w))

theorem reference_of_ofChars {cs : List Char} {r : Reference} (h : ofChars cs = .ok r)
    (offset : Nat) : reference offset cs = .ok r := by
  rw [reference, h]

theorem word_of_cellLength?_eq_none {cs : List Char} (h : cellLength? cs = none) :
    word cs = name cs := by
  rw [word, h]

/-- A cell at the front of a name does not go beyond it. -/
theorem IsName.exists_append_of_chars {w tail behind : List Char} {p : Spelling} (hw : IsName w)
    (hends : EndsName tail) (hrow : NoRow tail) (h : p.chars ++ behind = w ++ tail) :
    ∃ u, w = p.chars ++ u ∧ behind = u ++ tail := by
  rcases List.append_eq_append_iff.mp h with hinside | ⟨v, hchars, rfl⟩
  · exact hinside
  · cases v with
    | nil => exact ⟨[], by rw [hchars, List.append_nil, List.append_nil], rfl⟩
    | cons c v =>
      have hc : c ∈ p.chars := hchars ▸ List.mem_append_right w List.mem_cons_self
      have hspace : c ≠ ' ' := by
        rintro rfl
        exact absurd (of_mem_chars hc) (by decide)
      have hword : isWordChar c = false := hends.isWordChar_eq_false hspace
      simp only [isWordChar, Bool.or_eq_false_iff] at hword
      rcases of_mem_chars hc with rfl | hletter | hdigit
      · have hmark : '$' ∉ w := fun hmem => absurd (hw.chars _ hmem) (by decide)
        have hrowDigit := head_isDigit_of_chars_eq hchars hw.ne_nil hmark
        have hnone : (v ++ behind).head?.any isDigit = false := hrow _ rfl
        cases v with
        | nil => cases hrowDigit
        | cons d v => exact absurd (hrowDigit.symm.trans hnone) (by decide)
      · exact absurd (hletter.symm.trans hword.1.1) (by decide)
      · exact absurd (hdigit.symm.trans hword.1.2) (by decide)

/-- A free name is not taken for a cell. -/
theorem word_eq_name {w tail : List Char} (hw : IsName w) (hfree : Free w) (hends : EndsName tail)
    (hrow : NoRow tail) (huse : nextSignificant? tail = some '(' ∨ IsKeyword w) :
    word (w ++ tail) = name (w ++ tail) := by
  cases hn : cellLength? (w ++ tail) with
  | none => exact word_of_cellLength?_eq_none hn
  | some n =>
    obtain ⟨p, behind, hcut, rfl, hbehind⟩ := exists_of_cellLength? hn
    obtain ⟨u, rfl, rfl⟩ := hw.exists_append_of_chars hends hrow hcut
    rcases hfree p u rfl with hgoes | ⟨rfl, r, hr⟩
    · -- the cell would end in front of a word character
      cases u with
      | nil => exact nomatch hgoes
      | cons c u =>
        have hword : isWordChar c = true := hgoes
        simp [Ends, hword] at hbehind
    · rw [List.append_nil] at huse hn ⊢
      have hread : reference 0 ((p.chars ++ tail).take p.chars.length) = .ok r := by
        rw [List.take_left, reference_of_ofChars hr]
      rw [word_of_cellLength? hn hread, List.drop_left,
        if_pos (huse.resolve_right (not_isKeyword_chars p))]

/-- The scanner finds a word, whatever stands behind it. -/
theorem word_of_isWord {w tail : List Char} {kind : TokenKind} (h : Word w tail kind) :
    word (w ++ tail) = .ok ⟨kind, w.length - 1⟩ := by
  cases h with
  | @cell p r _ hread hends hcall hcolon =>
    have hr : reference 0 ((p.chars ++ tail).take p.chars.length) = .ok r := by
      rw [List.take_left, reference_of_ofChars hread]
    rw [word_of_cellLength? (cellLength?_chars p hends) hr, List.drop_left, if_neg hcall]
    split
    · exact absurd rfl hcolon
    · rfl
  | @range p q a b _ ha hb hends =>
    rw [List.append_assoc, List.cons_append]
    have hfirst : cellLength? (p.chars ++ ':' :: (q.chars ++ tail)) = some p.chars.length :=
      cellLength?_chars p rfl
    have hreadFirst :
        reference 0 ((p.chars ++ ':' :: (q.chars ++ tail)).take p.chars.length) = .ok a := by
      rw [List.take_left, reference_of_ofChars ha]
    have hreadLast : reference (p.chars.length + 1) ((q.chars ++ tail).take q.chars.length)
        = .ok b := by
      rw [List.take_left, reference_of_ofChars hb]
    have hlength : p.chars.length + 1 + q.chars.length - 1
        = (p.chars ++ ':' :: q.chars).length - 1 := by
      rw [List.length_append, List.length_cons]
      omega
    rw [word_of_cellLength? hfirst hreadFirst, List.drop_left]
    exact (corner_of_cellLength? (cellLength?_chars q hends) hreadLast).trans (by rw [hlength])
  | name hname hfree hends hrow huse =>
    rw [word_eq_name hname hfree hends hrow huse, name_append hname hends huse]

theorem exists_of_corner {first : Reference} {offset : Nat} {cs : List Char} {scan : Scan}
    (h : corner first offset cs = .ok scan) :
    ∃ (q : Spelling) (b : Reference) (tail : List Char), q.chars ++ tail = cs ∧ Ends tail ∧
      ofChars q.chars = .ok b ∧ scan = ⟨.range first b, offset + q.chars.length - 1⟩ := by
  cases hn : cellLength? cs with
  | none =>
    rw [corner, hn] at h
    exact nomatch h
  | some n =>
    obtain ⟨q, tail, rfl, rfl, hends⟩ := exists_of_cellLength? hn
    cases hread : reference offset ((q.chars ++ tail).take q.chars.length) with
    | error fault =>
      rw [corner, hn] at h
      simp only [hread] at h
      exact nomatch h
    | ok b =>
      rw [corner_of_cellLength? hn hread] at h
      cases h
      rw [List.take_left] at hread
      exact ⟨q, b, tail, rfl, hends, ofChars_of_reference hread, rfl⟩

theorem length_pred_succ {w : List Char} (h : w ≠ []) : w.length - 1 + 1 = w.length :=
  Nat.succ_pred_eq_of_pos (List.length_pos_iff.mpr h)

/-- What the scanner finds is a word, if no pinned row stands behind it. -/
theorem isWord_of_word {cs : List Char} {scan : Scan} (h : word cs = .ok scan)
    (hfirst : cs.head? = some '$' ∨ cs.head?.any isWordChar = true)
    (hrow : NoRow (cs.drop (scan.more + 1))) :
    ∃ w tail, w ++ tail = cs ∧ w.length = scan.more + 1 ∧ Word w tail scan.kind := by
  -- a name is found only if the cell in the way of it, if any, is a name too
  have isName (hname : name cs = .ok scan) (hcell : ∀ n, cellLength? cs = some n →
      nextSignificant? (cs.drop n) = some '(' ∧ ∃ r, ofChars (cs.take n) = .ok r) :
      ∃ w tail, w ++ tail = cs ∧ w.length = scan.more + 1 ∧ Word w tail scan.kind := by
    obtain ⟨w, tail, rfl, rfl, hw, hends, huse⟩ := exists_of_name hname hfirst
    have hlength := length_pred_succ hw.ne_nil
    rw [hlength, List.drop_left] at hrow
    exact ⟨w, tail, rfl, hlength.symm, .name hw (hw.free_of_name huse hcell) hends hrow huse⟩
  cases hn : cellLength? cs with
  | none =>
    rw [word_of_cellLength?_eq_none hn] at h
    exact isName h fun n hn' => absurd (hn.symm.trans hn') (by simp)
  | some n =>
    cases hread : reference 0 (cs.take n) with
    | error fault =>
      unfold word at h
      rw [hn] at h
      simp only [hread] at h
      cases h
    | ok r =>
      rw [word_of_cellLength? hn hread] at h
      split at h
      · next hcalled =>
        refine isName h fun n' hn' => ?_
        cases hn.symm.trans hn'
        exact ⟨hcalled, r, ofChars_of_reference hread⟩
      · next hcalled =>
        obtain ⟨p, tail, rfl, rfl, hends⟩ := exists_of_cellLength? hn
        rw [List.take_left] at hread
        rw [List.drop_left] at hcalled h
        split at h
        · next rest =>
          obtain ⟨q, b, behind, rfl, hbehind, hb, rfl⟩ := exists_of_corner h
          refine ⟨p.chars ++ ':' :: q.chars, behind, by simp, ?_,
            .range (ofChars_of_reference hread) hb hbehind⟩
          show (p.chars ++ ':' :: q.chars).length = p.chars.length + 1 + q.chars.length - 1 + 1
          rw [List.length_append, List.length_cons]
          omega
        · next hcolon =>
          cases h
          refine ⟨p.chars, tail, rfl, (length_pred_succ p.chars_ne_nil).symm,
            .cell (ofChars_of_reference hread) hends hcalled fun hhead => ?_⟩
          cases tail with
          | nil => cases hhead
          | cons c tail =>
            cases hhead
            exact hcolon tail rfl

end Scan

/-! ## Cutting -/

/-- The tokens that a text from `pos` on is cut into: each stands behind blanks, and the scanner
finds it there. -/
inductive Cuts : (pos : Nat) → List Char → List Token → Prop where
  | last {pos : Nat} {blanks : List Char} (hblanks : ∀ b ∈ blanks, isBlank b = true) :
      Cuts pos blanks [⟨.eof, "", pos + blanks.length⟩]
  | token {pos : Nat} {blanks chars cs : List Char} {c : Char} {kind : TokenKind}
      {ts : List Token} (hblanks : ∀ b ∈ blanks, isBlank b = true) (hc : isBlank c = false)
      (htoken : Scan.token c (chars ++ cs) = .ok ⟨kind, chars.length⟩)
      (hrest : Cuts (pos + blanks.length + 1 + chars.length) cs ts) :
      Cuts pos (blanks ++ c :: (chars ++ cs))
        (⟨kind, String.ofList (c :: chars), pos + blanks.length⟩ :: ts)

theorem Cuts.tokensFrom_eq {pos : Nat} {cs : List Char} {ts : List Token} (h : Cuts pos cs ts) :
    tokensFrom pos cs = .ok ts := by
  induction h with
  | @last pos blanks hblanks =>
    have htake : blanks.takeWhile isBlank = blanks := List.takeWhile_eq_self_iff.mpr hblanks
    have hdrop : blanks.dropWhile isBlank = [] := List.dropWhile_eq_nil_iff.mpr hblanks
    rw [tokensFrom]
    split
    · rw [htake]
    · next heq => exact nomatch hdrop.symm.trans heq
  | @token pos blanks chars cs c kind ts hblanks hc htoken hrest ih =>
    rw [tokensFrom_step hblanks hc, htoken]
    simp only [List.take_left, List.drop_left]
    rw [ih]
    rfl

/-- Behind the blanks at the front stands no blank. -/
theorem cut_of_dropWhile {cs rest : List Char} {c : Char}
    (h : cs.dropWhile isBlank = c :: rest) :
    cs = cs.takeWhile isBlank ++ c :: rest ∧ isBlank c = false := by
  constructor
  · rw [← h, List.takeWhile_append_dropWhile]
  · have hhead := List.head?_dropWhile_not isBlank cs
    rw [h] at hhead
    simpa using hhead

/-- The characters that a scanner counts are there. -/
theorem token_take {c : Char} {rest : List Char} {scan : Scan}
    (h : Scan.token c rest = .ok scan) :
    Scan.token c (rest.take scan.more ++ rest.drop scan.more) =
      .ok ⟨scan.kind, (rest.take scan.more).length⟩ := by
  have hfits : Scan.Fits (c :: rest) (.ok scan) := h ▸ Scan.token_fits c rest
  rw [List.take_append_drop, List.length_take_of_le (Nat.le_of_lt_succ hfits.2), h]

theorem cuts_of_tokensFrom (pos : Nat) (cs : List Char) :
    ∀ ts, tokensFrom pos cs = .ok ts → Cuts pos cs ts := by
  fun_induction tokensFrom pos cs with
  | case1 pos cs start hnil =>
    rintro _ ⟨⟩
    have hblanks : ∀ b ∈ cs, isBlank b = true := List.dropWhile_eq_nil_iff.mp hnil
    have hlength : start = pos + cs.length := by
      show pos + (cs.takeWhile isBlank).length = pos + cs.length
      rw [List.takeWhile_eq_self_iff.mpr hblanks]
    rw [hlength]
    exact .last hblanks
  | case2 => rintro _ ⟨⟩
  | case3 pos cs start c rest hrest scan hscan ih =>
    intro ts h
    obtain ⟨tokens, htokens, h⟩ := ok_of_bind h
    cases h
    obtain ⟨hcut, hc⟩ := cut_of_dropWhile hrest
    rw [← List.take_append_drop scan.more rest] at hcut
    rw [hcut]
    exact .token (fun _ => List.mem_takeWhile_imp) hc (token_take hscan) (ih tokens htokens)

/-- Of a formula the blanks in front are dropped, and an equals sign behind these. -/
theorem body_eq {text : String} {blanks cs : List Char} {c : Char}
    (hblanks : ∀ b ∈ blanks, isBlank b = true) (hc : isBlank c = false)
    (htext : text.toList = blanks ++ c :: cs) : body text = if c = '=' then cs else c :: cs := by
  have htrim : trimStart text.toList = c :: cs := by
    rw [htext]
    exact Spelling.dropWhile_append hblanks hc
  rw [body, htrim]
  split
  · next heq =>
    obtain ⟨rfl, rfl⟩ := List.cons.inj heq
    rw [if_pos rfl]
  · next hne =>
    have hsign : c ≠ '=' := by
      rintro rfl
      exact hne cs rfl
    rw [if_neg hsign]

/-- The place where the tokens of a formula begin, counted from the start of its text. -/
theorem lead_eq {text : String} {blanks cs : List Char} {c : Char}
    (hblanks : ∀ b ∈ blanks, isBlank b = true) (hc : isBlank c = false)
    (htext : text.toList = blanks ++ c :: cs) :
    text.length - (body text).length = if c = '=' then blanks.length + 1 else blanks.length := by
  have hlength := congrArg List.length htext
  rw [List.length_append, List.length_cons, String.length_toList] at hlength
  rw [body_eq hblanks hc htext]
  split
  · omega
  · rw [List.length_cons]
    omega

/-- A fault of the first token is the fault of the text. -/
theorem tokensFrom_of_fault {c : Char} {cs : List Char} {fault : Fault} (hc : isBlank c = false)
    (h : Scan.token c cs = .error fault) (pos : Nat) :
    tokensFrom pos (c :: cs) = .error (.lexical (pos + fault.offset) fault.cause) := by
  have hnone : ∀ b ∈ ([] : List Char), isBlank b = true := nofun
  rw [← List.nil_append (c :: cs), tokensFrom_step hnone hc, h]
  rfl

/-- The tokens of a text are those that it is cut into. -/
theorem tokensFrom_eq_ok_iff {pos : Nat} {cs : List Char} {ts : List Token} :
    tokensFrom pos cs = .ok ts ↔ Cuts pos cs ts :=
  ⟨cuts_of_tokensFrom pos cs ts, Cuts.tokensFrom_eq⟩

namespace Cuts

variable {pos : Nat} {cs : List Char} {ts : List Token}

/-- Blanks in front of a text change nothing but the positions. -/
theorem blanks_append {blanks : List Char} (hblanks : ∀ b ∈ blanks, isBlank b = true)
    (h : Cuts (pos + blanks.length) cs ts) : Cuts pos (blanks ++ cs) ts := by
  generalize hplace : pos + blanks.length = place at h
  cases h with
  | last hmore =>
    have hlast : Cuts pos (blanks ++ cs) _ := .last fun b hb =>
      (List.mem_append.mp hb).elim (hblanks b) (hmore b)
    rwa [List.length_append, ← Nat.add_assoc, hplace] at hlast
  | @token _ more chars rest c kind ts hmore hc htoken hrest =>
    have hall : ∀ b ∈ blanks ++ more, isBlank b = true := fun b hb =>
      (List.mem_append.mp hb).elim (hblanks b) (hmore b)
    have hlength : pos + (blanks ++ more).length = place + more.length := by
      rw [List.length_append, ← Nat.add_assoc, hplace]
    rw [← hlength] at hrest ⊢
    rw [← List.append_assoc]
    exact .token hall hc htoken hrest

/-- What is cut off first, if the text does not begin with a blank. -/
theorem exists_of_cons {c : Char} (h : Cuts pos (c :: cs) ts) (hc : isBlank c = false) :
    ∃ kind chars rest ts', chars ++ rest = cs ∧ Scan.token c cs = .ok ⟨kind, chars.length⟩ ∧
      ts = ⟨kind, String.ofList (c :: chars), pos⟩ :: ts' ∧
      Cuts (pos + 1 + chars.length) rest ts' := by
  generalize htext : c :: cs = text at h
  cases h with
  | last hblanks =>
    subst htext
    exact nomatch hc.symm.trans (hblanks c List.mem_cons_self)
  | @token _ blanks chars rest d kind ts hblanks _ htoken hrest =>
    cases blanks with
    | nil =>
      obtain ⟨rfl, rfl⟩ := List.cons.inj htext
      exact ⟨kind, chars, rest, ts, rfl, htoken, rfl, hrest⟩
    | cons b blanks =>
      obtain ⟨rfl, -⟩ := List.cons.inj htext
      exact nomatch hc.symm.trans (hblanks c List.mem_cons_self)

end Cuts

end Spreadsheet.Formula
