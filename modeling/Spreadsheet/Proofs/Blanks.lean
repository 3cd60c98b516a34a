import Spreadsheet.Proofs.Leaves
import Spreadsheet.Proofs.Vocabulary

/-!
# Blanks between tokens

Where a text is a formula, blanks may be put into it before the equals sign, behind it, at the end
and between any two tokens, as many of them and of whatever kind. The text is the same formula then.

A scanner looks at what stands behind its token. Some look at one character, which would have gone
on with the token: a blank never does. A word looks further. It wants to know the first character
that is not blank, which stays the same, and whether a name goes on behind spaces, which it does not
begin to do. Only with a pinned row behind a word would a blank make a difference, since letters
with a pinned row are a cell. But no token begins with a pinned row, so none stands there.

Results:
1. `Loosened`: blanks put into a text at some of its places;
2. `Scan.token_loosened`: a scanner finds the same with blanks put in behind its token;
3. `Cuts.loosened`: so a text with blanks put between its tokens is cut into tokens of the same
   kinds;
4. `blanks_between_tokens_change_nothing`: and read as the same expression.
-/

namespace Spreadsheet.Formula

open Text Number Formula.Parser

/-! ## Blanks put in -/

/-- The second text is the first one, which goes on from `place`, with blanks put in where there is
a gap. -/
inductive Loosened (gap : Nat → Prop) : (place : Nat) → List Char → List Char → Prop where
  | nil (place : Nat) : Loosened gap place [] []
  | keep (c : Char) {place : Nat} {cs cs' : List Char} (h : Loosened gap (place + 1) cs cs') :
      Loosened gap place (c :: cs) (c :: cs')
  | blank {b : Char} {place : Nat} {cs cs' : List Char} (hb : isBlank b = true) (hgap : gap place)
      (h : Loosened gap place cs cs') : Loosened gap place cs (b :: cs')

/-- The second text begins with a blank, or as the first one. -/
def BeginsAlike (cs cs' : List Char) : Prop :=
  cs'.head?.any isBlank = true ∨ cs'.head? = cs.head?

namespace BeginsAlike

variable {cs cs' : List Char}

/-- What does not stand at the beginning of the first text does not begin the second, unless it may
be a blank. -/
theorem any_eq_false (h : BeginsAlike cs cs') {p : Char → Bool}
    (hp : ∀ b, isBlank b = true → p b = false) (hcs : cs.head?.any p = false) :
    cs'.head?.any p = false := by
  rcases h with h | h
  · cases cs' with
    | nil => rfl
    | cons b cs' => exact hp b h
  · rw [h, hcs]

theorem ne_some (h : BeginsAlike cs cs') {c : Char} (hc : isBlank c = false)
    (hcs : cs.head? ≠ some c) : cs'.head? ≠ some c := by
  rcases h with h | h
  · intro hhead
    rw [hhead, Option.any_some, hc] at h
    exact nomatch h
  · rwa [h]

theorem ne_cons (h : BeginsAlike cs cs') {c : Char} (hc : isBlank c = false)
    (hcs : ∀ ds, cs ≠ c :: ds) (ds : List Char) : cs' ≠ c :: ds := by
  rintro rfl
  refine h.ne_some hc (fun hhead => ?_) rfl
  obtain ⟨ds', rfl⟩ := List.head?_eq_some_iff.mp hhead
  exact hcs ds' rfl

theorem append (h : BeginsAlike cs cs') (front : List Char) :
    BeginsAlike (front ++ cs) (front ++ cs') := by
  cases front with
  | nil => exact h
  | cons c front => exact .inr rfl

/-- A text is put together again from some of it and what begins like the rest. -/
theorem take_append {n : Nat} (h : BeginsAlike (cs.drop n) cs') :
    BeginsAlike cs (cs.take n ++ cs') := by
  cases n with
  | zero => exact h
  | succ n =>
    cases cs with
    | nil => exact h
    | cons c cs => exact .inr rfl

end BeginsAlike

namespace Loosened

variable {gap : Nat → Prop} {place : Nat} {cs cs' : List Char}

/-! ## What stays the same -/

theorem beginsAlike (h : Loosened gap place cs cs') : BeginsAlike cs cs' := by
  cases h with
  | nil => exact .inr rfl
  | keep => exact .inr rfl
  | blank hb => exact .inl hb

theorem sublist (h : Loosened gap place cs cs') : cs.Sublist cs' := by
  induction h with
  | nil => exact .slnil
  | keep c _ ih => exact ih.cons_cons c
  | blank _ _ _ ih => exact ih.cons _

theorem nextSignificant?_eq (h : Loosened gap place cs cs') :
    nextSignificant? cs' = nextSignificant? cs := by
  induction h with
  | nil => rfl
  | keep c _ ih =>
    cases hc : isBlank c with
    | true => rw [nextSignificant?_cons_of_isBlank hc, nextSignificant?_cons_of_isBlank hc, ih]
    | false => rw [nextSignificant?_cons hc, nextSignificant?_cons hc]
  | blank hb _ _ ih => rw [nextSignificant?_cons_of_isBlank hb, ih]

theorem ends (h : Loosened gap place cs cs') (hcs : Scan.Ends cs) : Scan.Ends cs' := by
  refine h.beginsAlike.any_eq_false (fun b hb => ?_) hcs
  rw [isWordChar_of_isBlank hb, Bool.false_or, beq_eq_false_iff_ne]
  exact ne_of_isBlank hb (by decide)

theorem endsName (h : Loosened gap place cs cs') (hcs : Scan.EndsName cs) : Scan.EndsName cs' := by
  induction h with
  | nil => exact hcs
  | keep c _ ih =>
    by_cases hspace : c = ' '
    · subst hspace
      exact ih hcs
    · have hword := hcs.isWordChar_eq_false hspace
      rw [Scan.EndsName, List.dropWhile_cons_of_neg (by simpa using hspace)]
      exact hword
  | blank hb _ _ ih => exact (ih hcs).blank hb

theorem noRow (h : Loosened gap place cs cs') (hcs : Scan.NoRow cs) : Scan.NoRow cs' := by
  rintro ds rfl
  cases h with
  | keep _ h => exact h.beginsAlike.any_eq_false (fun _ => isDigit_of_isBlank) (hcs _ rfl)
  | blank hb => exact absurd hb (by decide)

/-! ## Taking apart -/

theorem isBlank_of_mem (h : Loosened gap place cs cs') (hcs : ∀ b ∈ cs, isBlank b = true) :
    ∀ b ∈ cs', isBlank b = true := by
  induction h with
  | nil => exact hcs
  | keep c _ ih =>
    obtain ⟨hc, hcs⟩ := List.forall_mem_cons.mp hcs
    exact List.forall_mem_cons.mpr ⟨hc, ih hcs⟩
  | blank hb _ _ ih => exact List.forall_mem_cons.mpr ⟨hb, ih hcs⟩

/-- In front of a character there are blanks still, and perhaps more of them. -/
theorem exists_of_blanks_append_cons {blanks more : List Char} {c : Char}
    (h : Loosened gap place (blanks ++ c :: more) cs') (hblanks : ∀ b ∈ blanks, isBlank b = true) :
    ∃ blanks' more', blanks' ++ c :: more' = cs' ∧ (∀ b ∈ blanks', isBlank b = true) ∧
      Loosened gap (place + blanks.length + 1) more more' := by
  generalize htext : blanks ++ c :: more = text at h
  induction h generalizing blanks with
  | nil => exact absurd htext (by simp)
  | @keep d place _ _ h ih =>
    cases blanks with
    | nil =>
      obtain ⟨rfl, rfl⟩ := List.cons.inj htext
      exact ⟨[], _, rfl, nofun, h⟩
    | cons b blanks =>
      obtain ⟨rfl, hrest⟩ := List.cons.inj htext
      obtain ⟨hb, hblanks⟩ := List.forall_mem_cons.mp hblanks
      obtain ⟨blanks', more', rfl, hblanks', hmore⟩ := ih hblanks hrest
      refine ⟨b :: blanks', more', rfl, List.forall_mem_cons.mpr ⟨hb, hblanks'⟩, ?_⟩
      rwa [Nat.add_right_comm place 1, Nat.add_assoc place] at hmore
  | @blank b _ _ _ hb _ _ ih =>
    obtain ⟨blanks', more', rfl, hblanks', hmore⟩ := ih hblanks htext
    exact ⟨b :: blanks', more', rfl, List.forall_mem_cons.mpr ⟨hb, hblanks'⟩, hmore⟩

/-- Where there is no gap nothing is put in. -/
theorem exists_of_append {chars more : List Char} (h : Loosened gap place (chars ++ more) cs')
    (hgap : ∀ i, place ≤ i → i < place + chars.length → ¬ gap i) :
    ∃ more', chars ++ more' = cs' ∧ Loosened gap (place + chars.length) more more' := by
  induction chars generalizing place cs' with
  | nil => exact ⟨cs', rfl, h⟩
  | cons c chars ih =>
    cases h with
    | keep _ h =>
      obtain ⟨more', rfl, hmore⟩ := ih h fun i hle hlt =>
        hgap i (Nat.le_of_succ_le hle) (by rw [List.length_cons]; omega)
      refine ⟨more', rfl, ?_⟩
      rwa [Nat.add_right_comm, Nat.add_assoc] at hmore
    | blank _ hplace =>
      have hlt : place < place + (c :: chars).length := by
        rw [List.length_cons]
        omega
      exact absurd hplace (hgap place (Nat.le_refl place) hlt)

end Loosened

/-! ## Scanners -/

namespace Scan

/-- A string literal ends at its closing quote, unless another quote stands behind that. -/
theorem stringBody?_take {cs cs' t : List Char} {n : Nat} (h : stringBody? cs = some (t, n))
    (hrest : BeginsAlike (cs.drop n) cs') : stringBody? (cs.take n ++ cs') = some (t, n) := by
  fun_induction stringBody? cs generalizing t n with
  | case1 => cases h
  | case2 cs ih | case4 cs ih | case5 cs ih | case6 cs ih | case7 cs ih | case8 cs ih =>
    obtain ⟨⟨u, m⟩, hm, hn⟩ := Option.map_eq_some_iff.mp h
    obtain ⟨rfl, rfl⟩ := Prod.mk.inj hn
    have htail := ih hm hrest
    simp only [List.take_succ_cons, List.cons_append, stringBody?, htail, Option.map_some]
  | case3 cs hquote =>
    obtain ⟨rfl, rfl⟩ := Prod.mk.inj (Option.some.inj h)
    rw [List.take_succ_cons, List.take_zero, List.cons_append, List.nil_append, stringBody?]
    exact hrest.ne_cons (by decide) hquote
  | case9 c cs hdouble hclose hquote hslash hn ht hr ih =>
    obtain ⟨⟨u, m⟩, hm, hmap⟩ := Option.map_eq_some_iff.mp h
    obtain ⟨rfl, rfl⟩ := Prod.mk.inj hmap
    have htail := ih hm hrest
    have hbegins : BeginsAlike cs (cs.take m ++ cs') := .take_append hrest
    -- still nothing stands behind the character that it would be read together with
    have alone (q d : Char) (hd : isBlank d = false)
        (hcs : ∀ ds, c = q → cs = d :: ds → False) (ds : List Char) (hc : c = q) :
        cs.take m ++ cs' ≠ d :: ds :=
      hbegins.ne_cons hd (fun ds => hcs ds hc) ds
    rw [List.take_succ_cons, List.cons_append, stringBody?, htail]
    · rfl
    · exact alone '"' '"' (by decide) hdouble
    · exact hclose
    · exact alone '\\' '"' (by decide) hquote
    · exact alone '\\' '\\' (by decide) hslash
    · exact alone '\\' 'n' (by decide) hn
    · exact alone '\\' 't' (by decide) ht
    · exact alone '\\' 'r' (by decide) hr

/-- The character goes on with a number. -/
def inNumber (seenPoint seenPower : Bool) (c : Char) : Bool :=
  isDigit c || (c == '.' && !seenPoint && !seenPower) || ((c == 'e' || c == 'E') && !seenPower)

theorem inNumber_of_isBlank {b : Char} (h : isBlank b = true) (seenPoint seenPower : Bool) :
    inNumber seenPoint seenPower b = false := by
  have hpoint : b ≠ '.' := ne_of_isBlank h (by decide)
  have hlower : b ≠ 'e' := ne_of_isBlank h (by decide)
  have hupper : b ≠ 'E' := ne_of_isBlank h (by decide)
  simp [inNumber, isDigit_of_isBlank h, hpoint, hlower, hupper]

section

variable {seenPoint seenPower : Bool} {c : Char} {cs cs' : List Char}

theorem numberLength_of_digit (h : isDigit c = true) : numberLength seenPoint seenPower (c :: cs)
    = numberLength seenPoint seenPower cs + 1 := by
  rw [numberLength.eq_def]
  exact if_pos h

theorem numberLength_of_point (hdigit : ¬isDigit c = true)
    (h : (c == '.' && !seenPoint && !seenPower) = true) :
    numberLength seenPoint seenPower (c :: cs) = numberLength true seenPower cs + 1 := by
  rw [numberLength.eq_def]
  exact (if_neg hdigit).trans (if_pos h)

theorem numberLength_of_signedPower (hdigit : ¬isDigit c = true)
    (hpoint : ¬(c == '.' && !seenPoint && !seenPower) = true)
    (h : ((c == 'e' || c == 'E') && !seenPower) = true) {sign : Char}
    (hsign : sign = '+' ∨ sign = '-') : numberLength seenPoint seenPower (c :: sign :: cs)
      = numberLength seenPoint true cs + 2 := by
  rcases hsign with rfl | rfl
  all_goals
    rw [numberLength.eq_def]
    exact (if_neg hdigit).trans ((if_neg hpoint).trans (if_pos h))

theorem numberLength_of_power (hdigit : ¬isDigit c = true)
    (hpoint : ¬(c == '.' && !seenPoint && !seenPower) = true)
    (h : ((c == 'e' || c == 'E') && !seenPower) = true) (hplus : ∀ ds, cs ≠ '+' :: ds)
    (hminus : ∀ ds, cs ≠ '-' :: ds) : numberLength seenPoint seenPower (c :: cs)
      = numberLength seenPoint true cs + 1 := by
  rw [numberLength, if_neg hdigit, if_neg hpoint, if_pos h]
  · exact hplus
  · exact hminus

/-- No character belongs to a number if the first one does not go on with it. -/
theorem numberLength_eq_zero (h : cs.head?.any (inNumber seenPoint seenPower) = false) :
    numberLength seenPoint seenPower cs = 0 := by
  cases cs with
  | nil => rw [numberLength]
  | cons c cs =>
    have hc : inNumber seenPoint seenPower c = false := h
    rw [inNumber, Bool.or_eq_false_iff, Bool.or_eq_false_iff] at hc
    obtain ⟨⟨hdigit, hpoint⟩, hpower⟩ := hc
    rw [numberLength.eq_def]
    simp only [hdigit, hpoint, hpower]
    rfl

/-- A number ends where no character goes on with it. -/
theorem numberLength_take {n : Nat} (h : numberLength seenPoint seenPower cs = n)
    (hrest : BeginsAlike (cs.drop n) cs') :
    numberLength seenPoint seenPower (cs.take n ++ cs') = n := by
  fun_induction numberLength seenPoint seenPower cs generalizing n with
  | case1 =>
    subst h
    exact numberLength_eq_zero (hrest.any_eq_false (fun b hb => inNumber_of_isBlank hb _ _) rfl)
  | case2 _ _ _ _ hdigit ih =>
    subst h
    rw [List.take_succ_cons, List.cons_append, numberLength_of_digit hdigit, ih rfl hrest]
  | case3 _ _ _ _ hdigit hpoint ih =>
    subst h
    rw [List.take_succ_cons, List.cons_append, numberLength_of_point hdigit hpoint, ih rfl hrest]
  | case4 _ _ _ hdigit hpoint hpower cs ih =>
    subst h
    rw [List.take_succ_cons, List.take_succ_cons, List.cons_append, List.cons_append,
      numberLength_of_signedPower hdigit hpoint hpower (.inl rfl), ih rfl hrest]
  | case5 _ _ _ hdigit hpoint hpower cs ih =>
    subst h
    rw [List.take_succ_cons, List.take_succ_cons, List.cons_append, List.cons_append,
      numberLength_of_signedPower hdigit hpoint hpower (.inr rfl), ih rfl hrest]
  | case6 _ _ _ hdigit hpoint hpower cs hplus hminus ih =>
    subst h
    have hbegins : BeginsAlike cs (cs.take _ ++ cs') := .take_append hrest
    rw [List.take_succ_cons, List.cons_append, numberLength_of_power hdigit hpoint hpower
      (hbegins.ne_cons (by decide) hplus) (hbegins.ne_cons (by decide) hminus), ih rfl hrest]
  | case7 _ _ c cs hdigit hpoint hpower =>
    subst h
    refine numberLength_eq_zero (hrest.any_eq_false (fun b hb => inNumber_of_isBlank hb _ _) ?_)
    rw [Bool.not_eq_true] at hdigit hpoint hpower
    show inNumber _ _ c = false
    rw [inNumber, hdigit, hpoint, hpower]
    rfl

end

theorem string_take {cs cs' : List Char} {kind : TokenKind} {n : Nat}
    (h : string cs = .ok ⟨kind, n⟩) (hrest : BeginsAlike (cs.drop n) cs') :
    string (cs.take n ++ cs') = .ok ⟨kind, n⟩ := by
  unfold string at h
  split at h
  · next t m hbody =>
    cases h
    rw [string, stringBody?_take hbody hrest]
  · exact nomatch h

theorem number_take {cs cs' : List Char}
    (hrest : BeginsAlike (cs.drop (numberLength false false cs)) cs') :
    number (cs.take (numberLength false false cs) ++ cs') = number cs := by
  have hlength : (cs.take (numberLength false false cs)).length = numberLength false false cs :=
    List.length_take_of_le (numberLength_le false false cs)
  unfold number
  dsimp only
  rw [numberLength_take rfl hrest, List.take_left' hlength]

theorem length_of_number {cs : List Char} {kind : TokenKind} {n : Nat}
    (h : number cs = .ok ⟨kind, n⟩) : n = numberLength false false cs - 1 := by
  unfold number at h
  dsimp only at h
  split at h
  · cases h
    rfl
  · exact nomatch h

section

variable {gap : Nat → Prop} {place : Nat} {c : Char} {chars cs cs' : List Char} {kind : TokenKind}

/-- The first character of a number, if these stand behind it. -/
def startsNumber (c : Char) (cs : List Char) : Bool :=
  isDigit c || (c == '.' && cs.head?.any isDigit)

theorem token_eq_number (h : startsNumber c cs = true) : token c cs = number (c :: cs) := by
  unfold token
  split
  case h_17 => exact if_pos h
  all_goals exact absurd h (by simp [startsNumber, isDigit])

/-- A point that starts a number has a digit behind it that belongs to the number. -/
theorem startsNumber_loosened (hc : startsNumber c (chars ++ cs) = true)
    (hlength : numberLength false false (c :: (chars ++ cs)) = chars.length + 1) :
    startsNumber c (chars ++ cs') = true := by
  cases chars with
  | cons d chars => exact hc
  | nil =>
    cases hdigit : isDigit c with
    | true => rw [startsNumber, hdigit, Bool.true_or]
    | false =>
      rw [startsNumber, hdigit, Bool.false_or, Bool.and_eq_true] at hc
      obtain ⟨hpoint, hbehind⟩ := hc
      cases cs with
      | nil => exact nomatch hbehind
      | cons d ds =>
        have hsecond : isDigit d = true := hbehind
        rw [List.nil_append, numberLength_of_point (by simp [hdigit]) (by simp [hpoint]),
          numberLength_of_digit hsecond, List.length_nil] at hlength
        omega

theorem number_loosened (h : number (c :: (chars ++ cs)) = .ok ⟨kind, chars.length⟩)
    (hc : startsNumber c (chars ++ cs) = true) (hrest : BeginsAlike cs cs') :
    token c (chars ++ cs') = .ok ⟨kind, chars.length⟩ := by
  have hpos : 0 < numberLength false false (c :: (chars ++ cs)) := by
    by_cases hdigit : isDigit c = true
    · rw [numberLength_of_digit hdigit]
      exact Nat.succ_pos _
    · have hpoint : (c == '.' && !false && !false) = true := by
        rw [startsNumber, Bool.eq_false_iff.mpr hdigit, Bool.false_or, Bool.and_eq_true] at hc
        simp [hc.1]
      rw [numberLength_of_point hdigit hpoint]
      exact Nat.succ_pos _
  have hmore := length_of_number h
  have hlength : numberLength false false (c :: (chars ++ cs)) = chars.length + 1 := by omega
  have hbehind : BeginsAlike ((c :: (chars ++ cs)).drop (chars.length + 1)) cs' := by
    rwa [List.drop_succ_cons, List.drop_left]
  rw [← hlength] at hbehind
  have hsame := number_take hbehind
  rw [hlength, List.take_succ_cons, List.take_left] at hsame
  rw [token_eq_number (startsNumber_loosened hc hlength)]
  exact hsame.trans h

/-- A word is one still with blanks put in behind it. -/
theorem Word.loosened {w : List Char} (h : Word w cs kind) (hl : Loosened gap place cs cs') :
    Word w cs' kind := by
  have hnext := hl.nextSignificant?_eq
  cases h with
  | cell hread hends hcall hcolon =>
    exact .cell hread (hl.ends hends) (hnext ▸ hcall) (hl.beginsAlike.ne_some (by decide) hcolon)
  | range ha hb hends => exact .range ha hb (hl.ends hends)
  | name hname hfree hends hrow huse =>
    exact .name hname hfree (hl.endsName hends) (hl.noRow hrow) (hnext ▸ huse)

theorem word_loosened (h : word (c :: (chars ++ cs)) = .ok ⟨kind, chars.length⟩)
    (hc : c = '$' ∨ isWordChar c = true) (hrow : NoRow cs) (hl : Loosened gap place cs cs') :
    word (c :: (chars ++ cs')) = .ok ⟨kind, chars.length⟩ := by
  have hfirst : (c :: (chars ++ cs)).head? = some '$' ∨
      (c :: (chars ++ cs)).head?.any isWordChar = true := hc.imp_left (congrArg some)
  have hdrop : (c :: (chars ++ cs)).drop (chars.length + 1) = cs := by
    rw [List.drop_succ_cons, List.drop_left]
  obtain ⟨w, tail, htext, hlength, hword⟩ := isWord_of_word h hfirst (hdrop.symm ▸ hrow)
  have hsplit : w ++ tail = c :: chars ++ cs := htext
  obtain ⟨rfl, rfl⟩ := List.append_inj hsplit hlength
  exact word_of_isWord (hword.loosened hl)

theorem token_less (hequal : ∀ ds, cs ≠ '=' :: ds) (hgreater : ∀ ds, cs ≠ '>' :: ds) :
    token '<' cs = .ok ⟨.op .less, 0⟩ := by
  rw [token]
  · exact hequal
  · exact hgreater

theorem token_greater (hequal : ∀ ds, cs ≠ '=' :: ds) : token '>' cs = .ok ⟨.op .greater, 0⟩ := by
  rw [token]
  exact hequal

theorem isWordChar_of_first (h : c = '_' ∨ isLetter c = true) : isWordChar c = true := by
  rcases h with rfl | h
  · rfl
  · rw [isWordChar, h, Bool.true_or, Bool.true_or]

/-- A token of two characters has both of them. -/
theorem eq_singleton {d : Char} {tail : List Char} (hlength : 1 = chars.length)
    (htext : chars ++ cs = d :: tail) : chars = [d] := by
  obtain ⟨a, rfl⟩ := List.length_eq_one_iff.mp hlength.symm
  rw [(List.cons.inj htext).1]

/-- A scanner finds the same with blanks put in behind its token. -/
theorem token_loosened (h : token c (chars ++ cs) = .ok ⟨kind, chars.length⟩) (hrow : NoRow cs)
    (hl : Loosened gap place cs cs') : token c (chars ++ cs') = .ok ⟨kind, chars.length⟩ := by
  have hbegins := hl.beginsAlike.append chars
  unfold token at h
  split at h
  case h_11 tail htext =>
    obtain ⟨rfl, hlength⟩ := Scan.mk.inj (Except.ok.inj h)
    rw [eq_singleton hlength htext]
    rfl
  case h_12 tail htext =>
    obtain ⟨rfl, hlength⟩ := Scan.mk.inj (Except.ok.inj h)
    rw [eq_singleton hlength htext]
    rfl
  case h_13 hequal hgreater =>
    rw [token_less (hbegins.ne_cons (by decide) hequal) (hbegins.ne_cons (by decide) hgreater), h]
  case h_14 tail htext =>
    obtain ⟨rfl, hlength⟩ := Scan.mk.inj (Except.ok.inj h)
    rw [eq_singleton hlength htext]
    rfl
  case h_15 hequal => rw [token_greater (hbegins.ne_cons (by decide) hequal), h]
  case h_16 =>
    have hrest : BeginsAlike ((chars ++ cs).drop chars.length) cs' := by
      rw [List.drop_left]
      exact hl.beginsAlike
    have hstring := string_take h hrest
    rwa [List.take_left] at hstring
  case h_17 =>
    split at h
    · next hnumber => exact number_loosened h hnumber hl.beginsAlike
    · split at h
      · next hfirst =>
        rw [Bool.or_eq_true, Bool.or_eq_true, beq_iff_eq, beq_iff_eq, or_assoc] at hfirst
        rw [token_eq_word hfirst]
        exact word_loosened h (hfirst.imp_right isWordChar_of_first) hrow hl
      · exact nomatch h
  all_goals exact h

end

end Scan

/-! ## Whole texts -/

/-- No pinned row begins a text that falls into tokens. -/
theorem Cuts.noRow {pos : Nat} {cs : List Char} {ts : List Token} (h : Cuts pos cs ts) :
    Scan.NoRow cs := by
  rintro ds rfl
  obtain ⟨kind, chars, rest, -, rfl, htoken, -, -⟩ := h.exists_of_cons (by decide)
  have hword : Scan.word ('$' :: (chars ++ rest)) = .ok ⟨kind, chars.length⟩ := htoken
  cases hn : Scan.cellLength? ('$' :: (chars ++ rest)) with
  | none =>
    rw [Scan.word_of_cellLength?_eq_none hn] at hword
    exact nomatch hword
  | some n =>
    obtain ⟨p, tail, hchars, -, -⟩ := Scan.exists_of_cellLength? hn
    have hsplit := p.splitMark_chars tail
    rw [hchars] at hsplit
    obtain ⟨-, hletters⟩ := Prod.mk.inj hsplit
    obtain ⟨d, ds, hds, hd⟩ := p.exists_letters_eq
    rw [hletters, hds]
    exact isDigit_of_isLetter hd

/-- Blanks put between the tokens of a text leave the kinds of the tokens as they are. -/
theorem Cuts.loosened {lead pos : Nat} {cs : List Char} {ts : List Token} (h : Cuts pos cs ts)
    {gap : Nat → Prop} (hgap : ∀ i, gap i → ∀ t ∈ ts,
      i ≤ lead + t.pos ∨ lead + t.pos + t.text.length ≤ i) {cs' : List Char}
    (hl : Loosened gap (lead + pos) cs cs') (pos' : Nat) :
    ∃ ts', Cuts pos' cs' ts' ∧ ts'.map Token.kind = ts.map Token.kind := by
  induction h generalizing cs' pos' with
  | last hblanks => exact ⟨_, .last (hl.isBlank_of_mem hblanks), rfl⟩
  | @token pos blanks chars cs c kind ts hblanks hc htoken hrest ih =>
    obtain ⟨htight, hgap⟩ := forall₂_and.mp fun i hi => List.forall_mem_cons.mp (hgap i hi)
    obtain ⟨blanks', more', rfl, hblanks', hmore⟩ := hl.exists_of_blanks_append_cons hblanks
    have hinside : ∀ i, lead + pos + blanks.length + 1 ≤ i →
        i < lead + pos + blanks.length + 1 + chars.length → ¬ gap i := by
      intro i hle hlt hi
      have hplace := htight i hi
      rw [String.length_ofList, List.length_cons] at hplace
      simp only at hplace
      omega
    obtain ⟨cs'', rfl, hcs⟩ := hmore.exists_of_append hinside
    have hplace : lead + pos + blanks.length + 1 + chars.length
        = lead + (pos + blanks.length + 1 + chars.length) := by omega
    obtain ⟨ts', hcuts, hkinds⟩ :=
      ih hgap (hplace ▸ hcs) (pos' + blanks'.length + 1 + chars.length)
    refine ⟨_, .token hblanks' hc (Scan.token_loosened htoken hrest.noRow hcs) hcuts, ?_⟩
    rw [List.map_cons, List.map_cons, hkinds]

/-- A place of a text that is not inside a token. The tokens are those behind the equals sign, and
their positions are counted from there. -/
def IsGap (text : String) (i : Nat) : Prop :=
  ∀ ts, tokensFrom 0 (body text) = .ok ts → ∀ t ∈ ts,
    let start := text.length - (body text).length + t.pos
    i ≤ start ∨ start + t.text.length ≤ i

/-- A text with something behind its equals sign begins with blanks and a character that is none. -/
theorem exists_of_trim_body_ne_nil {text : String} (h : trim (body text) ≠ []) :
    ∃ blanks c more, blanks ++ c :: more = text.toList ∧ (∀ b ∈ blanks, isBlank b = true) ∧
      isBlank c = false := by
  cases hdrop : text.toList.dropWhile isBlank with
  | nil =>
    have hbody : body text = [] := by rw [body, trimStart, hdrop]
    rw [hbody] at h
    exact absurd trim_nil h
  | cons c more =>
    have hhead := List.head?_dropWhile_not isBlank text.toList
    rw [hdrop] at hhead
    refine ⟨text.toList.takeWhile isBlank, c, more, ?_, fun _ => List.mem_takeWhile_imp, by
      simpa using hhead⟩
    rw [← hdrop, List.takeWhile_append_dropWhile]

/-- An equals sign at the front is still there with blanks put in, and the same stands behind it. -/
theorem Loosened.body {gap : Nat → Prop} {text text' : String}
    (h : Loosened gap 0 text.toList text'.toList) (htext : trim (body text) ≠ []) :
    Loosened gap (text.length - (body text).length) (body text) (body text') := by
  obtain ⟨blanks, c, more, hcut, hblanks, hc⟩ := exists_of_trim_body_ne_nil htext
  rw [← hcut] at h
  obtain ⟨blanks', more', hcut', hblanks', hmore⟩ := h.exists_of_blanks_append_cons hblanks
  rw [Nat.zero_add] at hmore
  rw [lead_eq hblanks hc hcut.symm, body_eq hblanks hc hcut.symm, body_eq hblanks' hc hcut'.symm]
  split
  · exact hmore
  · exact .keep c hmore

namespace Expr

variable {limit : Nat} {e : Expr}

/-- Only the kinds of the tokens matter. -/
theorem ofTokens_of_kinds {ts ts' : List Token} (hended : Ended ts)
    (hkinds : ts'.map Token.kind = ts.map Token.kind) (h : ofTokens limit ts = .ok e) :
    ofTokens limit ts' = .ok e := by
  obtain ⟨d, hd⟩ := derives_of_ofTokens hended h
  exact ofTokens_of_derives { hd with kinds := hkinds.trans hd.kinds }

end Expr

/-- If a text is read, then with blanks put into it, as many as one likes and wherever no token is,
be it in front of the equals sign, behind it, at the end or between two tokens, it is read as the
same expression under the same limit. -/
theorem blanks_between_tokens_change_nothing (limit : Nat) (text text' : String) (e : Expr)
    (h : Expr.ofText limit text = .ok e)
    (hl : Loosened (IsGap text) 0 text.toList text'.toList) : Expr.ofText limit text' = .ok e := by
  obtain ⟨htext, ts, hts, he⟩ := Expr.exists_tokens_of_ofText h
  have hbody := hl.body htext
  obtain ⟨ts', hcuts, hkinds⟩ := (cuts_of_tokensFrom 0 _ ts hts).loosened
    (fun i hi => hi ts hts) hbody 0
  have htext' : trim (body text') ≠ [] := by
    rw [ne_eq, trim_eq_nil_iff] at htext ⊢
    exact fun hblank => htext fun c hc => hblank c (hbody.sublist.subset hc)
  rw [Expr.ofText_eq_ofTokens htext' hcuts.tokensFrom_eq]
  exact Expr.ofTokens_of_kinds (ended_of_tokensFrom hts) hkinds he

/-- Blanks of four kinds, some of them between a name and its parenthesis, and some of them in front
of the equals sign. -/
theorem blanks_between_tokens_change_nothing_call :
    let e : Expr := .binary .power (.call "LOG10" [.cell ⟨⟨0, 0⟩, false, false⟩])
      (.literal (.int 2))
    Expr.ofText 2 "=LOG10(A1)^2" = .ok e ∧
    Loosened (IsGap "=LOG10(A1)^2") 0 "=LOG10(A1)^2".toList "\t = LOG10\n\u2003(A1 )^ 2 ".toList ∧
    Expr.ofText 2 "\t = LOG10\n\u2003(A1 )^ 2 " = .ok e := by
  intro e
  have htokens : tokensFrom 0 (body "=LOG10(A1)^2") = .ok
      [⟨.name "LOG10", "LOG10", 0⟩, ⟨.leftParen, "(", 5⟩, ⟨.cell ⟨⟨0, 0⟩, false, false⟩, "A1", 6⟩,
        ⟨.rightParen, ")", 8⟩, ⟨.op .caret, "^", 9⟩, ⟨.number 2 (some 2), "2", 10⟩,
        ⟨.eof, "", 11⟩] := by decide +kernel
  have hread : Expr.ofText 2 "=LOG10(A1)^2" = .ok e :=
    Expr.ofText_of_tokens _ (by decide +kernel) htokens rfl
  have hgap : ∀ i ∈ [0, 1, 6, 9, 11, 12], IsGap "=LOG10(A1)^2" i := by
    intro i hi ts hts
    cases htokens.symm.trans hts
    revert i
    decide +kernel
  have hl : Loosened (IsGap "=LOG10(A1)^2") 0 "=LOG10(A1)^2".toList
      "\t = LOG10\n\u2003(A1 )^ 2 ".toList :=
    .blank rfl (hgap 0 (by simp)) <| .blank rfl (hgap 0 (by simp)) <| .keep '=' <|
    .blank rfl (hgap 1 (by simp)) <| .keep 'L' <| .keep 'O' <| .keep 'G' <| .keep '1' <|
    .keep '0' <| .blank rfl (hgap 6 (by simp)) <| .blank rfl (hgap 6 (by simp)) <| .keep '(' <|
    .keep 'A' <| .keep '1' <| .blank rfl (hgap 9 (by simp)) <| .keep ')' <| .keep '^' <|
    .blank rfl (hgap 11 (by simp)) <| .keep '2' <| .blank rfl (hgap 12 (by simp)) <| .nil 12
  exact ⟨hread, hl, blanks_between_tokens_change_nothing 2 _ _ e hread hl⟩

end Spreadsheet.Formula
