import Spreadsheet.Formula.Parser
import Spreadsheet.Proofs.Accepting
import Spreadsheet.Proofs.Spelling

/-!
# References in formulas

A reference is read in two places: from a text that is nothing else, and by the scanner of words,
which finds it at the front of what is left of a formula. The scanner first measures a spelling,
up to a character that does not go on with it, and then has the measured piece read as if it were
all there is. So the two cannot disagree: a written reference is one token of the formula that it
makes up, and the text of any token for a reference is read as that reference.

With the corners of a range in order, putting them in order again changes nothing, the marks
included: where two rows or columns are the same, the mark of each corner stays with it.

Results:
1. `Scan.cellLength?_chars`, `Scan.exists_of_cellLength?`: what the scanner measures;
2. `tokensFrom_cell`, `tokensFrom_range`: a written reference or range is one token;
3. `RangeRef.ofCorners_corners`: putting corners in order twice is putting them in order once;
4. `Scan.token_rereads`: the text of a token for references is read as these;
5. `references_reread`: all this for formulas.
-/

namespace Spreadsheet

open Text Number

namespace Formula

open Formula.Parser

namespace Scan

open Reference Spelling

/-! ## Measuring -/

theorem length_mark (pinned : Bool) : (mark pinned).length = pinned.toNat := by
  cases pinned <;> rfl

theorem length_chars (p : Spelling) : p.chars.length =
    p.colPinned.toNat + p.letters.length + p.rowPinned.toNat + p.digits.length := by
  simp only [chars, List.length_append, length_mark]

/-- A text that does not go on with a spelling in front of it. -/
def Ends (tail : List Char) : Prop :=
  (tail.head?.any fun c => isWordChar c || c == '$') = false

theorem Ends.head_isDigit {tail : List Char} (h : Ends tail) : tail.head?.any isDigit = false := by
  cases tail with
  | nil => rfl
  | cons c tail =>
    simp only [Ends, isWordChar, List.head?_cons, Option.any_some, Bool.or_eq_false_iff] at h
    exact h.1.1.2

/-- The scanner measures a spelling. -/
theorem cellLength?_chars (p : Spelling) {tail : List Char} (h : Ends tail) :
    cellLength? (p.chars ++ tail) = some p.chars.length := by
  have hdigits := takeWhile_append p.isDigit_of_mem h.head_isDigit
  have htail := dropWhile_append p.isDigit_of_mem h.head_isDigit
  simp only [cellLength?, splitMark_chars, takeWhile_letters, dropWhile_letters,
    splitMark_behindLetters, hdigits, htail]
  rw [if_pos ⟨p.letters_ne_nil, p.digits_ne_nil, h⟩, length_chars]

/-- It measures nothing else. -/
theorem exists_of_cellLength? {cs : List Char} {n : Nat} (h : cellLength? cs = some n) :
    ∃ (p : Spelling) (tail : List Char), p.chars ++ tail = cs ∧ p.chars.length = n ∧ Ends tail := by
  simp only [cellLength?] at h
  split at h
  · next hfound =>
    obtain ⟨hletters, hdigits, hends⟩ := hfound
    refine ⟨front cs hletters hdigits, _, front_chars_append cs hletters hdigits, ?_, hends⟩
    rw [length_chars]
    exact Option.some.inj h
  · exact nomatch h

/-! ## Written references are tokens -/

theorem reference_toChars {r : Reference} (h : r.address.IsNameable) (offset : Nat) :
    reference offset r.toChars = .ok r := by
  rw [reference, ofChars_toChars h]

theorem ofChars_of_reference {offset : Nat} {cs : List Char} {r : Reference}
    (h : reference offset cs = .ok r) : ofChars cs = .ok r := by
  unfold reference at h
  split at h
  · next hr => rw [hr, Except.ok.inj h]
  · exact nomatch h

theorem cellLength?_toChars (r : Reference) : cellLength? r.toChars = some r.toChars.length := by
  have hends : Ends [] := rfl
  have hlength := cellLength?_chars r.spelling hends
  rwa [List.append_nil] at hlength

/-- A word that looks like a cell: the name of a function, the first corner of a range or a cell,
depending on what is behind it. -/
theorem word_of_cellLength? {cs : List Char} {n : Nat} {r : Reference}
    (hn : cellLength? cs = some n) (hr : reference 0 (cs.take n) = .ok r) :
    word cs = if nextSignificant? (cs.drop n) = some '(' then name cs else
      match cs.drop n with
      | ':' :: rest => corner r (n + 1) rest
      | _ => .ok ⟨.cell r, n - 1⟩ := by
  unfold word
  rw [hn]
  simp only [hr]
  rfl

theorem corner_of_cellLength? {cs : List Char} {n offset : Nat} {first last : Reference}
    (hn : cellLength? cs = some n) (hlast : reference offset (cs.take n) = .ok last) :
    corner first offset cs = .ok ⟨.range first last, offset + n - 1⟩ := by
  unfold corner
  rw [hn]
  simp only [hlast]
  rfl

theorem word_cell {r : Reference} (h : r.address.IsNameable) :
    word r.toChars = .ok ⟨.cell r, r.toChars.length - 1⟩ := by
  have hread : reference 0 (r.toChars.take r.toChars.length) = .ok r := by
    rw [List.take_length, reference_toChars h]
  rw [word_of_cellLength? (cellLength?_toChars r) hread, List.drop_length]
  rfl

theorem word_range {a b : Reference} (ha : a.address.IsNameable) (hb : b.address.IsNameable) :
    word (a.toChars ++ ':' :: b.toChars)
      = .ok ⟨.range a b, (a.toChars ++ ':' :: b.toChars).length - 1⟩ := by
  have hfirst : cellLength? (a.toChars ++ ':' :: b.toChars) = some a.toChars.length :=
    cellLength?_chars a.spelling rfl
  have hreadFirst :
      reference 0 ((a.toChars ++ ':' :: b.toChars).take a.toChars.length) = .ok a := by
    rw [List.take_left, reference_toChars ha]
  have hreadLast : reference (a.toChars.length + 1) (b.toChars.take b.toChars.length) = .ok b := by
    rw [List.take_length, reference_toChars hb]
  have hlength : a.toChars.length + 1 + b.toChars.length - 1
      = (a.toChars ++ ':' :: b.toChars).length - 1 := by
    rw [List.length_append, List.length_cons]
    omega
  rw [word_of_cellLength? hfirst hreadFirst, List.drop_left]
  exact (corner_of_cellLength? (cellLength?_toChars b) hreadLast).trans (by rw [hlength])

/-- What starts with a dollar sign, an underscore or a letter is a word. -/
theorem token_eq_word {c : Char} (h : c = '$' ∨ c = '_' ∨ isLetter c = true) (cs : List Char) :
    token c cs = word (c :: cs) := by
  rcases h with rfl | rfl | h
  · rfl
  · rfl
  · unfold token
    split
    case h_17 =>
      have hdigit := isDigit_of_isLetter h
      have hpoint : (c == '.') = false := by
        rw [beq_eq_false_iff_ne]
        rintro rfl
        exact absurd h (by decide)
      rw [hdigit, hpoint, h, Bool.or_true, if_pos rfl]
      rfl
    all_goals exact absurd h (by decide)

theorem exists_toChars_eq (r : Reference) :
    ∃ c cs, r.toChars = c :: cs ∧ (c = '$' ∨ isLetter c = true) := by
  obtain ⟨c, cs, hcs, hc⟩ := r.spelling.exists_letters_eq
  have hchars : r.toChars = mark r.colPinned ++ (c :: cs ++ mark r.rowPinned
      ++ decimal (r.address.row.toNat + 1)) := by
    rw [← hcs]
    simp only [toChars, List.append_assoc]
    rfl
  rw [hchars]
  cases r.colPinned with
  | true => exact ⟨'$', _, rfl, .inl rfl⟩
  | false => exact ⟨c, _, rfl, .inr hc⟩

end Scan

/-- One step of the tokenizer: blanks, and a character that a scanner is chosen by. -/
theorem tokensFrom_step {blanks rest : List Char} {c : Char}
    (hblanks : ∀ b ∈ blanks, isBlank b = true) (hc : isBlank c = false) (pos : Nat) :
    tokensFrom pos (blanks ++ c :: rest) = match Scan.token c rest with
      | .error fault => .error (.lexical (pos + blanks.length + fault.offset) fault.cause)
      | .ok scan => do
        let tokens ← tokensFrom (pos + blanks.length + 1 + (rest.take scan.more).length)
          (rest.drop scan.more)
        return ⟨scan.kind, String.ofList (c :: rest.take scan.more), pos + blanks.length⟩
          :: tokens := by
  have hhead : (c :: rest).head?.any isBlank = false := hc
  have htake := Spelling.takeWhile_append hblanks hhead
  have hdrop := Spelling.dropWhile_append hblanks hhead
  rw [tokensFrom]
  split
  · next hnil => exact absurd (hdrop.symm.trans hnil) (List.cons_ne_nil _ _)
  · next d rest' hrest =>
    obtain ⟨rfl, rfl⟩ := List.cons.inj (hdrop.symm.trans hrest)
    rw [htake]
    cases Scan.token c rest <;> rfl

theorem tokensFrom_nil (pos : Nat) : tokensFrom pos [] = .ok [⟨.eof, "", pos⟩] := by
  rw [tokensFrom]
  rfl

/-- A token with nothing behind it. -/
theorem tokensFrom_of_token {pos : Nat} {c : Char} {cs : List Char} {kind : TokenKind}
    (hblank : isBlank c = false) (h : Scan.token c cs = .ok ⟨kind, cs.length⟩) :
    tokensFrom pos (c :: cs) = .ok [⟨kind, String.ofList (c :: cs), pos⟩,
      ⟨.eof, "", pos + (c :: cs).length⟩] := by
  have hnone : ∀ b ∈ ([] : List Char), isBlank b = true := by simp
  rw [← List.nil_append (c :: cs), tokensFrom_step hnone hblank, h]
  simp only [List.length_nil, Nat.add_zero, List.take_length, List.drop_length, tokensFrom_nil,
    List.nil_append, List.length_cons]
  rw [Nat.add_assoc, Nat.add_comm 1]
  rfl

/-- A token that is a word with nothing behind it. -/
theorem tokensFrom_of_word {pos : Nat} {c : Char} {cs : List Char} {kind : TokenKind}
    (hc : c = '$' ∨ isLetter c = true)
    (h : Scan.word (c :: cs) = .ok ⟨kind, (c :: cs).length - 1⟩) :
    tokensFrom pos (c :: cs) = .ok [⟨kind, String.ofList (c :: cs), pos⟩,
      ⟨.eof, "", pos + (c :: cs).length⟩] := by
  refine tokensFrom_of_token ?_ ((Scan.token_eq_word (hc.imp_right .inr) cs).trans h)
  rcases hc with rfl | hc
  · rfl
  · exact isBlank_of_isLetter hc

/-- A written reference is one token. -/
theorem tokensFrom_cell {r : Reference} (h : r.address.IsNameable) (pos : Nat) :
    tokensFrom pos r.toChars
      = .ok [⟨.cell r, r.toA1, pos⟩, ⟨.eof, "", pos + r.toChars.length⟩] := by
  have hword := Scan.word_cell h
  obtain ⟨c, cs, hchars, hc⟩ := Scan.exists_toChars_eq r
  rw [Reference.toA1]
  rw [hchars] at hword ⊢
  exact tokensFrom_of_word hc hword

/-- A written range is one token. -/
theorem tokensFrom_range {a b : Reference} (ha : a.address.IsNameable) (hb : b.address.IsNameable)
    (pos : Nat) : tokensFrom pos (a.toChars ++ ':' :: b.toChars)
      = .ok [⟨.range a b, String.ofList (a.toChars ++ ':' :: b.toChars), pos⟩,
        ⟨.eof, "", pos + (a.toChars ++ ':' :: b.toChars).length⟩] := by
  have hword := Scan.word_range ha hb
  obtain ⟨c, cs, hchars, hc⟩ := Scan.exists_toChars_eq a
  rw [hchars] at hword ⊢
  exact tokensFrom_of_word hc hword

/-! ## Written ranges are read back -/

theorem ofTokens_range (limit : Nat) (a b : Reference) (text : String) (pos stop : Nat) :
    Expr.ofTokens limit [⟨.range a b, text, pos⟩, ⟨.eof, "", stop⟩]
      = .ok (.range (.ofCorners a b)) := by
  cases limit <;> rfl

theorem toList_range (a b : Reference) :
    (a.toA1 ++ ":" ++ b.toA1).toList = a.toChars ++ ':' :: b.toChars := by
  simp only [String.toList_append, Reference.toA1, String.toList_ofList, List.append_assoc]
  rfl

theorem ofList_range (a b : Reference) :
    String.ofList (a.toChars ++ ':' :: b.toChars) = a.toA1 ++ ":" ++ b.toA1 := by
  rw [← toList_range, String.ofList_toList]

theorem body_range (a b : Reference) :
    body (a.toA1 ++ ":" ++ b.toA1) = a.toChars ++ ':' :: b.toChars := by
  obtain ⟨c, cs, hchars, hc⟩ := Scan.exists_toChars_eq a
  have hblank : isBlank c = false := by
    rcases hc with rfl | hc
    · rfl
    · exact isBlank_of_isLetter hc
  have htrim : trimStart (c :: (cs ++ ':' :: b.toChars)) = c :: (cs ++ ':' :: b.toChars) :=
    List.dropWhile_cons_of_neg (by simp [hblank])
  rw [body, toList_range, hchars, List.cons_append, htrim]
  split
  · next heq =>
    obtain ⟨rfl, -⟩ := List.cons.inj heq
    exact absurd hc (by decide)
  · rfl

theorem trim_range (a b : Reference) :
    trim (a.toChars ++ ':' :: b.toChars) = a.toChars ++ ':' :: b.toChars := by
  refine trim_eq_self fun c hc => ?_
  rcases List.mem_append.mp hc with hc | hc
  · exact Spelling.isBlank_of_mem_chars (p := a.spelling) hc
  · rcases List.mem_cons.mp hc with rfl | hc
    · rfl
    · exact Spelling.isBlank_of_mem_chars (p := b.spelling) hc

/-- A written range is read with its corners in order. -/
theorem ofText_range {a b : Reference} (ha : a.address.IsNameable) (hb : b.address.IsNameable)
    (limit : Nat) :
    Expr.ofText limit (a.toA1 ++ ":" ++ b.toA1) = .ok (.range (.ofCorners a b)) := by
  have hne : ¬a.toChars ++ ':' :: b.toChars = [] := by simp
  unfold Expr.ofText
  dsimp only
  rw [body_range, trim_range, if_neg hne, tokensFrom_range ha hb]
  exact ofTokens_range limit a b _ _ _

end Formula

/-! ## Corners -/

namespace RangeRef

section

variable (a b : Reference)

theorem ofCorners_row_le :
    (ofCorners a b).first.address.row ≤ (ofCorners a b).last.address.row := by
  by_cases h : a.address.row ≤ b.address.row
  · simp only [ofCorners, if_pos h]
    exact h
  · simp only [ofCorners, if_neg h]
    exact (UInt32.le_total _ _).resolve_left h

theorem ofCorners_col_le :
    (ofCorners a b).first.address.col ≤ (ofCorners a b).last.address.col := by
  by_cases h : a.address.col ≤ b.address.col
  · simp only [ofCorners, if_pos h]
    exact h
  · simp only [ofCorners, if_neg h]
    exact (UInt32.le_total _ _).resolve_left h

/-- Putting corners in order twice is putting them in order once, the marks included. -/
theorem ofCorners_corners :
    ofCorners (ofCorners a b).first (ofCorners a b).last = ofCorners a b := by
  have hrow := ofCorners_row_le a b
  have hcol := ofCorners_col_le a b
  generalize ofCorners a b = g at hrow hcol
  simp only [ofCorners, if_pos hrow, if_pos hcol]

end

/-- The corners in order are named by the same numbers as the corners. -/
theorem isNameable_corners {a b : Reference} (ha : a.address.IsNameable)
    (hb : b.address.IsNameable) :
    (ofCorners a b).first.address.IsNameable ∧ (ofCorners a b).last.address.IsNameable := by
  by_cases hrow : a.address.row ≤ b.address.row <;>
  by_cases hcol : a.address.col ≤ b.address.col <;>
  simp only [ofCorners, hrow, hcol, if_true, if_false]
  · exact ⟨⟨ha.row, ha.col⟩, ⟨hb.row, hb.col⟩⟩
  · exact ⟨⟨ha.row, hb.col⟩, ⟨hb.row, ha.col⟩⟩
  · exact ⟨⟨hb.row, ha.col⟩, ⟨ha.row, hb.col⟩⟩
  · exact ⟨⟨hb.row, hb.col⟩, ⟨ha.row, ha.col⟩⟩

end RangeRef

/-! ## Token texts are read again -/

namespace Formula

open Formula.Parser

/-- The references of a token have numbers that are words, and the text of the token is read as
these references: as one, or as two with a colon between them. -/
def TokenKind.Rereads (text : String) : TokenKind → Prop
  | .cell r => r.address.IsNameable ∧ Reference.ofA1 text = .ok r
  | .range a b => (a.address.IsNameable ∧ b.address.IsNameable) ∧
    ∃ left right, Area.splitColon? text.toList = some (left, right) ∧
      Reference.ofA1 (String.ofList left) = .ok a ∧ Reference.ofA1 (String.ofList right) = .ok b
  | _ => True

namespace Scan

open Reference Spelling

/-- If the scanner gives a token, its references are read again from its text. -/
def Rereads (cs : List Char) (x : Except Fault Scan) : Prop :=
  ∀ scan, x = .ok scan → scan.kind.Rereads (String.ofList (cs.take (scan.more + 1)))

variable {cs : List Char}

theorem Rereads.error (fault : Fault) : Rereads cs (.error fault) :=
  nofun

/-- There is nothing to read again in a token without references. -/
theorem Rereads.ok {kind : TokenKind} (hcell : ∀ r, kind ≠ .cell r)
    (hrange : ∀ a b, kind ≠ .range a b) (more : Nat) : Rereads cs (.ok ⟨kind, more⟩) := by
  rintro _ ⟨⟩
  cases kind with
  | cell r => exact absurd rfl (hcell r)
  | range a b => exact absurd rfl (hrange a b)
  | _ => trivial

theorem string_rereads (rest : List Char) : Rereads cs (string rest) := by
  unfold string
  split
  · exact .ok (by simp) (by simp) _
  · exact .error _

theorem number_rereads (rest : List Char) : Rereads cs (number rest) := by
  unfold number
  dsimp only
  split
  · exact .ok (by simp) (by simp) _
  · exact .error _

theorem name_rereads (rest : List Char) : Rereads cs (name rest) := by
  unfold name
  split
  · exact .error _
  · dsimp only
    split
    · exact .ok (by simp) (by simp) _
    · exact .error _

/-- What is measured and read is a spelling that is read again. -/
theorem rereads_measured {n offset : Nat} {r : Reference} (hn : cellLength? cs = some n)
    (hr : reference offset (cs.take n) = .ok r) :
    ∃ (p : Spelling) (tail : List Char), cs = p.chars ++ tail ∧ p.chars.length = n ∧
      r.address.IsNameable ∧ ofA1 (String.ofList p.chars) = .ok r := by
  obtain ⟨p, tail, rfl, rfl, -⟩ := exists_of_cellLength? hn
  rw [List.take_left] at hr
  have hread := ofChars_of_reference hr
  exact ⟨p, tail, rfl, rfl, (ofChars_chars_eq_ok_iff.mp hread).1,
    (ofA1_ofList_chars p).trans hread⟩

theorem splitColon?_chars (p : Spelling) (rest : List Char) :
    Area.splitColon? (p.chars ++ ':' :: rest) = some (p.chars, rest) := by
  have hcolon : ∀ c ∈ p.chars, (c != ':') = true := by
    intro c hc
    rw [bne_iff_ne]
    rintro rfl
    exact absurd (of_mem_chars hc) (by decide)
  have htail : (':' :: rest).head?.any (· != ':') = false := rfl
  rw [Area.splitColon?, dropWhile_append hcolon htail, takeWhile_append hcolon htail]

theorem corner_rereads {p : Spelling} {first : Reference} {rest : List Char}
    (hfirst : first.address.IsNameable) (hread : ofA1 (String.ofList p.chars) = .ok first) :
    Rereads (p.chars ++ ':' :: rest) (corner first (p.chars.length + 1) rest) := by
  cases hn : cellLength? rest with
  | none =>
    unfold corner
    rw [hn]
    exact .error _
  | some n =>
    cases hlast : reference (p.chars.length + 1) (rest.take n) with
    | error fault =>
      unfold corner
      rw [hn]
      simp only [hlast]
      exact .error fault
    | ok last =>
      rw [corner_of_cellLength? hn hlast]
      obtain ⟨q, tail, rfl, rfl, hnameable, hreread⟩ := rereads_measured hn hlast
      rintro _ ⟨⟩
      have htake : (p.chars ++ ':' :: (q.chars ++ tail)).take
          (p.chars.length + 1 + q.chars.length - 1 + 1) = p.chars ++ ':' :: q.chars := by
        rw [← List.cons_append, ← List.append_assoc]
        refine List.take_left' ?_
        rw [List.length_append, List.length_cons]
        omega
      rw [htake]
      refine ⟨⟨hfirst, hnameable⟩, p.chars, q.chars, ?_, hread, hreread⟩
      rw [String.toList_ofList, splitColon?_chars]

theorem word_rereads : Rereads cs (word cs) := by
  cases hn : cellLength? cs with
  | none =>
    unfold word
    rw [hn]
    exact name_rereads cs
  | some n =>
    cases hfirst : reference 0 (cs.take n) with
    | error fault =>
      unfold word
      rw [hn]
      simp only [hfirst]
      exact .error fault
    | ok first =>
      rw [word_of_cellLength? hn hfirst]
      obtain ⟨p, tail, rfl, rfl, hnameable, hread⟩ := rereads_measured hn hfirst
      rw [List.drop_left]
      split
      · exact name_rereads _
      · split
        · exact corner_rereads hnameable hread
        · rintro _ ⟨⟩
          have hlength : p.chars.length - 1 + 1 = p.chars.length :=
            Nat.succ_pred_eq_of_pos (List.length_pos_iff.mpr p.chars_ne_nil)
          rw [hlength, List.take_left]
          exact ⟨hnameable, hread⟩

/-- The text of a token for references is read as these. -/
theorem token_rereads (c : Char) (rest : List Char) : Rereads (c :: rest) (token c rest) := by
  unfold token
  split
  case h_16 => exact string_rereads _
  case h_17 =>
    split
    · exact number_rereads _
    · split
      · exact word_rereads
      · exact .error _
  all_goals exact .ok (by simp) (by simp) _

end Scan

theorem tokensFrom_rereads (pos : Nat) (cs : List Char) :
    ∀ ts, tokensFrom pos cs = .ok ts → ∀ t ∈ ts, t.kind.Rereads t.text := by
  fun_induction tokensFrom pos cs with
  | case1 =>
    rintro _ ⟨⟩ t ht
    rw [List.mem_singleton.mp ht]
    trivial
  | case2 => rintro _ ⟨⟩
  | case3 pos cs start c rest hrest scan hscan ih =>
    intro ts h
    obtain ⟨tokens, htokens, h⟩ := ok_of_bind h
    cases h
    exact List.forall_mem_cons.mpr ⟨Scan.token_rereads c rest scan hscan, ih tokens htokens⟩

/-- A reference whose numbers are words, written as a formula, is one token for this reference, and
two of them with a colon between them are one token for the range from the first to the second.
Putting the corners of a range in order a second time changes nothing, and a range whose corners
are in order is read back from its text with the same marks. In every list of tokens a text falls
into, the numbers of all references are words, and the text of a token is read as the references in
it. -/
theorem references_reread :
    (∀ r : Reference, r.address.IsNameable → tokenize r.toA1
      = .ok [⟨.cell r, r.toA1, 0⟩, ⟨.eof, "", r.toA1.length⟩]) ∧
    (∀ a b : Reference, a.address.IsNameable → b.address.IsNameable →
      tokenize (a.toA1 ++ ":" ++ b.toA1) = .ok [⟨.range a b, a.toA1 ++ ":" ++ b.toA1, 0⟩,
        ⟨.eof, "", (a.toA1 ++ ":" ++ b.toA1).length⟩]) ∧
    (∀ a b : Reference, RangeRef.ofCorners (RangeRef.ofCorners a b).first
      (RangeRef.ofCorners a b).last = RangeRef.ofCorners a b) ∧
    (∀ a b : Reference, a.address.IsNameable → b.address.IsNameable → ∀ limit,
      Expr.ofText limit (RangeRef.ofCorners a b).toA1 = .ok (.range (RangeRef.ofCorners a b))) ∧
    ∀ text ts, tokenize text = .ok ts → ∀ t ∈ ts, t.kind.Rereads t.text := by
  refine ⟨fun r h => ?_, fun a b ha hb => ?_, RangeRef.ofCorners_corners, fun a b ha hb limit => ?_,
    fun text ts h => tokensFrom_rereads 0 text.toList ts h⟩
  · have hlist : r.toA1.toList = r.toChars := String.toList_ofList
    rw [tokenize, hlist, tokensFrom_cell h, ← hlist, String.length_toList, Nat.zero_add]
  · rw [tokenize, toList_range, tokensFrom_range ha hb, ofList_range, ← toList_range,
      String.length_toList, Nat.zero_add]
  · obtain ⟨hfirst, hlast⟩ := RangeRef.isNameable_corners ha hb
    rw [RangeRef.toA1, ofText_range hfirst hlast, RangeRef.ofCorners_corners]

/-- Where both corners are in one row, the first one written counts as the upper. -/
theorem references_reread_row :
    tokenize "$B4:A$4" = .ok [⟨.range ⟨⟨3, 1⟩, false, true⟩ ⟨⟨3, 0⟩, true, false⟩, "$B4:A$4", 0⟩,
      ⟨.eof, "", 7⟩] ∧
    Expr.ofText 0 "A4:$B$4"
      = .ok (.range ⟨⟨⟨3, 0⟩, false, false⟩, ⟨⟨3, 1⟩, true, true⟩⟩) ∧
    ∃ ts, tokenize "SUM(b02,$c$3)" = .ok ts ∧ ∀ t ∈ ts, t.kind.Rereads t.text := by
  obtain ⟨-, htoken, -, hrange, hreread⟩ := references_reread
  have ha : Address.IsNameable ⟨3, 1⟩ := ⟨by decide, by decide⟩
  have hb : Address.IsNameable ⟨3, 0⟩ := ⟨by decide, by decide⟩
  have hwritten : Reference.toA1 ⟨⟨3, 1⟩, false, true⟩ ++ ":"
      ++ Reference.toA1 ⟨⟨3, 0⟩, true, false⟩ = "$B4:A$4" := by decide +kernel
  have hordered : (RangeRef.ofCorners ⟨⟨3, 1⟩, false, true⟩ ⟨⟨3, 0⟩, true, false⟩).toA1
      = "A4:$B$4" := by decide +kernel
  have htokens : tokenize "SUM(b02,$c$3)" = .ok [⟨.name "SUM", "SUM", 0⟩, ⟨.leftParen, "(", 3⟩,
      ⟨.cell ⟨⟨1, 1⟩, false, false⟩, "b02", 4⟩, ⟨.comma, ",", 7⟩,
      ⟨.cell ⟨⟨2, 2⟩, true, true⟩, "$c$3", 8⟩, ⟨.rightParen, ")", 12⟩, ⟨.eof, "", 13⟩] := by
    decide +kernel
  refine ⟨?_, ?_, _, htokens, hreread _ _ htokens⟩
  · have hread := htoken ⟨⟨3, 1⟩, false, true⟩ ⟨⟨3, 0⟩, true, false⟩ ha hb
    rw [hwritten] at hread
    exact hread
  · exact hordered ▸ hrange ⟨⟨3, 1⟩, false, true⟩ ⟨⟨3, 0⟩, true, false⟩ ha hb 0

end Formula

end Spreadsheet
