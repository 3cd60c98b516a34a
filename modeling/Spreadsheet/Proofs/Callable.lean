import Spreadsheet.Proofs.Leaves
import Spreadsheet.Proofs.Vocabulary

/-!
# Calling a function by its name

A word in front of an opening parenthesis is the name of a function, whatever else it may look like,
and blanks between the two make no difference. `LOG10` looks like a cell, and yet `LOG10 (2)` is a
call. What stands behind the name is cut into the same tokens as without it, only further on in the
text.

There is one exception. The numbers of what looks like a cell are read before anything behind it is
looked at. A word that spells a cell which no grid has, such as `A0` or `F4294967296`, is refused
even in front of a parenthesis. A function can be entered in a table under such a name, but no text
calls it.

Results:
1. `Cuts.shift`: a text cuts in the same way further on;
2. `cuts_called`: a name with a parenthesis behind it is cut off;
3. `Phrase.exists_calling`: where a phrase begins with a call, any function can stand there;
4. `Registry.find?_register`: what is entered in a table is found in any case;
5. `callable_unless_off_grid`: what this means for whole texts.
-/

namespace Spreadsheet

open Text Number

namespace Formula

open Formula.Parser Reference

/-! ## Names that are callable -/

/-- A word: letters, digits and underscores, the first of which is no digit. -/
structure IsIdentifier (w : List Char) : Prop where
  first : w.head?.any (fun c => isLetter c || c == '_') = true
  chars : ∀ c ∈ w, isWordChar c = true

/-- The word spells a cell that no grid has: its row is zero, or one of its numbers is no word. -/
def OffGrid (w : List Char) : Prop :=
  ∃ p : Spelling, p.chars = w ∧
    ¬(0 < p.rowNumber ∧ p.rowNumber < UInt32.size ∧ p.colNumber < UInt32.size)

/-- The cells that can be read are those on the grid. -/
theorem exists_ofChars_chars_iff (p : Spelling) : (∃ r, ofChars p.chars = .ok r) ↔
    0 < p.rowNumber ∧ p.rowNumber < UInt32.size ∧ p.colNumber < UInt32.size := by
  constructor
  · rintro ⟨r, hr⟩
    obtain ⟨hnameable, hnames⟩ := ofChars_chars_eq_ok_iff.mp hr
    rw [hnames.row, hnames.col]
    exact ⟨Nat.succ_pos _, hnameable.row, hnameable.col⟩
  · rintro ⟨hpos, hrow, hcol⟩
    have hletters : 0 < p.colNumber := Column.numberOf_pos p.isLetter_of_mem p.letters_ne_nil
    let r : Reference := ⟨⟨UInt32.ofNat (p.rowNumber - 1), UInt32.ofNat (p.colNumber - 1)⟩,
      p.rowPinned, p.colPinned⟩
    have hrowWord : r.address.row.toNat + 1 = p.rowNumber := by
      rw [UInt32.toNat_ofNat_of_lt' (by omega)]
      omega
    have hcolWord : r.address.col.toNat + 1 = p.colNumber := by
      rw [UInt32.toNat_ofNat_of_lt' (by omega)]
      omega
    exact ⟨r, ofChars_chars_eq_ok_iff.mpr
      ⟨⟨hrowWord ▸ hrow, hcolWord ▸ hcol⟩, hcolWord.symm, hrowWord.symm, rfl, rfl⟩⟩

namespace IsIdentifier

variable {w : List Char}

theorem isName (h : IsIdentifier w) : Scan.IsName w where
  ne_nil := by
    rintro rfl
    exact nomatch h.first
  chars c hc := by rw [Scan.isNameChar, h.chars c hc, Bool.true_or]
  last hspace := absurd (h.chars ' ' (List.mem_of_getLast? hspace)) (by decide)

/-- No cell is in the way of a word that is on the grid, if it is a cell at all. -/
theorem free (h : IsIdentifier w) (hgrid : ¬ OffGrid w) : Scan.Free w := by
  rintro p u rfl
  cases u with
  | nil =>
    refine .inr ⟨rfl, (exists_ofChars_chars_iff p).mpr ?_⟩
    by_contra hoff
    exact hgrid ⟨p, (List.append_nil _).symm, hoff⟩
  | cons c u => exact .inl (h.chars c (by simp))

theorem exists_cons (h : IsIdentifier w) :
    ∃ c cs, w = c :: cs ∧ (c = '$' ∨ c = '_' ∨ isLetter c = true) ∧ isBlank c = false := by
  obtain ⟨c, cs, rfl⟩ := List.exists_cons_of_ne_nil h.isName.ne_nil
  have hfirst : (isLetter c || c == '_') = true := h.first
  rw [Bool.or_eq_true, beq_iff_eq, or_comm] at hfirst
  exact ⟨c, cs, rfl, .inr hfirst, isBlank_of_isWordChar (h.chars c List.mem_cons_self)⟩

end IsIdentifier

/-! ## Tokens further on -/

/-- The token in a text with `n` more characters in front. -/
def Token.shift (n : Nat) (t : Token) : Token :=
  { t with pos := t.pos + n }

theorem map_kind_shift (n : Nat) (ts : List Token) :
    (ts.map (Token.shift n)).map Token.kind = ts.map Token.kind := by
  rw [List.map_map]
  rfl

theorem Cuts.shift {pos : Nat} {cs : List Char} {ts : List Token} (h : Cuts pos cs ts) (n : Nat) :
    Cuts (pos + n) cs (ts.map (Token.shift n)) := by
  induction h with
  | @last pos blanks hblanks =>
    have hlast : Cuts (pos + n) blanks _ := .last hblanks
    rwa [Nat.add_right_comm] at hlast
  | @token pos blanks chars cs c kind ts hblanks hc htoken hrest ih =>
    have hplace : pos + n + blanks.length + 1 + chars.length
        = pos + blanks.length + 1 + chars.length + n := by omega
    rw [← hplace] at ih
    have htoken := Cuts.token hblanks hc htoken ih
    rwa [Nat.add_right_comm pos n] at htoken

section

variable {w gap r : List Char} {ts : List Token}

theorem nextSignificant?_gap (hgap : ∀ b ∈ gap, isBlank b = true) :
    nextSignificant? (gap ++ '(' :: r) = some '(' :=
  nextSignificant?_append hgap _

theorem endsName_gap (hgap : ∀ b ∈ gap, isBlank b = true) : Scan.EndsName (gap ++ '(' :: r) := by
  induction gap with
  | nil => rfl
  | cons b gap ih =>
    obtain ⟨hb, htail⟩ := List.forall_mem_cons.mp hgap
    exact (ih htail).blank hb

theorem noRow_gap (hgap : ∀ b ∈ gap, isBlank b = true) : Scan.NoRow (gap ++ '(' :: r) := by
  intro ds hds
  cases gap with
  | nil => exact nomatch hds
  | cons b gap =>
    exact absurd (List.cons.inj hds).1 (ne_of_isBlank (hgap b List.mem_cons_self) (by decide))

/-- A name with a parenthesis behind it is cut off, and the rest as if it stood alone. -/
theorem cuts_called (hw : IsIdentifier w) (hgrid : ¬ OffGrid w) (hgap : ∀ b ∈ gap, isBlank b = true)
    (h : Cuts 0 ('(' :: r) ts) : Cuts 0 (w ++ (gap ++ '(' :: r))
      (⟨.name (String.ofList w), String.ofList w, 0⟩ ::
        ts.map (Token.shift (w.length + gap.length))) := by
  have hword : Scan.Word w (gap ++ '(' :: r) (.name (String.ofList w)) :=
    .name hw.isName (hw.free hgrid) (endsName_gap hgap) (noRow_gap hgap)
      (.inl (nextSignificant?_gap hgap))
  have hscan := Scan.word_of_isWord hword
  obtain ⟨c, cs, rfl, hfirst, hc⟩ := hw.exists_cons
  have htoken : Scan.token c (cs ++ (gap ++ '(' :: r))
      = .ok ⟨.name (String.ofList (c :: cs)), cs.length⟩ := by
    rw [Scan.token_eq_word hfirst]
    exact hscan
  have hplace : 0 + (c :: cs).length + gap.length = 0 + 1 + cs.length + gap.length := by
    rw [List.length_cons]
    omega
  have hrest := h.shift ((c :: cs).length + gap.length)
  rw [← Nat.add_assoc, hplace] at hrest
  have hnone : ∀ b ∈ ([] : List Char), isBlank b = true := nofun
  exact .token hnone hc htoken (.blanks_append hgap hrest)

/-- A word that spells a cell off the grid is a fault, whatever is behind it. -/
theorem exists_fault_of_offGrid (hw : IsIdentifier w) (hoff : OffGrid w)
    (hgap : ∀ b ∈ gap, isBlank b = true) : ∃ cause, ofChars w = .error cause ∧
      ∀ pos, tokensFrom pos (w ++ (gap ++ '(' :: r))
        = .error (.lexical pos (.badReference (String.ofList w) cause)) := by
  obtain ⟨c, cs, hcons, hfirst, hc⟩ := hw.exists_cons
  obtain ⟨p, rfl, hnumbers⟩ := hoff
  have hends : Scan.Ends (gap ++ '(' :: r) := Scan.ends_of_called (nextSignificant?_gap hgap)
  cases hread : ofChars p.chars with
  | ok r => exact absurd ((exists_ofChars_chars_iff p).mp ⟨r, hread⟩) hnumbers
  | error cause =>
    refine ⟨cause, rfl, fun pos => ?_⟩
    have hfault : Scan.word (p.chars ++ (gap ++ '(' :: r))
        = .error ⟨0, .badReference (String.ofList p.chars) cause⟩ := by
      rw [Scan.word, Scan.cellLength?_chars p hends]
      simp only [Scan.reference, List.take_left, hread]
      rfl
    rw [hcons] at hfault ⊢
    exact tokensFrom_of_fault hc ((Scan.token_eq_word hfirst _).trans hfault) pos

end

/-! ## Calls in phrases -/

/-- The expression with this name for the function that is called at its front. -/
def Expr.calling (name : String) : Expr → Expr
  | .binary op l r => .binary op (l.calling name) r
  | .call _ args => .call name args
  | e => e

theorem Expr.height_calling (name : String) (e : Expr) : (e.calling name).height = e.height := by
  induction e using Expr.induction with
  | binary op l r ihl _ => rw [calling, height, ihl, height]
  | call _ args _ => rw [calling, height, height]
  | _ => rfl

theorem Links.expr_calling (name : String) {c : Chain} : (l : Links c) → (left : Expr) →
    (l.expr left).calling name = l.expr (left.calling name)
  | .done, _ => rfl
  | .link _ op _ operand more, left => more.expr_calling name (.binary op left operand.expr)

/-- Where a phrase begins with a call, any name can stand for that of the function. -/
theorem Phrase.exists_calling {name : String} (name' : String) {kinds rest : List TokenKind}
    {b : Binding} : (d : Phrase b) → d.kinds ++ rest = .name name :: .leftParen :: kinds →
      Stops b rest → ∃ d' : Phrase b, d'.kinds ++ rest = .name name' :: .leftParen :: kinds ∧
        d'.expr = d.expr.calling name' ∧ d'.opens = d.opens
  | .chain first more, h, hrest => by
    rw [Phrase.kinds, List.append_assoc] at h
    obtain ⟨first', hkinds, hexpr, hopens⟩ := first.exists_calling name' h (hrest.links more)
    refine ⟨.chain first' more, ?_, ?_, ?_⟩
    · rw [Phrase.kinds, List.append_assoc, hkinds]
    · rw [Phrase.expr, Phrase.expr, hexpr, more.expr_calling]
    · rw [Phrase.opens, Phrase.opens, hopens]
  | .base p, h, hrest => by
    obtain ⟨p', hkinds, hexpr, hopens⟩ := p.exists_calling name' h hrest.base
    exact ⟨.base p', hkinds, hexpr, hopens⟩
  | .power p exponent, h, hrest => by
    rw [Phrase.kinds, List.append_assoc, List.cons_append] at h
    obtain ⟨p', hkinds, hexpr, hopens⟩ := p.exists_calling name' h .caret
    refine ⟨.power p' exponent, ?_, ?_, ?_⟩
    · rw [Phrase.kinds, List.append_assoc, List.cons_append, hkinds]
    · rw [Phrase.expr, Phrase.expr, hexpr, Expr.calling]
    · rw [Phrase.opens, Phrase.opens, hopens]
  | .sign _ _ _ _, h, _ => nomatch h
  | .plain p, h, hrest => by
    obtain ⟨p', hkinds, hexpr, hopens⟩ := p.exists_calling name' h hrest
    exact ⟨.plain p', hkinds, hexpr, hopens⟩
  | .leaf _ _ _, h, hrest => absurd (List.cons.inj h).2 (hrest.ne_leftParen kinds)
  | .constant _, h, _ => by
    obtain ⟨-, hkinds⟩ := List.cons.inj h
    exact ⟨.constant name', congrArg _ hkinds, rfl, rfl⟩
  | .call _ first more, h, _ => by
    obtain ⟨-, hkinds⟩ := List.cons.inj h
    exact ⟨.call name' first more, congrArg _ hkinds, rfl, rfl⟩
  | .group _, h, _ => nomatch h

/-- Where tokens begin with a call, any name can stand for that of the function. -/
theorem Expr.ofTokens_calling {limit : Nat} {name name' : String} {kinds : List TokenKind}
    {ts ts' : List Token} {e : Expr} (hended : Ended ts)
    (hkinds : ts.map Token.kind = .name name :: .leftParen :: kinds)
    (hkinds' : ts'.map Token.kind = .name name' :: .leftParen :: kinds)
    (h : ofTokens limit ts = .ok e) : ofTokens limit ts' = .ok (e.calling name') := by
  obtain ⟨d, hd⟩ := derives_of_ofTokens hended h
  obtain ⟨d', hd', hexpr, hopens⟩ := d.exists_calling name' (hd.kinds.symm.trans hkinds) .eof
  have hderives : Derives limit d' ts' (e.calling name') :=
    { kinds := hkinds'.trans hd'.symm
      namesApart := d'.namesApart .eof
      expr := hexpr.trans (congrArg _ hd.expr)
      opens := hopens.trans_le hd.opens
      height := (e.height_calling name').trans_le hd.height }
  exact ofTokens_of_derives hderives

end Formula

/-! ## Tables -/

/-- What is entered in a table is found under its name in any case. -/
theorem Registry.find?_register (table : Registry) {name name' : String} (d : FunctionDef)
    (h : toUpper name = toUpper name') : (table.register name d).find? name' = some d := by
  have hgone : (table.entries.filter (·.1 ≠ toUpper name)).lookup (toUpper name) = none := by
    refine List.lookup_eq_none_iff.mpr fun p hp => ?_
    have hne : p.1 ≠ toUpper name := by simpa using (List.mem_filter.mp hp).2
    simpa using hne.symm
  rw [find?, register, ← h, List.lookup_append, hgone, Option.none_or]
  exact List.lookup_cons_self

namespace Formula

open Formula.Parser Reference

/-! ## Whole texts -/

theorem Ended.cons {t : Token} {ts : List Token} (h : Ended ts) (ht : t.kind ≠ .eof) :
    Ended (t :: ts) := by
  obtain ⟨tokens, last, rfl, hlast, htokens⟩ := h
  exact ⟨t :: tokens, last, rfl, hlast, List.forall_mem_cons.mpr ⟨ht, htokens⟩⟩

section

variable {w : String} (gap r : String)

theorem toList_called : (w ++ gap ++ "(" ++ r).toList
    = w.toList ++ (gap.toList ++ '(' :: r.toList) := by
  simp only [String.toList_append, List.append_assoc]
  rfl

theorem body_called (hw : IsIdentifier w.toList) :
    body (w ++ gap ++ "(" ++ r) = w.toList ++ (gap.toList ++ '(' :: r.toList) := by
  obtain ⟨c, cs, hcons, hfirst, hc⟩ := hw.exists_cons
  have hne : c ≠ '=' := by
    rintro rfl
    exact absurd hfirst (by decide)
  have hnone : ∀ b ∈ ([] : List Char), isBlank b = true := nofun
  have htext : (w ++ gap ++ "(" ++ r).toList
      = [] ++ c :: (cs ++ (gap.toList ++ '(' :: r.toList)) := by
    rw [toList_called, hcons]
    rfl
  rw [body_eq hnone hc htext, if_neg hne, hcons, List.cons_append]

theorem trim_body_called (hw : IsIdentifier w.toList) :
    trim (body (w ++ gap ++ "(" ++ r)) ≠ [] := by
  rw [body_called gap r hw, ne_eq, trim_eq_nil_iff]
  intro h
  exact absurd (h '(' (by simp)) (by decide)

end

/-- A word in front of an opening parenthesis, with or without blanks between them, is cut off as a
name if it does not spell a cell off the grid, and what is behind is cut into the same tokens as
without it. What these are an expression with, given the name of any function in front of them, is
what the text is read as with the word for that name. If the word does spell a cell off the grid,
this is the fault of the text. A call by the word goes to the function that was entered in the table
under the word in any case. -/
theorem callable_unless_off_grid (w gap r : String) (ts : List Token) (hw : IsIdentifier w.toList)
    (hgap : ∀ b ∈ gap.toList, isBlank b = true) (hts : tokenize ("(" ++ r) = .ok ts) :
    (¬ OffGrid w.toList →
      tokenize (w ++ gap ++ "(" ++ r)
        = .ok (⟨.name w, w, 0⟩ :: ts.map (Token.shift (w.length + gap.length))) ∧
      ∀ limit f e, Expr.ofTokens limit (⟨.name f, f, 0⟩ :: ts) = .ok e →
        Expr.ofText limit (w ++ gap ++ "(" ++ r) = .ok (e.calling w)) ∧
    (OffGrid w.toList → ∃ cause, ofChars w.toList = .error cause ∧
      tokenize (w ++ gap ++ "(" ++ r) = .error (.lexical 0 (.badReference w cause)) ∧
      ∀ limit, Expr.ofText limit (w ++ gap ++ "(" ++ r)
        = .error (.lexical 0 (.badReference w cause))) ∧
    ∀ (setting : Setting) (table : Registry) name d, setting.functions = table.register name d →
      toUpper name = toUpper w → ∀ (read : Address → Eval Value) args,
        (Expr.call w args).value setting read =
          if d.accepts args.length then do
            let vs ← Expr.values setting read args
            return d.implementation setting.limits vs
          else pure (.error .value) := by
  have hcuts : Cuts 0 ('(' :: r.toList) ts := by
    have htext := tokensFrom_eq_ok_iff.mp hts
    rwa [String.toList_append] at htext
  have hbody := body_called gap r hw
  refine ⟨fun hgrid => ?_, fun hoff => ?_, fun setting table name d htable hname read args => ?_⟩
  · have hcalled := (cuts_called hw hgrid hgap hcuts).tokensFrom_eq
    rw [String.ofList_toList, String.length_toList, String.length_toList] at hcalled
    refine ⟨?_, fun limit f e he => ?_⟩
    · rw [tokenize, toList_called, hcalled]
    · obtain ⟨kind, chars, rest, ts', -, htoken, rfl, -⟩ := hcuts.exists_of_cons rfl
      obtain ⟨rfl, -⟩ := Scan.mk.inj (Except.ok.inj htoken)
      rw [← hbody] at hcalled
      rw [Expr.ofText_eq_ofTokens (trim_body_called gap r hw) hcalled]
      have hended : Ended (⟨.name f, f, 0⟩ :: _) := (ended_of_tokensFrom hts).cons (by simp)
      refine Expr.ofTokens_calling hended rfl ?_ he
      rw [List.map_cons, map_kind_shift]
      rfl
  · obtain ⟨cause, hcause, hfault⟩ := exists_fault_of_offGrid (r := r.toList) hw hoff hgap
    have hfault := hfault 0
    rw [String.ofList_toList] at hfault
    refine ⟨cause, hcause, ?_, fun limit => ?_⟩
    · rw [tokenize, toList_called, hfault]
    · rw [← hbody] at hfault
      exact Expr.ofText_of_fault (trim_body_called gap r hw) hfault
  · rw [Expr.value, htable, table.find?_register d hname]

/-- A name that looks like a cell, called in another case than it was entered in and with a blank
that is no space before its argument. -/
theorem callable_unless_off_grid_log10 :
    let a1 : Reference := ⟨⟨0, 0⟩, false, false⟩
    IsIdentifier "LOG10".toList ∧ ¬ OffGrid "LOG10".toList ∧
    tokenize "LOG10\t(A1)" = .ok [⟨.name "LOG10", "LOG10", 0⟩, ⟨.leftParen, "(", 6⟩,
      ⟨.cell a1, "A1", 7⟩, ⟨.rightParen, ")", 9⟩, ⟨.eof, "", 10⟩] ∧
    Expr.ofText 1 "LOG10\t(A1)" = .ok (.call "LOG10" [.cell a1]) ∧
    ∀ (setting : Setting) (table : Registry) d, setting.functions = table.register "log10" d →
      d.accepts 1 = true → ∀ read : Address → Eval Value,
        (Expr.call "LOG10" [.cell a1]).value setting read = do
          let v ← read a1.address
          return d.implementation setting.limits [v] := by
  intro a1
  have hw : IsIdentifier "LOG10".toList := ⟨rfl, List.all_eq_true.mp rfl⟩
  have hread : ∃ r, ofChars "LOG10".toList = .ok r := ⟨⟨⟨9, 8508⟩, false, false⟩, by decide +kernel⟩
  have hgrid : ¬ OffGrid "LOG10".toList := by
    rintro ⟨p, hp, hoff⟩
    rw [← hp] at hread
    exact hoff ((exists_ofChars_chars_iff p).mp hread)
  have hgap : ∀ b ∈ "\t".toList, isBlank b = true := List.all_eq_true.mp rfl
  have hts : tokenize ("(" ++ "A1)") = .ok [⟨.leftParen, "(", 0⟩, ⟨.cell a1, "A1", 1⟩,
      ⟨.rightParen, ")", 3⟩, ⟨.eof, "", 4⟩] := by decide +kernel
  obtain ⟨hcalled, -, hreached⟩ := callable_unless_off_grid "LOG10" "\t" "A1)" _ hw hgap hts
  obtain ⟨htokens, hexpr⟩ := hcalled hgrid
  have hname : toUpper "log10" = toUpper "LOG10" := by decide +kernel
  refine ⟨hw, hgrid, htokens, hexpr 1 "F" (.call "F" [.cell a1]) rfl, ?_⟩
  intro setting table d htable haccepts read
  rw [hreached setting table "log10" d htable hname read, List.length_singleton, if_pos haccepts]
  rfl

/-- A word that can be entered in a table, with a parenthesis behind it, and no name. -/
theorem off_grid_name_is_not_callable :
    IsIdentifier "A0".toList ∧
    (∀ (table : Registry) d, (table.register "A0" d).find? "A0" = some d) ∧
    (∃ ts, tokenize "(1)" = .ok ts) ∧
    tokenize "A0(1)" = .error (.lexical 0 (.badReference "A0" (.row "0"))) := by
  refine ⟨⟨rfl, List.all_eq_true.mp rfl⟩, fun table d => table.find?_register d rfl, ?_,
    by decide +kernel⟩
  exact ⟨[⟨.leftParen, "(", 0⟩, ⟨.number 1 (some 1), "1", 1⟩, ⟨.rightParen, ")", 2⟩,
    ⟨.eof, "", 3⟩], by decide +kernel⟩

end Formula

end Spreadsheet
