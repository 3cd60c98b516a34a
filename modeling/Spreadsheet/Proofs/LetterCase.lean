import Spreadsheet.Engine
import Spreadsheet.Proofs.Cutoff
import Spreadsheet.Proofs.Quoting
import Spreadsheet.Proofs.Respelling

/-!
# The case of letters in a formula

Letters of a formula text may be put into the other case, wherever they stand outside the string
literals. The text is a formula still: it is cut at the same places into tokens of the same kinds,
but for the case of its names. The expression is then a respelling, and it has the same value.

Under a limit that the text does not keep to, both texts are refused, since a limit does nothing
else than to refuse a level or a tree. So the texts agree under every limit, once one of them is a
formula under any.

Results:
1. `Recased`: letters of a text put into the other case at some of its places;
2. `Scan.token_recased`, `Cuts.recased`: the same is cut off from both texts;
3. `Expr.recased_ofText`: both are read or both are refused, under every limit;
4. `spelling_never_changes_a_value`: what follows for values, and for respellings of any tree.
-/

namespace Spreadsheet

open Text

namespace Formula

open Formula.Parser

/-! ## Letters in another case -/

/-- The second text is the first one, which goes on from `place`, with ASCII letters put into the
other case, but none where a place is fixed. -/
inductive Recased (fixed : Nat → Prop) : (place : Nat) → List Char → List Char → Prop where
  | nil (place : Nat) : Recased fixed place [] []
  | cons {c c' : Char} {place : Nat} {cs cs' : List Char} (hcase : c'.toUpper = c.toUpper)
      (hfixed : fixed place → c' = c) (h : Recased fixed (place + 1) cs cs') :
      Recased fixed place (c :: cs) (c' :: cs')

namespace Recased

variable {fixed : Nat → Prop} {place : Nat} {cs cs' : List Char}

theorem folded_eq (h : Recased fixed place cs cs') : folded cs' = folded cs := by
  induction h with
  | nil => rfl
  | cons hcase _ _ ih => rw [folded_cons, folded_cons, hcase, ih]

theorem length_eq (h : Recased fixed place cs cs') : cs'.length = cs.length := by
  rw [← length_folded, h.folded_eq, length_folded]

/-- A class of characters that does not tell case apart is kept. -/
theorem all_eq {p : Char → Bool} (hp : Folds p) (h : Recased fixed place cs cs') :
    cs'.all p = cs.all p := by
  rw [← all_folded hp, h.folded_eq, all_folded hp]

theorem isBlank_of_mem (h : Recased fixed place cs cs') (hcs : ∀ b ∈ cs, isBlank b = true) :
    ∀ b ∈ cs', isBlank b = true := by
  rw [← List.all_eq_true] at hcs ⊢
  rw [h.all_eq isBlank_toUpper, hcs]

/-- Where all places are fixed nothing changes. -/
theorem eq_of_fixed (h : Recased fixed place cs cs')
    (hfixed : ∀ i, place ≤ i → i < place + cs.length → fixed i) : cs' = cs := by
  induction h with
  | nil => rfl
  | @cons c c' place cs cs' _ hplace _ ih =>
    rw [List.length_cons] at hfixed
    have hhead := hplace (hfixed place (Nat.le_refl place) (by omega))
    rw [hhead, ih fun i hle hlt => hfixed i (by omega) (by omega)]

theorem exists_of_append {front back : List Char} (h : Recased fixed place (front ++ back) cs') :
    ∃ front' back', cs' = front' ++ back' ∧ Recased fixed place front front' ∧
      Recased fixed (place + front.length) back back' := by
  induction front generalizing place cs' with
  | nil => exact ⟨[], cs', rfl, .nil place, h⟩
  | cons c front ih =>
    cases h with
    | cons hcase hfixed h =>
      obtain ⟨front', back', rfl, hfront, hback⟩ := ih h
      refine ⟨_ :: front', back', rfl, .cons hcase hfixed hfront, ?_⟩
      rwa [List.length_cons, Nat.add_comm front.length, ← Nat.add_assoc]

/-- Blanks in front, and a character behind them, are there still. -/
theorem exists_of_blanks_append_cons {blanks more : List Char} {c : Char}
    (h : Recased fixed place (blanks ++ c :: more) cs') (hblanks : ∀ b ∈ blanks, isBlank b = true) :
    ∃ blanks' c' more', cs' = blanks' ++ c' :: more' ∧ (∀ b ∈ blanks', isBlank b = true) ∧
      blanks'.length = blanks.length ∧ c'.toUpper = c.toUpper ∧
      (fixed (place + blanks.length) → c' = c) ∧
      Recased fixed (place + blanks.length + 1) more more' := by
  obtain ⟨blanks', rest, rfl, hfront, hrest⟩ := h.exists_of_append
  cases hrest with
  | cons hcase hfixed hmore =>
    exact ⟨blanks', _, _, rfl, hfront.isBlank_of_mem hblanks, hfront.length_eq, hcase, hfixed,
      hmore⟩

end Recased

/-! ## Tokens -/

namespace Scan

variable {fixed : Nat → Prop} {place n : Nat} {c c' : Char} {chars chars' cs cs' : List Char}
  {kind : TokenKind}

theorem exists_of_found_eq {x y : Except Fault Scan} (h : found y = found x)
    (hx : x = .ok ⟨kind, n⟩) : ∃ kind', y = .ok ⟨kind', n⟩ ∧ kind'.folded = kind.folded := by
  subst hx
  cases y with
  | error fault => cases h
  | ok scan =>
    obtain ⟨kind', n'⟩ := scan
    obtain ⟨hkind, rfl⟩ := Prod.mk.inj (Option.some.inj h)
    exact ⟨kind', rfl, hkind⟩

/-- A token that is no string literal is found in another case, too. -/
theorem token_of_folded_eq (hc : c ≠ '"') (hcase : c'.toUpper = c.toUpper)
    (hcs : folded cs' = folded cs) (h : token c cs = .ok ⟨kind, n⟩) :
    ∃ kind', token c' cs' = .ok ⟨kind', n⟩ ∧ kind'.folded = kind.folded := by
  have hc' : c' ≠ '"' := mt (eq_iff_of_toUpper_eq (by decide) hcase).mp hc
  refine exists_of_found_eq ?_ h
  rw [← found_token_folded hc', hcase, hcs, found_token_folded hc]

/-- A string literal ends at the same quote, whatever the case of the letters behind it. -/
theorem string_of_folded_eq (hcs : folded cs' = folded cs)
    (h : token '"' (chars ++ cs) = .ok ⟨kind, chars.length⟩) :
    (∃ s, kind = .text s) ∧ token '"' (chars ++ cs') = .ok ⟨kind, chars.length⟩ := by
  have htext : ∃ s, kind = .text s := by
    rw [token_quote, string] at h
    split at h
    · cases h
      exact ⟨_, rfl⟩
    · cases h
  obtain ⟨s, rfl⟩ := htext
  have hquote : isLetter '"' = false := by decide
  obtain ⟨-, code, hchars, hcloses⟩ := token_append_eq_text_iff.mp h
  have hsingle : cs'.head? ≠ some '"' := by
    rw [ne_eq, ← head?_folded_eq_iff hquote, hcs, head?_folded_eq_iff hquote]
    exact hcloses.single
  exact ⟨⟨s, rfl⟩, token_append_eq_text_iff.mpr ⟨rfl, code, hchars, hcloses.spells, hsingle⟩⟩

/-- A scanner finds the same in another case, if string literals are fixed. -/
theorem token_recased (h : token c (chars ++ cs) = .ok ⟨kind, chars.length⟩)
    (hcase : c'.toUpper = c.toUpper) (hfirst : fixed place → c' = c)
    (hchars : Recased fixed (place + 1) chars chars')
    (hcs : Recased fixed (place + 1 + chars.length) cs cs')
    (hfixed : ∀ s, kind = .text s → ∀ i, place ≤ i → i < place + 1 + chars.length → fixed i) :
    ∃ kind', token c' (chars' ++ cs') = .ok ⟨kind', chars'.length⟩ ∧
      kind'.folded = kind.folded := by
  by_cases hquote : c = '"'
  · subst hquote
    obtain ⟨⟨s, rfl⟩, hliteral⟩ := string_of_folded_eq hcs.folded_eq h
    have hwithin := hfixed s rfl
    obtain rfl := hfirst (hwithin place (Nat.le_refl place) (by omega))
    obtain rfl := hchars.eq_of_fixed fun i hle => hwithin i (Nat.le_of_succ_le hle)
    exact ⟨.text s, hliteral, rfl⟩
  · have hrest : folded (chars' ++ cs') = folded (chars ++ cs) := by
      rw [folded_append, folded_append, hchars.folded_eq, hcs.folded_eq]
    rw [hchars.length_eq]
    exact token_of_folded_eq hquote hcase hrest h

end Scan

/-! ## Whole texts -/

/-- Letters in another case leave a text cut at the same places, into tokens of the same kinds but
for the case of the names, if the string literals are fixed. -/
theorem Cuts.recased {lead pos : Nat} {cs : List Char} {ts : List Token} (h : Cuts pos cs ts)
    {fixed : Nat → Prop} (hfixed : ∀ t ∈ ts, ∀ s, t.kind = .text s →
      ∀ i, lead + t.pos ≤ i → i < lead + t.pos + t.text.length → fixed i) {cs' : List Char}
    (hr : Recased fixed (lead + pos) cs cs') :
    ∃ ts', Cuts pos cs' ts' ∧ KindsRecased (ts.map Token.kind) (ts'.map Token.kind) := by
  induction h generalizing cs' with
  | @last pos blanks hblanks =>
    exact ⟨_, .last (hr.isBlank_of_mem hblanks), rfl⟩
  | @token pos blanks chars cs c kind ts hblanks hc htoken hrest ih =>
    obtain ⟨hhere, hfixed⟩ := List.forall_mem_cons.mp hfixed
    obtain ⟨blanks', c', _, rfl, hblanks', hblanksLength, hcase, hfirst, hmore⟩ :=
      hr.exists_of_blanks_append_cons hblanks
    obtain ⟨chars', cs'', rfl, hchars, hcs⟩ := hmore.exists_of_append
    have hc' : isBlank c' = false := (isBlank_toUpper.eq hcase).trans hc
    obtain ⟨kind', htoken', hkind⟩ := Scan.token_recased htoken hcase hfirst hchars hcs
      fun s hs i hle hlt => by
        refine hhere s hs i (by simp only; omega) ?_
        rw [String.length_ofList, List.length_cons]
        simp only
        omega
    have hplace : lead + pos + blanks.length + 1 + chars.length
        = lead + (pos + blanks.length + 1 + chars.length) := by omega
    obtain ⟨ts', hcuts, hkinds⟩ := ih hfixed (hplace ▸ hcs)
    rw [← hblanksLength, ← hchars.length_eq] at hcuts
    exact ⟨_, .token hblanks' hc' htoken' hcuts, hkinds.cons hkind⟩

/-- A place of a text that is inside a string literal, or one of its quotes. The tokens are those
behind the equals sign, and their positions are counted from there. -/
def InLiteral (text : String) (i : Nat) : Prop :=
  ∃ ts t s, tokensFrom 0 (body text) = .ok ts ∧ t ∈ ts ∧ t.kind = .text s ∧
    let start := text.length - (body text).length + t.pos
    start ≤ i ∧ i < start + t.text.length

/-- An equals sign has no case, so what is behind it in both texts differs in the case of letters
only. -/
theorem Recased.body {fixed : Nat → Prop} {text text' : String}
    (h : Recased fixed 0 text.toList text'.toList) (htext : trim (body text) ≠ []) :
    Recased fixed (text.length - (body text).length) (body text) (body text') := by
  obtain ⟨blanks, c, more, hcut, hblanks, hc⟩ := exists_of_trim_body_ne_nil htext
  rw [← hcut] at h
  obtain ⟨blanks', c', more', hcut', hblanks', -, hcase, hfirst, hmore⟩ :=
    h.exists_of_blanks_append_cons hblanks
  rw [Nat.zero_add] at hfirst hmore
  have hc' : isBlank c' = false := (isBlank_toUpper.eq hcase).trans hc
  have hsign : c' = '=' ↔ c = '=' := eq_iff_of_toUpper_eq (by decide) hcase
  rw [lead_eq hblanks hc hcut.symm, body_eq hblanks hc hcut.symm, body_eq hblanks' hc' hcut']
  simp only [hsign]
  split
  · exact hmore
  · exact .cons hcase hfirst hmore

namespace Expr

variable {limit limit' : Nat} {text text' : String} {ts : List Token} {e : Expr}

/-- If tokens are an expression under one limit, nothing else than depth is wrong with them under
another. -/
theorem eq_tooDeep_of_ofTokens {x : FormulaError} (h : ofTokens limit ts = .ok e)
    (hx : ofTokens limit' ts = .error x) : x = .tooDeep := by
  rcases Nat.le_total limit limit' with hle | hle
  · rcases cutsOff_ofTokens hle ts with hcut | hsame
    · rw [h] at hcut
      cases hcut
    · rw [h, hx] at hsame
      cases hsame
  · rcases cutsOff_ofTokens hle ts with hcut | hsame
    · exact Except.error.inj (hx.symm.trans hcut)
    · rw [h, hx] at hsame
      cases hsame

/-- Two results of reading: expressions that are respellings, or the error of depth for both. -/
inductive Agree : Except FormulaError Expr → Except FormulaError Expr → Prop where
  | ok {e e' : Expr} (h : e.Respelled e') : Agree (.ok e) (.ok e')
  | tooDeep : Agree (.error .tooDeep) (.error .tooDeep)

theorem Agree.exists_of_ok {y : Except FormulaError Expr} (h : Agree (.ok e) y) :
    ∃ e', y = .ok e' ∧ e.Respelled e' := by
  cases h with
  | ok h => exact ⟨_, rfl, h⟩

/-- A formula with letters in another case is read or refused with the formula, under every
limit. -/
theorem recased_ofText (h : ofText limit text = .ok e)
    (hr : Recased (InLiteral text) 0 text.toList text'.toList) (limit' : Nat) :
    Agree (ofText limit' text) (ofText limit' text') := by
  obtain ⟨htext, ts, hts, he⟩ := exists_tokens_of_ofText h
  have hbody := hr.body htext
  obtain ⟨ts', hcuts, hkinds⟩ := (cuts_of_tokensFrom 0 _ ts hts).recased
    (fun t ht s hs i hle hlt => ⟨ts, t, s, hts, ht, hs, hle, hlt⟩) hbody
  have htext' : trim (body text') ≠ [] := by
    rw [ne_eq, trim_eq_nil_iff, ← List.all_eq_true] at htext ⊢
    rwa [hbody.all_eq isBlank_toUpper]
  have hts' := hcuts.tokensFrom_eq
  have hended := ended_of_tokensFrom hts
  have hended' := ended_of_tokensFrom hts'
  rw [ofText_eq_ofTokens htext hts, ofText_eq_ofTokens htext' hts']
  obtain ⟨e', he', -⟩ := exists_respelled_of_ofTokens hended hkinds he
  cases hread : ofTokens limit' ts with
  | ok f =>
    obtain ⟨f', hf', hrespelled⟩ := exists_respelled_of_ofTokens hended hkinds hread
    rw [hf']
    exact .ok hrespelled
  | error x =>
    cases hread' : ofTokens limit' ts' with
    | ok f' =>
      obtain ⟨f, hf, -⟩ := exists_respelled_of_ofTokens hended' hkinds.symm hread'
      rw [hread] at hf
      cases hf
    | error x' =>
      rw [eq_tooDeep_of_ofTokens he hread, eq_tooDeep_of_ofTokens he' hread']
      exact .tooDeep

end Expr

end Formula

/-! ## Values -/

open Formula

theorem Session.evaluate_of_respelled {e e' : Expr} (h : e.Respelled e') (w : Setting) :
    Session.evaluate w e' = Session.evaluate w e :=
  funext fun s => congrFun (h.value_eq w (Cell.value w (s.room w))) s

/-- What is read in the same way, or refused for the same depth, has the same value. -/
theorem Engine.evaluateFormula_of_agree {engine : Engine} {text text' : String}
    (h : Expr.Agree (Expr.ofText engine.limits.maxNesting text)
      (Expr.ofText engine.limits.maxNesting text')) (g : Grid) :
    engine.evaluateFormula g text' = engine.evaluateFormula g text := by
  have hrun : engine.runFormula g text' = engine.runFormula g text := by
    unfold Engine.runFormula
    generalize Expr.ofText engine.limits.maxNesting text = x at h ⊢
    generalize Expr.ofText engine.limits.maxNesting text' = x' at h ⊢
    cases h with
    | ok h =>
      simp only [Engine.evaluateExpr, Session.evaluateRoot, Session.evaluate_of_respelled h]
    | tooDeep => rfl
  rw [Engine.evaluateFormula, Engine.evaluateFormula, hrun]

/-- If a text is a formula under some limit, then with its letters outside string literals in
whatever case it is a formula under this limit, for a respelling of the same expression, and both
have the same value whatever the grid, the functions and the limits are. Respellings of any
expression, read from a text or not, have the same value from every session and leave the same
session behind: expressions that differ only in what is pinned, in the case of function names, and
in the opposite corners by which a range gives its rectangle. -/
theorem spelling_never_changes_a_value :
    (∀ limit text text' e, Expr.ofText limit text = .ok e →
      Recased (InLiteral text) 0 text.toList text'.toList →
      (∃ e', Expr.ofText limit text' = .ok e' ∧ e.Respelled e') ∧
      ∀ (engine : Engine) (g : Grid),
        engine.evaluateFormula g text' = engine.evaluateFormula g text) ∧
    (∀ (r q : RangeRef), r.Opposite q ↔ q.area = r.area) ∧
    ∀ (e e' : Expr), e.Respelled e' → ∀ (w : Setting) (s : Session),
      Session.evaluate w e' s = Session.evaluate w e s := by
  refine ⟨fun limit text text' e h hr => ⟨?_, fun engine g => ?_⟩,
    fun r q => RangeRef.area_eq_iff.symm, fun e e' h w s => ?_⟩
  · have hagree := Expr.recased_ofText h hr limit
    rw [h] at hagree
    exact hagree.exists_of_ok
  · exact Engine.evaluateFormula_of_agree (Expr.recased_ofText h hr _) g
  · rw [Session.evaluate_of_respelled h]

/-- A name, two references and a power of ten in the other case, and a literal that keeps its own;
and a range with the other two corners, one of them pinned. -/
theorem spelling_never_changes_a_value_sum :
    let a1 : Reference := ⟨⟨0, 0⟩, false, false⟩
    let b2 : Reference := ⟨⟨1, 1⟩, false, false⟩
    let e : Expr := .binary .concat (.call "Sum" [.range ⟨a1, b2⟩, .literal (.float 1000)])
      (.literal (.text "x"))
    let respelled : Expr := .binary .concat
      (.call "sUM" [.range ⟨⟨⟨1, 0⟩, true, true⟩, ⟨⟨0, 1⟩, false, false⟩⟩, .literal (.float 1000)])
      (.literal (.text "x"))
    Expr.ofText 2 "=Sum(a1:B2,1e3)&\"x\"" = .ok e ∧
    Recased (InLiteral "=Sum(a1:B2,1e3)&\"x\"") 0 "=Sum(a1:B2,1e3)&\"x\"".toList
      "=sUM(A1:b2,1E3)&\"x\"".toList ∧
    (∀ (engine : Engine) (g : Grid), engine.evaluateFormula g "=sUM(A1:b2,1E3)&\"x\"" =
      engine.evaluateFormula g "=Sum(a1:B2,1e3)&\"x\"") ∧
    e.Respelled respelled ∧
    ∀ (w : Setting) (s : Session), Session.evaluate w respelled s = Session.evaluate w e s := by
  intro a1 b2 e respelled
  obtain ⟨hcase, -, htree⟩ := spelling_never_changes_a_value
  have htokens : tokensFrom 0 (body "=Sum(a1:B2,1e3)&\"x\"") = .ok
      [⟨.name "Sum", "Sum", 0⟩, ⟨.leftParen, "(", 3⟩, ⟨.range a1 b2, "a1:B2", 4⟩,
        ⟨.comma, ",", 9⟩, ⟨.number 1000 none, "1e3", 10⟩, ⟨.rightParen, ")", 13⟩,
        ⟨.op .ampersand, "&", 14⟩, ⟨.text "x", "\"x\"", 15⟩, ⟨.eof, "", 18⟩] := by decide +kernel
  have hread : Expr.ofText 2 "=Sum(a1:B2,1e3)&\"x\"" = .ok e :=
    Expr.ofText_of_tokens _ (by decide +kernel) htokens rfl
  have hfree : ∀ i < 16, ¬InLiteral "=Sum(a1:B2,1e3)&\"x\"" i := by
    rintro i hi ⟨ts, t, s, hts, ht, hs, hle, -⟩
    cases htokens.symm.trans hts
    have hlead : "=Sum(a1:B2,1e3)&\"x\"".length - (body "=Sum(a1:B2,1e3)&\"x\"").length = 1 := by
      decide +kernel
    have hpos : t.pos = 15 := by
      fin_cases ht <;> first | rfl | cases hs
    rw [hlead, hpos] at hle
    omega
  have hr : Recased (InLiteral "=Sum(a1:B2,1e3)&\"x\"") 0 "=Sum(a1:B2,1e3)&\"x\"".toList
      "=sUM(A1:b2,1E3)&\"x\"".toList := by
    have free {i : Nat} (hi : i < 16) {c c' : Char} (h : InLiteral "=Sum(a1:B2,1e3)&\"x\"" i) :
        c' = c := absurd h (hfree i hi)
    have same {i : Nat} {c : Char} (_ : InLiteral "=Sum(a1:B2,1e3)&\"x\"" i) : c = c := rfl
    exact .cons rfl same <| .cons rfl (free (by decide)) <| .cons rfl (free (by decide)) <|
      .cons rfl (free (by decide)) <| .cons rfl same <| .cons rfl (free (by decide)) <|
      .cons rfl same <| .cons rfl same <| .cons rfl (free (by decide)) <| .cons rfl same <|
      .cons rfl same <| .cons rfl same <| .cons rfl (free (by decide)) <| .cons rfl same <|
      .cons rfl same <| .cons rfl same <| .cons rfl same <| .cons rfl same <| .cons rfl same <|
      .nil 19
  have hrespelled : e.Respelled respelled :=
    .binary .concat (.call rfl (.cons (.range ⟨.inr ⟨rfl, rfl⟩, .inl ⟨rfl, rfl⟩⟩)
      (.cons (.literal _) .nil))) (.literal _)
  exact ⟨hread, hr, (hcase _ _ _ _ hread hr).2, hrespelled, htree e respelled hrespelled⟩

end Spreadsheet
