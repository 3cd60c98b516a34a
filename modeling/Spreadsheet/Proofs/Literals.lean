import Spreadsheet.Proofs.Leaves
import Spreadsheet.Proofs.Texts

/-!
# Literals and the text of a formula

The literals of an expression are tokens of its text, each a piece of the text that stands for a
value. A string literal is written between quotes, and none of its characters takes less than one
character of the text. So no literal is longer than the formula that it is in.

Results:
1. `Expr.written_of_ofText`: each literal of an expression is one of its tokens;
2. `length_lt_of_tokensFrom`: the text in a token is shorter than what it is cut out of;
3. `Expr.length_le_of_ofText`: so no text among the literals is longer than the formula.
-/

namespace Spreadsheet.Formula

open Text Formula.Parser

/-! ## Literals are tokens -/

/-- One of the tokens is a literal with the value. -/
def Written (v : Value) (kinds : List TokenKind) : Prop :=
  ∃ kind ∈ kinds, Leaf kind (.literal v)

theorem leaf_of_keyword? {name : String} {v : Value} (h : TokenKind.keyword? name = some v) :
    Leaf (.name name) (.literal v) := by
  unfold TokenKind.keyword? at h
  split at h
  · next htrue =>
    cases h
    exact .isTrue htrue
  · split at h
    · next hfalse =>
      cases h
      exact .isFalse hfalse
    · exact nomatch h

/-- A token that stands for a value is a literal with that value. -/
theorem leaf_of_literal? {kind : TokenKind} {next : Option TokenKind} {v : Value}
    (h : kind.literal? next = some v) : Leaf kind (.literal v) := by
  unfold TokenKind.literal? at h
  split at h
  · cases h
    exact .int _ _
  · cases h
    exact .float _
  · cases h
    exact .text _
  · split at h
    · exact nomatch h
    · exact leaf_of_keyword? h
  · exact nomatch h

theorem written_of_mem_literalsIn {v : Value} {kinds : List TokenKind}
    (h : v ∈ TokenKind.literalsIn kinds) : Written v kinds := by
  induction kinds with
  | nil => exact absurd h List.not_mem_nil
  | cons kind kinds ih =>
    rcases List.mem_append.mp h with h | h
    · exact ⟨kind, List.mem_cons_self, leaf_of_literal? (Option.mem_toList.mp h)⟩
    · obtain ⟨kind', hkind, hleaf⟩ := ih h
      exact ⟨kind', List.mem_cons_of_mem kind hkind, hleaf⟩

/-! ## Tokens are pieces of the text -/

namespace Scan

/-- Every character of a string literal takes one character of the text or two, and the closing
quote takes one more. -/
theorem length_lt_of_stringBody? {cs t : List Char} {n : Nat}
    (h : stringBody? cs = some (t, n)) : t.length < n := by
  fun_induction stringBody? cs generalizing t n with
  | case1 => cases h
  | case3 =>
    obtain ⟨rfl, rfl⟩ := Prod.mk.inj (Option.some.inj h)
    exact Nat.zero_lt_one
  -- a doubled quote or an escape: two characters of the text for one
  | case2 cs ih | case4 cs ih | case5 cs ih | case6 cs ih | case7 cs ih | case8 cs ih =>
    obtain ⟨⟨u, m⟩, hm, hn⟩ := Option.map_eq_some_iff.mp h
    obtain ⟨rfl, rfl⟩ := Prod.mk.inj hn
    have := ih hm
    rw [List.length_cons]
    omega
  | case9 c cs _ _ _ _ _ _ _ ih =>
    obtain ⟨⟨u, m⟩, hm, hn⟩ := Option.map_eq_some_iff.mp h
    obtain ⟨rfl, rfl⟩ := Prod.mk.inj hn
    have := ih hm
    rw [List.length_cons]
    omega

/-- If the scanner gives a text, the text has fewer than `n` characters. -/
def Short (n : Nat) (x : Except Fault Scan) : Prop :=
  ∀ scan s, x = .ok scan → scan.kind = .text s → s.length < n

variable {n : Nat} {cs : List Char}

theorem Short.error (fault : Fault) : Short n (.error fault) :=
  nofun

theorem Short.ok {kind : TokenKind} (h : ∀ s, kind ≠ .text s) (more : Nat) :
    Short n (.ok ⟨kind, more⟩) := by
  rintro _ s ⟨⟩ hs
  exact absurd hs (h s)

theorem string_short (cs : List Char) : Short (cs.length + 1) (string cs) := by
  unfold string
  split
  · next t n h =>
    rintro _ _ ⟨⟩ ⟨⟩
    rw [String.length_ofList]
    exact Nat.lt_succ_of_lt (Nat.lt_of_lt_of_le (length_lt_of_stringBody? h) (stringBody?_le h))
  · exact .error _

theorem number_short : Short n (number cs) := by
  unfold number
  dsimp only
  split
  · exact .ok (by simp) _
  · exact .error _

theorem name_short : Short n (name cs) := by
  unfold name
  split
  · exact .error _
  · dsimp only
    split
    · exact .ok (by simp) _
    · exact .error _

theorem corner_short (first : Reference) (offset : Nat) : Short n (corner first offset cs) := by
  unfold corner
  split
  · next m _ =>
    cases reference offset (cs.take m) with
    | error fault => exact .error fault
    | ok last => exact .ok (by simp) _
  · exact .error _

theorem word_short : Short n (word cs) := by
  unfold word
  split
  · exact name_short
  · next m _ =>
    cases reference 0 (cs.take m) with
    | error fault => exact .error fault
    | ok first =>
      show Short n (if _ then _ else _)
      split
      · exact name_short
      · split
        · exact corner_short first _
        · exact .ok (by simp) _

/-- The only scanner that gives texts is that of string literals. -/
theorem token_short (c : Char) (rest : List Char) : Short (rest.length + 1) (token c rest) := by
  unfold token
  split
  case h_16 => exact string_short _
  case h_17 =>
    split
    · exact number_short
    · split
      · exact word_short
      · exact .error _
  all_goals exact .ok (by simp) _

end Scan

/-- The text in a token is shorter than the text that the token is cut out of. -/
theorem length_lt_of_tokensFrom (pos : Nat) (cs : List Char) :
    ∀ ts, tokensFrom pos cs = .ok ts → ∀ t ∈ ts, ∀ s, t.kind = .text s → s.length < cs.length := by
  fun_induction tokensFrom pos cs with
  | case1 =>
    rintro _ ⟨⟩ t ht s hs
    rw [List.mem_singleton.mp ht] at hs
    cases hs
  | case2 => rintro _ ⟨⟩
  | case3 pos cs start c rest hrest scan hscan ih =>
    intro ts h
    obtain ⟨tokens, htokens, h⟩ := ok_of_bind h
    cases h
    have hlength := length_takeWhile_add_length_dropWhile isBlank cs
    rw [hrest, List.length_cons] at hlength
    refine List.forall_mem_cons.mpr ⟨fun s hs => ?_, fun t ht s hs => ?_⟩
    · have := Scan.token_short c rest scan s hscan hs
      omega
    · have := ih tokens htokens t ht s hs
      rw [List.length_drop] at this
      omega

theorem length_body_le (text : String) : (body text).length ≤ text.length := by
  have htrim := (List.dropWhile_sublist (l := text.toList) isBlank).length_le
  rw [String.length_toList] at htrim
  unfold body trimStart
  split
  · next cs hcs =>
    rw [hcs, List.length_cons] at htrim
    omega
  · exact htrim

/-- The literals of a formula are among its tokens. -/
theorem Expr.written_of_ofText {limit : Nat} {text : String} {e : Expr} {v : Value}
    (h : Expr.ofText limit text = .ok e) (hv : v ∈ e.literals) :
    ∃ ts, tokensFrom 0 (body text) = .ok ts ∧ Written v (ts.map Token.kind) := by
  obtain ⟨ts, d, hts, hd⟩ := Expr.derives_of_ofText h
  rw [hd.literals_eq] at hv
  exact ⟨ts, hts, written_of_mem_literalsIn hv⟩

/-- The literals of a formula are no lists. -/
theorem Expr.isScalar_of_ofText {limit : Nat} {text : String} {e : Expr} {v : Value}
    (h : Expr.ofText limit text = .ok e) (hv : v ∈ e.literals) : v.IsScalar := by
  obtain ⟨ts, -, kind, -, hleaf⟩ := Expr.written_of_ofText h hv
  cases hleaf <;> rintro _ ⟨⟩

/-- A text among the literals of a formula is no longer than the text of the formula. -/
theorem Expr.length_le_of_ofText {limit : Nat} {text s : String} {e : Expr}
    (h : Expr.ofText limit text = .ok e) (hs : .text s ∈ e.literals) : s.length ≤ text.length := by
  obtain ⟨ts, hts, kind, hkind, hleaf⟩ := Expr.written_of_ofText h hs
  obtain ⟨t, ht, rfl⟩ := List.mem_map.mp hkind
  have htext : t.kind = .text s := by
    generalize t.kind = kind at hleaf
    cases hleaf
    rfl
  have hlt := length_lt_of_tokensFrom 0 _ ts hts t ht s htext
  exact Nat.le_trans (Nat.le_of_lt hlt) (length_body_le text)

end Spreadsheet.Formula
