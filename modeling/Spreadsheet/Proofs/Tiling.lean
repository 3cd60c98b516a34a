import Mathlib
import Spreadsheet.Formula.Lexer

/-!
# Tokens tile the text

Nothing of a formula is lost when it is cut into tokens: its text is blanks and tokens in turn, with
nothing but blanks in front of the end token. A word may be looked at as a cell, as the start of a
range and as the name of a function, and what comes behind it is looked at ahead. But a scanner only
says how many characters belong to its token, and the next token is looked for right behind these.

`Scan.Fits` holds a scanner to the characters that are there: no token's text is cut out beyond the
end, and every fault has its place in the text.

Results:
1. `Scan.token_fits`, `Scan.inRange`: every scanner stays within the text that it is given;
2. `Tiles.end_token`, `Tiles.text_isPrefix`: what a tiling says of its tokens one by one;
3. `tokensFrom_tiled`: what the recursion gives from any place on;
4. `tokens_tile_the_text`: the same for whole texts.
-/

namespace Spreadsheet.Formula

open Text Number

/-! ## Scanners -/

/-- The answer of a scanner stays within the text it was given: the token takes no more characters
than there are and is no end token, and a fault has its place in the text. -/
def Scan.Fits (cs : List Char) : Except Fault Scan → Prop
  | .ok scan => scan.kind ≠ .eof ∧ scan.more < cs.length
  | .error fault => fault.offset ≤ cs.length

theorem length_takeWhile_add_length_dropWhile (p : Char → Bool) (cs : List Char) :
    (cs.takeWhile p).length + (cs.dropWhile p).length = cs.length := by
  rw [← List.length_append, List.takeWhile_append_dropWhile]

theorem length_splitMark (cs : List Char) :
    (Reference.splitMark cs).1.toNat + (Reference.splitMark cs).2.length = cs.length := by
  unfold Reference.splitMark
  split
  · exact Nat.add_comm 1 _
  · exact Nat.zero_add _

namespace Scan

theorem stringBody?_le {cs t : List Char} {n : Nat} (h : stringBody? cs = some (t, n)) :
    n ≤ cs.length := by
  fun_induction stringBody? cs generalizing t n with
  | case1 => exact nomatch h
  | case3 =>
    obtain ⟨-, rfl⟩ := Prod.mk.inj (Option.some.inj h)
    exact Nat.le_add_left 1 _
  | case2 cs ih | case4 cs ih | case5 cs ih | case6 cs ih | case7 cs ih | case8 cs ih =>
    obtain ⟨⟨u, m⟩, hm, hn⟩ := Option.map_eq_some_iff.mp h
    obtain ⟨-, rfl⟩ := Prod.mk.inj hn
    exact Nat.add_le_add_right (ih hm) 2
  | case9 c cs _ _ _ _ _ _ _ ih =>
    obtain ⟨⟨u, m⟩, hm, hn⟩ := Option.map_eq_some_iff.mp h
    obtain ⟨-, rfl⟩ := Prod.mk.inj hn
    exact Nat.add_le_add_right (ih hm) 1

theorem numberLength_le (seenPoint seenPower : Bool) (cs : List Char) :
    numberLength seenPoint seenPower cs ≤ cs.length := by
  fun_induction numberLength seenPoint seenPower cs with
  | case1 => exact Nat.le_refl 0
  | case7 => exact Nat.zero_le _
  | case2 _ _ _ _ _ ih | case3 _ _ _ _ _ _ ih | case6 _ _ _ _ _ _ _ _ _ ih =>
    exact Nat.add_le_add_right ih 1
  | case4 _ _ _ _ _ _ _ ih | case5 _ _ _ _ _ _ _ ih => exact Nat.add_le_add_right ih 2

theorem nameLength_le (cs : List Char) : nameLength cs ≤ cs.length := by
  have hrun := (List.takeWhile_sublist (fun c => isWordChar c || c == ' ') (l := cs)).length_le
  have hspaces := List.length_dropWhile_le (· == ' ')
    (cs.takeWhile fun c => isWordChar c || c == ' ').reverse
  rw [List.length_reverse] at hspaces
  exact Nat.le_trans hspaces hrun

theorem cellLength?_le {cs : List Char} {n : Nat} (h : cellLength? cs = some n) :
    n ≤ cs.length := by
  have hcol := length_splitMark cs
  have hletters := length_takeWhile_add_length_dropWhile isLetter (Reference.splitMark cs).2
  have hrow := length_splitMark ((Reference.splitMark cs).2.dropWhile isLetter)
  have hdigits := length_takeWhile_add_length_dropWhile isDigit
    (Reference.splitMark ((Reference.splitMark cs).2.dropWhile isLetter)).2
  unfold cellLength? at h
  dsimp only at h
  split at h
  · obtain rfl := Option.some.inj h
    omega
  · exact nomatch h

/-- A token of `n` characters takes one less behind its first. -/
theorem pred_lt_length {cs : List Char} {n : Nat} (hne : cs ≠ []) (h : n ≤ cs.length) :
    n - 1 < cs.length := by
  have hlength := List.length_pos_iff.mpr hne
  omega

theorem string_fits (cs : List Char) : Fits ('"' :: cs) (string cs) := by
  unfold string
  split
  · next t n h => exact ⟨nofun, Nat.lt_succ_of_le (stringBody?_le h)⟩
  · exact Nat.zero_le _

variable {cs : List Char}

theorem number_fits (h : cs ≠ []) : Fits cs (number cs) := by
  unfold number
  dsimp only
  split
  · exact ⟨nofun, pred_lt_length h (numberLength_le false false cs)⟩
  · exact Nat.zero_le _

theorem name_fits (h : cs ≠ []) : Fits cs (name cs) := by
  unfold name
  split
  · exact Nat.zero_le _
  · dsimp only
    split
    · exact ⟨nofun, pred_lt_length h (nameLength_le cs)⟩
    · exact Nat.zero_le _

theorem reference_error {offset : Nat} {text : List Char} {fault : Fault}
    (h : reference offset text = .error fault) : fault.offset = offset := by
  unfold reference at h
  split at h
  · exact nomatch h
  · rw [← Except.error.inj h]

/-- The second corner starts at `offset`, in what is left of the text. -/
theorem corner_fits (first : Reference) {offset : Nat} {rest : List Char} (hpos : 0 < offset)
    (hlength : offset + rest.length = cs.length) : Fits cs (corner first offset rest) := by
  unfold corner
  split
  · next n hn =>
    have hle := cellLength?_le hn
    cases hlast : reference offset (rest.take n) with
    | error fault =>
      show fault.offset ≤ cs.length
      rw [reference_error hlast]
      omega
    | ok last =>
      refine ⟨nofun, ?_⟩
      show offset + n - 1 < cs.length
      omega
  · show offset ≤ cs.length
    omega

theorem word_fits (h : cs ≠ []) : Fits cs (word cs) := by
  unfold word
  split
  · exact name_fits h
  · next n hn =>
    have hle := cellLength?_le hn
    cases hfirst : reference 0 (cs.take n) with
    | error fault =>
      show fault.offset ≤ cs.length
      rw [reference_error hfirst]
      exact Nat.zero_le _
    | ok first =>
      show Fits cs (if _ then _ else _)
      split
      · exact name_fits h
      · split
        · next rest hrest =>
          have hdrop := congrArg List.length hrest
          rw [List.length_drop, List.length_cons] at hdrop
          exact corner_fits first (Nat.succ_pos n) (by omega)
        · exact ⟨by simp, pred_lt_length h hle⟩

/-- Every scanner stays within the text that it is given. -/
theorem token_fits (c : Char) (rest : List Char) : Fits (c :: rest) (token c rest) := by
  have hne : c :: rest ≠ [] := List.cons_ne_nil c rest
  unfold token
  split
  case h_16 => exact string_fits _
  case h_17 =>
    split
    · exact number_fits hne
    · split
      · exact word_fits hne
      · exact Nat.zero_le _
  all_goals exact ⟨nofun, by simp⟩

/-- Every piece that a scanner cuts out of a text is there in full, whatever it starts as. -/
structure InRange (cs : List Char) : Prop where
  number : numberLength false false cs ≤ cs.length
  name : nameLength cs ≤ cs.length
  cell : ∀ n, cellLength? cs = some n → n ≤ cs.length
  string : ∀ t n, stringBody? cs = some (t, n) → n ≤ cs.length
  token : ∀ c rest, cs = c :: rest → Fits cs (token c rest)

theorem inRange (cs : List Char) : InRange cs where
  number := numberLength_le false false cs
  name := nameLength_le cs
  cell _ := cellLength?_le
  string _ _ := stringBody?_le
  token c rest h := h ▸ token_fits c rest

end Scan

/-! ## Tilings -/

/-- The tokens tile a text with `pos` characters in front of it. Each of them has some characters of
it, stands where these do, and has only blanks between it and the one before; the end token is the
last and has no characters. -/
inductive Tiles : (pos : Nat) → List Char → List Token → Prop where
  | last {pos : Nat} {blanks : List Char} (hblank : ∀ c ∈ blanks, isBlank c = true) :
      Tiles pos blanks [⟨.eof, "", pos + blanks.length⟩]
  | token {pos : Nat} {blanks chars cs : List Char} {kind : TokenKind} {ts : List Token}
      (hblank : ∀ c ∈ blanks, isBlank c = true) (hkind : kind ≠ .eof) (hchars : chars ≠ [])
      (hrest : Tiles (pos + blanks.length + chars.length) cs ts) :
      Tiles pos (blanks ++ (chars ++ cs)) (⟨kind, String.ofList chars, pos + blanks.length⟩ :: ts)

namespace Tiles

variable {pos : Nat} {cs : List Char} {ts : List Token}

/-- There is one end token, behind all the others, and these have some text. -/
theorem end_token (h : Tiles pos cs ts) : ∃ tokens place, ts = tokens ++ [⟨.eof, "", place⟩] ∧
    ∀ t ∈ tokens, t.kind ≠ .eof ∧ t.text ≠ "" := by
  induction h with
  | last => exact ⟨[], _, rfl, nofun⟩
  | token _ hkind hchars _ ih =>
    obtain ⟨tokens, place, rfl, htokens⟩ := ih
    refine ⟨_ :: tokens, place, rfl, List.forall_mem_cons.mpr ⟨⟨hkind, ?_⟩, htokens⟩⟩
    rwa [ne_eq, String.ofList_eq_empty_iff]

/-- The text of each token stands at its position. -/
theorem text_isPrefix (h : Tiles pos cs ts) {front : List Char} (hfront : front.length = pos) :
    ∀ t ∈ ts, t.text.toList <+: (front ++ cs).drop t.pos := by
  induction h generalizing front with
  | last =>
    intro t ht
    rw [List.mem_singleton.mp ht]
    exact List.nil_prefix
  | @token pos blanks chars cs kind ts _ _ _ _ ih =>
    have hplace : (front ++ blanks).length = pos + blanks.length := by
      rw [List.length_append, hfront]
    refine List.forall_mem_cons.mpr ⟨?_, fun u hu => ?_⟩
    · rw [← List.append_assoc, List.drop_left' hplace, String.toList_ofList]
      exact List.prefix_append chars cs
    · have hnext : (front ++ blanks ++ chars).length = pos + blanks.length + chars.length := by
        rw [List.length_append, hplace]
      have hu' := ih hnext u hu
      rwa [List.append_assoc, List.append_assoc] at hu'

end Tiles

/-! ## Cutting a text -/

/-- The tokens that are cut out of a text from `pos` on tile it, or there is a fault at one of its
places. -/
def Tiled (pos : Nat) (cs : List Char) : Except FormulaError (List Token) → Prop
  | .ok ts => Tiles pos cs ts
  | .error x => ∃ place cause, x = .lexical place cause ∧ place ≤ pos + cs.length

theorem tokensFrom_tiled (pos : Nat) (cs : List Char) : Tiled pos cs (tokensFrom pos cs) := by
  fun_induction tokensFrom pos cs with
  | case1 pos cs start hnil =>
    have hlast : Tiles pos (cs.takeWhile isBlank) [⟨.eof, "", start⟩] :=
      .last fun _ => List.mem_takeWhile_imp
    have hcs : cs.takeWhile isBlank = cs := by
      rw [← List.append_nil (cs.takeWhile isBlank), ← hnil, List.takeWhile_append_dropWhile]
    rwa [hcs] at hlast
  | case2 pos cs start c rest hrest fault hfault =>
    have hfits : Scan.Fits (c :: rest) (.error fault) := hfault ▸ Scan.token_fits c rest
    have hlength := length_takeWhile_add_length_dropWhile isBlank cs
    rw [hrest] at hlength
    refine ⟨_, _, rfl, ?_⟩
    show pos + (cs.takeWhile isBlank).length + fault.offset ≤ pos + cs.length
    have hplace : fault.offset ≤ (c :: rest).length := hfits
    omega
  | case3 pos cs start c rest hrest scan hscan ih =>
    have hfits : Scan.Fits (c :: rest) (.ok scan) := hscan ▸ Scan.token_fits c rest
    have hcut : c :: rest.take scan.more ++ rest.drop scan.more = cs.dropWhile isBlank := by
      rw [hrest, List.cons_append, List.take_append_drop]
    cases htokens : tokensFrom (start + 1 + (rest.take scan.more).length)
        (rest.drop scan.more) with
    | error x =>
      rw [htokens] at ih
      obtain ⟨place, cause, rfl, hplace⟩ := ih
      have hlength := length_takeWhile_add_length_dropWhile isBlank cs
      rw [← hcut, List.length_append, List.length_cons] at hlength
      refine ⟨place, cause, rfl, ?_⟩
      omega
    | ok ts =>
      rw [htokens, Nat.add_assoc, Nat.add_comm 1] at ih
      have htiles := Tiles.token (fun _ => List.mem_takeWhile_imp) hfits.1 (List.cons_ne_nil c _) ih
      rw [hcut, List.takeWhile_append_dropWhile] at htiles
      exact htiles

/-- Every text falls into tokens that tile it, or has a fault at one of its places; and wherever in
the text a scanner starts, no piece that it cuts out goes beyond the end. If there are tokens then
the last one, and no other, is the end token, all others have some text, and this text stands at the
position of the token. -/
theorem tokens_tile_the_text (text : String) :
    (∀ cs, cs <:+ text.toList → Scan.InRange cs) ∧
    (∀ ts, tokenize text = .ok ts → Tiles 0 text.toList ts ∧
      (∃ tokens place, ts = tokens ++ [⟨.eof, "", place⟩] ∧
        ∀ t ∈ tokens, t.kind ≠ .eof ∧ t.text ≠ "") ∧
      ∀ t ∈ ts, t.text.toList <+: text.toList.drop t.pos) ∧
    ∀ x, tokenize text = .error x → ∃ place cause, x = .lexical place cause ∧
      place ≤ text.length := by
  have htiled : Tiled 0 text.toList (tokenize text) := tokensFrom_tiled 0 text.toList
  refine ⟨fun cs _ => Scan.inRange cs, fun ts hts => ?_, fun x hx => ?_⟩
  · have htiles : Tiles 0 text.toList ts := by
      rw [hts] at htiled
      exact htiled
    have hfront : ([] : List Char).length = 0 := rfl
    exact ⟨htiles, htiles.end_token, htiles.text_isPrefix hfront⟩
  · rw [hx, Tiled, Nat.zero_add, String.length_toList] at htiled
    exact htiled

/-- A word that looks like a cell is a name before a parenthesis and the corner of a range before a
colon, and the blanks behind a name belong to no token. Where the other corner is missing, the fault
is behind the colon. -/
theorem tokens_tile_the_text_words :
    (∃ ts, tokenize " LOG10 (A1:$b$2)" = .ok ts ∧ Tiles 0 " LOG10 (A1:$b$2)".toList ts ∧
      ts.map Token.text = ["LOG10", "(", "A1:$b$2", ")", ""] ∧
      ts.map Token.pos = [1, 7, 8, 15, 16]) ∧
    ∃ place cause, tokenize "1+A1:x" = .error (.lexical place cause) ∧
      place ≤ "1+A1:x".length := by
  have hts : tokenize " LOG10 (A1:$b$2)" = .ok
      [⟨.name "LOG10", "LOG10", 1⟩, ⟨.leftParen, "(", 7⟩,
        ⟨.range ⟨⟨0, 0⟩, false, false⟩ ⟨⟨1, 1⟩, true, true⟩, "A1:$b$2", 8⟩,
        ⟨.rightParen, ")", 15⟩, ⟨.eof, "", 16⟩] := by decide +kernel
  have hx : tokenize "1+A1:x" = .error (.lexical 5 .halfRange) := by decide +kernel
  obtain ⟨-, htiles, -⟩ := tokens_tile_the_text " LOG10 (A1:$b$2)"
  obtain ⟨-, -, hfault⟩ := tokens_tile_the_text "1+A1:x"
  obtain ⟨place, cause, heq, hplace⟩ := hfault _ hx
  exact ⟨⟨_, hts, (htiles _ hts).1, rfl, rfl⟩, place, cause, heq ▸ hx, hplace⟩

end Spreadsheet.Formula
