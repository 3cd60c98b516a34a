import Spreadsheet.Proofs.Vocabulary

/-!
# String literals

Between its quotes a string literal spells a text. There are two ways to write a quote there, twice
or behind a backslash, and both have to be told from the quote that closes the literal. They are
told apart from left to right: the inside of a literal falls into pieces, each of which spells one
character, and the closing quote is the first one at which no piece begins. `Spells` says this
without a scanner. It asks of the inside only that it ends where a piece ends; what stands behind
the closing quote must not be another quote, since both together would be a piece.

Every text can be spelled, in as many ways as there are choices for its characters. And when no
quote closes a literal, the text has no tokens: the fault is found where the scanner meets the
opening quote, so it is said which places the scanner meets.

Results:
1. `stringBody?_eq_some_iff`: the scanner finds the closing quote, if there is one;
2. `Spells.of_pieces`: every choice of pieces spells the text;
3. `Spells.even_backslashes`: a closing quote is not behind a backslash of its own;
4. `tokensFrom_eq_error_iff`: where the scanner gives up;
5. `string_literals_carry_any_text`: literals of whole texts, and what a missing quote does.
-/

namespace Spreadsheet.Formula

open Text

/-! ## The inside of a literal -/

/-- What a backslash and the character behind it stand for, if the two belong together. -/
def escaped? : Char → Option Char
  | '"' => some '"'
  | '\\' => some '\\'
  | 'n' => some '\n'
  | 't' => some '\t'
  | 'r' => some '\r'
  | _ => none

/-- The inside of a string literal, with the text that it spells. A backslash that does not belong
together with the character behind it spells itself; it is not the last character, since it would
belong together with the closing quote. -/
inductive Spells : List Char → List Char → Prop where
  | nil : Spells [] []
  | doubled {cs t : List Char} (h : Spells cs t) : Spells ('"' :: '"' :: cs) ('"' :: t)
  | escape {c d : Char} {cs t : List Char} (hc : escaped? c = some d) (h : Spells cs t) :
      Spells ('\\' :: c :: cs) (d :: t)
  | backslash {c : Char} {cs t : List Char} (hc : escaped? c = none) (h : Spells (c :: cs) t) :
      Spells ('\\' :: c :: cs) ('\\' :: t)
  | plain {c : Char} {cs t : List Char} (hquote : c ≠ '"') (hslash : c ≠ '\\')
      (h : Spells cs t) : Spells (c :: cs) (c :: t)

/-- A literal that is closed, behind its opening quote: its inside, the closing quote, and what
stands behind that, which is not one more quote. -/
structure Closes (code t tail : List Char) : Prop where
  spells : Spells code t
  single : tail.head? ≠ some '"'

namespace Scan

variable {c d : Char} {cs code t tail : List Char} {n : Nat}

theorem stringBody?_escape (h : escaped? c = some d) (cs : List Char) :
    stringBody? ('\\' :: c :: cs) = (stringBody? cs).map fun (t, n) => (d :: t, n + 2) := by
  unfold escaped? at h
  split at h <;> cases h <;> rw [stringBody?]

/-- A character that is read on its own. -/
theorem stringBody?_of_alone (hquote : c ≠ '"')
    (h : c = '\\' → ∀ d ds, cs = d :: ds → escaped? d = none) :
    stringBody? (c :: cs) = (stringBody? cs).map fun (t, n) => (c :: t, n + 1) := by
  have alone (d : Char) (hd : escaped? d ≠ none) (ds : List Char) (hc : c = '\\')
      (hcs : cs = d :: ds) : False := hd (h hc d ds hcs)
  rw [stringBody?]
  · exact fun _ hc _ => hquote hc
  · exact hquote
  · exact alone '"' (by decide)
  · exact alone '\\' (by decide)
  · exact alone 'n' (by decide)
  · exact alone 't' (by decide)
  · exact alone 'r' (by decide)

/-- The scanner reads the inside of a literal up to the closing quote. -/
theorem stringBody?_of_closes (h : Closes code t tail) :
    stringBody? (code ++ '"' :: tail) = some (t, code.length + 1) := by
  obtain ⟨hspells, hsingle⟩ := h
  induction hspells with
  | nil =>
    rw [List.nil_append, stringBody?]
    · rfl
    · rintro ds rfl
      exact hsingle rfl
  | doubled _ ih =>
    rw [List.cons_append, List.cons_append, stringBody?, ih]
    rfl
  | escape hc _ ih =>
    rw [List.cons_append, List.cons_append, stringBody?_escape hc, ih]
    rfl
  | backslash hc _ ih =>
    rw [List.cons_append, stringBody?_of_alone (by decide), ih]
    · rfl
    · rintro - d ds heq
      cases heq
      exact hc
  | plain hquote hslash _ ih =>
    rw [List.cons_append, stringBody?_of_alone hquote fun heq => absurd heq hslash, ih]
    rfl

/-- What the scanner reads is the inside of a literal. -/
theorem exists_of_stringBody? (h : stringBody? cs = some (t, n)) :
    ∃ code tail, cs = code ++ '"' :: tail ∧ n = code.length + 1 ∧ Closes code t tail := by
  fun_induction stringBody? cs generalizing t n with
  | case1 => cases h
  | case3 cs hdouble =>
    cases h
    refine ⟨[], cs, rfl, rfl, .nil, fun hhead => ?_⟩
    obtain ⟨ds, rfl⟩ := List.head?_eq_some_iff.mp hhead
    exact hdouble ds rfl
  | case2 cs ih =>
    obtain ⟨⟨u, m⟩, hm, heq⟩ := Option.map_eq_some_iff.mp h
    cases heq
    obtain ⟨code, tail, rfl, rfl, hspells, hsingle⟩ := ih hm
    exact ⟨'"' :: '"' :: code, tail, rfl, rfl, .doubled hspells, hsingle⟩
  | case4 cs ih | case5 cs ih | case6 cs ih | case7 cs ih | case8 cs ih =>
    obtain ⟨⟨u, m⟩, hm, heq⟩ := Option.map_eq_some_iff.mp h
    cases heq
    obtain ⟨code, tail, rfl, rfl, hspells, hsingle⟩ := ih hm
    exact ⟨'\\' :: _ :: code, tail, rfl, rfl, .escape rfl hspells, hsingle⟩
  | case9 c cs _ hclose hquote hslash hn ht hr ih =>
    obtain ⟨⟨u, m⟩, hm, heq⟩ := Option.map_eq_some_iff.mp h
    cases heq
    obtain ⟨code, tail, rfl, rfl, hspells, hsingle⟩ := ih hm
    refine ⟨c :: code, tail, rfl, rfl, ?_, hsingle⟩
    by_cases hc : c = '\\'
    · subst hc
      cases code with
      | nil => exact absurd rfl (hquote tail rfl)
      | cons d code =>
        refine .backslash ?_ hspells
        unfold escaped?
        split
        · exact absurd rfl (hquote _ rfl)
        · exact absurd rfl (hslash _ rfl)
        · exact absurd rfl (hn _ rfl)
        · exact absurd rfl (ht _ rfl)
        · exact absurd rfl (hr _ rfl)
        · rfl
    · exact .plain hclose hc hspells

/-- The scanner finds the quote that closes a literal, if there is one. -/
theorem stringBody?_eq_some_iff : stringBody? cs = some (t, n) ↔
    ∃ code tail, cs = code ++ '"' :: tail ∧ n = code.length + 1 ∧ Closes code t tail := by
  refine ⟨exists_of_stringBody?, ?_⟩
  rintro ⟨code, tail, rfl, rfl, h⟩
  exact stringBody?_of_closes h

theorem stringBody?_eq_none_iff : stringBody? cs = none ↔
    ¬∃ code t tail, cs = code ++ '"' :: tail ∧ Closes code t tail := by
  rw [← not_iff_not, not_not, ← ne_eq, Option.ne_none_iff_exists']
  constructor
  · rintro ⟨⟨t, n⟩, h⟩
    obtain ⟨code, tail, hcs, -, hcloses⟩ := exists_of_stringBody? h
    exact ⟨code, t, tail, hcs, hcloses⟩
  · rintro ⟨code, t, tail, rfl, h⟩
    exact ⟨_, stringBody?_of_closes h⟩

end Scan

/-! ## Writing a text -/

/-- The ways to write a character in a literal: a quote twice or behind a backslash, a backslash
twice, and all other characters as they are, three of them also behind a backslash. -/
def ways : Char → List (List Char)
  | '"' => [['"', '"'], ['\\', '"']]
  | '\\' => [['\\', '\\']]
  | '\n' => [['\n'], ['\\', 'n']]
  | '\t' => [['\t'], ['\\', 't']]
  | '\r' => [['\r'], ['\\', 'r']]
  | c => [[c]]

namespace Spells

variable {code t : List Char}

theorem piece {c : Char} {p : List Char} (hp : p ∈ ways c) (h : Spells code t) :
    Spells (p ++ code) (c :: t) := by
  unfold ways at hp
  split at hp
  · rcases List.mem_pair.mp hp with rfl | rfl
    · exact .doubled h
    · exact .escape rfl h
  · obtain rfl := List.mem_singleton.mp hp
    exact .escape rfl h
  · rcases List.mem_pair.mp hp with rfl | rfl
    · exact .plain (by decide) (by decide) h
    · exact .escape rfl h
  · rcases List.mem_pair.mp hp with rfl | rfl
    · exact .plain (by decide) (by decide) h
    · exact .escape rfl h
  · rcases List.mem_pair.mp hp with rfl | rfl
    · exact .plain (by decide) (by decide) h
    · exact .escape rfl h
  · next hquote hslash _ _ _ =>
    obtain rfl := List.mem_singleton.mp hp
    exact .plain hquote hslash h

/-- Whichever way each character is written, the text is spelled. -/
theorem of_pieces {t : List Char} {pieces : List (List Char)}
    (h : List.Forall₂ (fun c p => p ∈ ways c) t pieces) : Spells pieces.flatten t := by
  induction h with
  | nil => exact .nil
  | cons hp _ ih => exact ih.piece hp

/-- Backslashes at the end of a text do not reach to its first character, unless this is one. -/
theorem exists_of_cons_eq_append {c : Char} {cs u : List Char} {k : Nat} (hc : c ≠ '\\')
    (h : c :: cs = u ++ List.replicate k '\\') :
    ∃ u', u = c :: u' ∧ cs = u' ++ List.replicate k '\\' := by
  cases u with
  | cons a u =>
    obtain ⟨rfl, hcs⟩ := List.cons.inj h
    exact ⟨u, rfl, hcs⟩
  | nil =>
    cases k with
    | zero => cases h
    | succ k => exact absurd (List.cons.inj h).1 hc

theorem getLast?_of_cons {a d : Char} {u : List Char} (h : (a :: u).getLast? ≠ some d) :
    u.getLast? ≠ some d := by
  intro hu
  rw [List.getLast?_cons, hu] at h
  exact h rfl

/-- The backslashes at the end of the inside belong together in pairs. -/
theorem even_of_append (h : Spells code t) {u : List Char} {k : Nat}
    (hcode : code = u ++ List.replicate k '\\') (hu : u.getLast? ≠ some '\\') : k % 2 = 0 := by
  induction h generalizing u k with
  | nil =>
    have hlength := congrArg List.length hcode
    rw [List.length_append, List.length_replicate, List.length_nil] at hlength
    omega
  | doubled _ ih =>
    obtain ⟨v, rfl, hrest⟩ := exists_of_cons_eq_append (by decide) hcode
    obtain ⟨v, rfl, hmore⟩ := exists_of_cons_eq_append (by decide) hrest
    exact ih hmore (getLast?_of_cons (getLast?_of_cons hu))
  | plain _ hslash _ ih =>
    obtain ⟨v, rfl, hrest⟩ := exists_of_cons_eq_append hslash hcode
    exact ih hrest (getLast?_of_cons hu)
  | escape _ _ ih =>
    match u, k with
    | [], 0 | [], 1 => cases hcode
    | [], k + 2 =>
      rw [Nat.add_mod_right]
      refine ih (u := []) (List.cons.inj (List.cons.inj hcode).2).2 fun h => ?_
      cases h
    | [a], _ => exact absurd (congrArg some (List.cons.inj hcode).1.symm) hu
    | _ :: _ :: u, _ =>
      exact ih (List.cons.inj (List.cons.inj hcode).2).2 (getLast?_of_cons (getLast?_of_cons hu))
  | backslash hc _ ih =>
    match u, k with
    | [], 0 | [], 1 => cases hcode
    | [], k + 2 =>
      rw [(List.cons.inj (List.cons.inj hcode).2).1] at hc
      cases hc
    | _ :: u, _ => exact ih (List.cons.inj hcode).2 (getLast?_of_cons hu)

/-- A quote behind the inside of a literal is not behind a backslash of its own. -/
theorem even_backslashes (h : Spells code t) :
    (code.reverse.takeWhile (· == '\\')).length % 2 = 0 := by
  have hslashes : (code.reverse.takeWhile (· == '\\')).reverse =
      List.replicate (code.reverse.takeWhile (· == '\\')).length '\\' := by
    rw [List.eq_replicate_iff]
    refine ⟨List.length_reverse, fun c hc => ?_⟩
    simpa using List.mem_takeWhile_imp (List.mem_reverse.mp hc)
  refine h.even_of_append (u := (code.reverse.dropWhile (· == '\\')).reverse) ?_ ?_
  · rw [← hslashes, ← List.reverse_append, List.takeWhile_append_dropWhile, List.reverse_reverse]
  · rw [List.getLast?_reverse]
    intro hhead
    have := List.head?_dropWhile_not (· == '\\') code.reverse
    rw [hhead] at this
    exact nomatch this

end Spells

/-! ## Where the scanner gives up -/

/-- Reading a text from `pos` on, token by token, the scanner gets to `place`, where it has a
character in front of it that is not blank, and the rest of the text. -/
inductive Reaches : (pos : Nat) → List Char → (place : Nat) → List Char → Prop where
  | here {pos : Nat} {blanks cs : List Char} {c : Char} (hblanks : ∀ b ∈ blanks, isBlank b = true)
      (hc : isBlank c = false) : Reaches pos (blanks ++ c :: cs) (pos + blanks.length) (c :: cs)
  | token {pos place : Nat} {blanks chars cs rest : List Char} {c : Char} {kind : TokenKind}
      (hblanks : ∀ b ∈ blanks, isBlank b = true) (hc : isBlank c = false)
      (htoken : Scan.token c (chars ++ cs) = .ok ⟨kind, chars.length⟩)
      (hrest : Reaches (pos + blanks.length + 1 + chars.length) cs place rest) :
      Reaches pos (blanks ++ c :: (chars ++ cs)) place rest

variable {pos place : Nat} {cs rest : List Char} {x : FormulaError}

/-- Where the scanner gets to a character that begins no token, the text has none. -/
theorem Reaches.tokensFrom_eq {c : Char} {fault : Fault} (h : Reaches pos cs place (c :: rest))
    (hfault : Scan.token c rest = .error fault) :
    tokensFrom pos cs = .error (.lexical (place + fault.offset) fault.cause) := by
  generalize htext : c :: rest = text at h
  induction h with
  | here hblanks hc =>
    obtain ⟨rfl, rfl⟩ := List.cons.inj htext
    rw [tokensFrom_step hblanks hc, hfault]
  | token hblanks hc htoken _ ih =>
    rw [tokensFrom_step hblanks hc, htoken]
    simp only [List.take_left, List.drop_left]
    rw [ih htext]
    rfl

theorem exists_of_tokensFrom_error (pos : Nat) (cs : List Char) :
    ∀ x, tokensFrom pos cs = .error x → ∃ place c rest fault, Reaches pos cs place (c :: rest) ∧
      Scan.token c rest = .error fault ∧ x = .lexical (place + fault.offset) fault.cause := by
  fun_induction tokensFrom pos cs with
  | case1 =>
    intro x h
    cases h
  | case2 pos cs start c rest hrest fault hfault =>
    rintro _ ⟨⟩
    obtain ⟨hcut, hc⟩ := cut_of_dropWhile hrest
    have hreaches : Reaches pos cs start (c :: rest) := by
      rw [hcut]
      exact .here (fun _ => List.mem_takeWhile_imp) hc
    exact ⟨start, c, rest, fault, hreaches, hfault, rfl⟩
  | case3 pos cs start c rest hrest scan hscan ih =>
    intro x h
    have hrestError : tokensFrom (start + 1 + (rest.take scan.more).length)
        (rest.drop scan.more) = .error x := by
      cases htokens : tokensFrom (start + 1 + (rest.take scan.more).length)
          (rest.drop scan.more) with
      | error y =>
        rw [htokens] at h
        exact h
      | ok tokens =>
        rw [htokens] at h
        cases h
    obtain ⟨place, d, more, fault, hreaches, hfault, hx⟩ := ih x hrestError
    obtain ⟨hcut, hc⟩ := cut_of_dropWhile hrest
    rw [← List.take_append_drop scan.more rest] at hcut
    refine ⟨place, d, more, fault, ?_, hfault, hx⟩
    rw [hcut]
    exact .token (fun _ => List.mem_takeWhile_imp) hc (token_take hscan) hreaches

/-- The text has no tokens just when the scanner gets to a character that begins none. -/
theorem tokensFrom_eq_error_iff : tokensFrom pos cs = .error x ↔ ∃ place c rest fault,
    Reaches pos cs place (c :: rest) ∧ Scan.token c rest = .error fault ∧
      x = .lexical (place + fault.offset) fault.cause := by
  refine ⟨exists_of_tokensFrom_error pos cs x, ?_⟩
  rintro ⟨place, c, rest, fault, hreaches, hfault, rfl⟩
  exact hreaches.tokensFrom_eq hfault

/-! ## Quotes and nothing else -/

namespace Scan

/-- The answer of a scanner of other tokens: it is no text, and no closing quote is missed. -/
def Unquoted : Except Fault Scan → Prop
  | .ok scan => ∀ s, scan.kind ≠ .text s
  | .error fault => fault.cause ≠ .openString

theorem Unquoted.error {fault : Fault} (h : fault.cause ≠ .openString) : Unquoted (.error fault) :=
  h

theorem Unquoted.ok {kind : TokenKind} (h : ∀ s, kind ≠ .text s) (more : Nat) :
    Unquoted (.ok ⟨kind, more⟩) :=
  h

theorem number_unquoted (cs : List Char) : Unquoted (number cs) := by
  unfold number
  dsimp only
  split
  · exact .ok (by simp) _
  · exact .error (by simp)

theorem name_unquoted (cs : List Char) : Unquoted (name cs) := by
  unfold name
  split
  · exact .error (by simp)
  · dsimp only
    split
    · exact .ok (by simp) _
    · exact .error (by simp)

theorem cause_of_reference {offset : Nat} {text : List Char} {fault : Fault}
    (h : reference offset text = .error fault) : fault.cause ≠ .openString := by
  unfold reference at h
  split at h
  · cases h
  · cases h
    simp

theorem corner_unquoted (first : Reference) (offset : Nat) (cs : List Char) :
    Unquoted (corner first offset cs) := by
  unfold corner
  split
  · next n _ =>
    cases hlast : reference offset (cs.take n) with
    | error fault => exact .error (cause_of_reference hlast)
    | ok last => exact .ok (by simp) _
  · exact .error (by simp)

theorem word_unquoted (cs : List Char) : Unquoted (word cs) := by
  unfold word
  split
  · exact name_unquoted cs
  · next n _ =>
    cases hfirst : reference 0 (cs.take n) with
    | error fault => exact .error (cause_of_reference hfirst)
    | ok first =>
      show Unquoted (if _ then _ else _)
      split
      · exact name_unquoted cs
      · split
        · exact corner_unquoted _ _ _
        · exact .ok (by simp) _

theorem token_unquoted {c : Char} (hc : c ≠ '"') (rest : List Char) :
    Unquoted (token c rest) := by
  unfold token
  split
  case h_16 => exact absurd rfl hc
  case h_17 =>
    split
    · exact number_unquoted _
    · split
      · exact word_unquoted _
      · exact .error (by simp)
  all_goals exact .ok (by simp) _

theorem token_quote (cs : List Char) : token '"' cs = string cs := rfl

variable {c : Char} {cs : List Char} {s : String} {n : Nat} {fault : Fault}

theorem string_eq_text_iff : string cs = .ok ⟨.text s, n⟩ ↔
    ∃ code tail, cs = code ++ '"' :: tail ∧ n = code.length + 1 ∧ Closes code s.toList tail := by
  rw [← stringBody?_eq_some_iff, string]
  cases hbody : stringBody? cs with
  | none => exact ⟨nofun, nofun⟩
  | some p =>
    obtain ⟨t, m⟩ := p
    constructor
    · rintro ⟨⟩
      rw [String.toList_ofList]
    · rintro ⟨⟩
      dsimp only
      rw [String.ofList_toList]

theorem string_eq_error_iff : string cs = .error fault ↔ fault = ⟨0, .openString⟩ ∧
    ¬∃ code t tail, cs = code ++ '"' :: tail ∧ Closes code t tail := by
  rw [← stringBody?_eq_none_iff, string]
  cases stringBody? cs with
  | none => exact ⟨fun h => ⟨(Except.error.inj h).symm, rfl⟩, fun h => by rw [h.1]⟩
  | some p => exact ⟨nofun, nofun⟩

/-- A text is read by the scanner for string literals. -/
theorem token_eq_text_iff : token c cs = .ok ⟨.text s, n⟩ ↔ c = '"' ∧
    ∃ code tail, cs = code ++ '"' :: tail ∧ n = code.length + 1 ∧ Closes code s.toList tail := by
  by_cases hc : c = '"'
  · subst hc
    rw [token_quote, string_eq_text_iff, and_iff_right rfl]
  · refine ⟨fun h => ?_, fun h => absurd h.1 hc⟩
    have hunquoted := token_unquoted hc cs
    rw [h] at hunquoted
    exact absurd rfl (hunquoted s)

/-- The characters that are read as a text end with the quote that closes the literal. -/
theorem token_append_eq_text_iff {chars : List Char} :
    token c (chars ++ cs) = .ok ⟨.text s, chars.length⟩ ↔
      c = '"' ∧ ∃ code, chars = code ++ ['"'] ∧ Closes code s.toList cs := by
  rw [token_eq_text_iff]
  refine and_congr_right fun _ => ⟨?_, ?_⟩
  · rintro ⟨code, tail, hcut, hlength, hcloses⟩
    have hsplit : chars ++ cs = (code ++ ['"']) ++ tail := by
      rw [hcut, List.append_assoc]
      rfl
    obtain ⟨hchars, rfl⟩ := List.append_inj hsplit (by simpa using hlength)
    exact ⟨code, hchars, hcloses⟩
  · rintro ⟨code, rfl, hcloses⟩
    exact ⟨code, cs, by simp, by simp, hcloses⟩

/-- A closing quote is missed just where none is. -/
theorem token_eq_openString_iff :
    token c cs = .error fault ∧ fault.cause = .openString ↔ c = '"' ∧ fault = ⟨0, .openString⟩ ∧
      ¬∃ code t tail, cs = code ++ '"' :: tail ∧ Closes code t tail := by
  by_cases hc : c = '"'
  · subst hc
    rw [token_quote, string_eq_error_iff, and_iff_right rfl]
    refine ⟨And.left, fun h => ⟨h, ?_⟩⟩
    rw [h.1]
  · refine ⟨fun ⟨h, hcause⟩ => ?_, fun h => absurd h.1 hc⟩
    have hunquoted := token_unquoted hc cs
    rw [h] at hunquoted
    exact absurd hcause hunquoted

end Scan

/-! ## Whole texts -/

/-- The token is a string literal for a text: its characters stand in the formula at its position,
and the quote at their end closes it. -/
def Token.IsLiteral (t : Token) (s : String) (cs : List Char) : Prop :=
  ∃ before code tail, cs = before ++ '"' :: (code ++ '"' :: tail) ∧ t.pos = before.length ∧
    t.text = String.ofList ('"' :: (code ++ ['"'])) ∧ Closes code s.toList tail

/-- Every text among the tokens is a string literal. -/
theorem Cuts.isLiteral {ts : List Token} (h : Cuts pos cs ts) {t : Token} (ht : t ∈ ts)
    {s : String} (hs : t.kind = .text s) (front : List Char) (hfront : front.length = pos) :
    t.IsLiteral s (front ++ cs) := by
  induction h generalizing front with
  | last =>
    rw [List.mem_singleton.mp ht] at hs
    cases hs
  | @token pos blanks chars cs c kind ts hblanks hc htoken hrest ih =>
    rcases List.mem_cons.mp ht with rfl | ht
    · cases hs
      obtain ⟨rfl, code, rfl, hcloses⟩ := Scan.token_append_eq_text_iff.mp htoken
      refine ⟨front ++ blanks, code, cs, by simp, ?_, rfl, hcloses⟩
      rw [List.length_append, hfront]
    · have hlength : (front ++ blanks ++ c :: chars).length
          = pos + blanks.length + 1 + chars.length := by
        rw [List.length_append, List.length_append, hfront, List.length_cons]
        omega
      have htail := ih ht _ hlength
      rwa [List.append_assoc, List.append_assoc, List.cons_append] at htail

/-- A literal that is the whole text. -/
theorem tokenize_literal {code : List Char} {s : String} (h : Spells code s.toList) :
    tokenize (String.ofList ('"' :: (code ++ ['"']))) =
      .ok [⟨.text s, String.ofList ('"' :: (code ++ ['"'])), 0⟩, ⟨.eof, "", code.length + 2⟩] := by
  have htoken : Scan.token '"' (code ++ ['"']) = .ok ⟨.text s, (code ++ ['"']).length⟩ :=
    Scan.token_eq_text_iff.mpr ⟨rfl, code, [], rfl, by simp, h, nofun⟩
  rw [tokenize, String.toList_ofList, tokensFrom_of_token (by decide) htoken]
  simp

/-- Every text can be carried by a string literal, whichever way each of its characters is written:
the literal alone is cut into a token with this text and the end token. In any text that has tokens
a string literal ends at the first quote that is not one of a pair or behind a backslash: there its
inside, which is made of whole pieces, ends, no quote follows, and the backslashes before it are
pairs. A text is refused because of an open literal, with the place of its first quote, just when
the scanner gets to that quote and no quote behind it closes the literal. -/
theorem string_literals_carry_any_text :
    (∀ (s : String) (pieces : List (List Char)),
      List.Forall₂ (fun c p => p ∈ ways c) s.toList pieces →
      tokenize (String.ofList ('"' :: (pieces.flatten ++ ['"']))) =
        .ok [⟨.text s, String.ofList ('"' :: (pieces.flatten ++ ['"'])), 0⟩,
          ⟨.eof, "", pieces.flatten.length + 2⟩]) ∧
    (∀ (text : String) (ts : List Token), tokenize text = .ok ts →
      ∀ t ∈ ts, ∀ s, t.kind = .text s → t.IsLiteral s text.toList) ∧
    (∀ code t tail, Closes code t tail → tail.head? ≠ some '"' ∧
      (code.reverse.takeWhile (· == '\\')).length % 2 = 0) ∧
    LexCause.openString.message = "Unterminated string literal" ∧
    ∀ (text : String) (place : Nat), tokenize text = .error (.lexical place .openString) ↔
      ∃ rest, Reaches 0 text.toList place ('"' :: rest) ∧
        ¬∃ code t tail, rest = code ++ '"' :: tail ∧ Closes code t tail := by
  refine ⟨fun s pieces h => tokenize_literal (.of_pieces h), fun text ts hts t ht s hs => ?_,
    fun code t tail h => ⟨h.single, h.spells.even_backslashes⟩, rfl, fun text place => ?_⟩
  · exact (tokensFrom_eq_ok_iff.mp hts).isLiteral ht hs [] rfl
  · rw [tokenize, tokensFrom_eq_error_iff]
    constructor
    · rintro ⟨start, c, rest, fault, hreaches, hfault, heq⟩
      have hcause : fault.cause = .openString := (FormulaError.lexical.inj heq).2.symm
      obtain ⟨rfl, rfl, hopen⟩ := Scan.token_eq_openString_iff.mp ⟨hfault, hcause⟩
      cases heq
      exact ⟨rest, hreaches, hopen⟩
    · rintro ⟨rest, hreaches, hopen⟩
      obtain ⟨hfault, -⟩ := Scan.token_eq_openString_iff.mpr ⟨rfl, rfl, hopen⟩
      exact ⟨place, '"', rest, _, hreaches, hfault, rfl⟩

/-- Two quotes, of which one is written twice and the other behind a backslash; and an open literal,
whose last quote is behind a backslash. -/
theorem string_literals_carry_any_text_two_quotes :
    tokenize "\"\"\"\\\"\"" = .ok [⟨.text "\"\"", "\"\"\"\\\"\"", 0⟩, ⟨.eof, "", 6⟩] ∧
      (⟨.text "\"\"", "\"\"\"\\\"\"", 0⟩ : Token).IsLiteral "\"\"" "\"\"\"\\\"\"".toList ∧
      ∃ rest, Reaches 0 "1&\"a\\\"".toList 2 ('"' :: rest) ∧
        ¬∃ code t tail, rest = code ++ '"' :: tail ∧ Closes code t tail := by
  obtain ⟨hcarry, hliteral, -, -, hopen⟩ := string_literals_carry_any_text
  have htokens : tokenize "\"\"\"\\\"\"" = .ok
      [⟨.text "\"\"", "\"\"\"\\\"\"", 0⟩, ⟨.eof, "", 6⟩] :=
    hcarry "\"\"" [['"', '"'], ['\\', '"']]
      (.cons List.mem_cons_self (.cons (List.mem_cons_of_mem _ List.mem_cons_self) .nil))
  have herror : tokenize "1&\"a\\\"" = .error (.lexical 2 .openString) := by decide +kernel
  exact ⟨htokens, hliteral _ _ htokens _ List.mem_cons_self _ rfl, (hopen _ _).mp herror⟩

end Spreadsheet.Formula
