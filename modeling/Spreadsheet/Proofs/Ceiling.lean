import Spreadsheet.Proofs.CaseGrowth
import Spreadsheet.Proofs.Literals
import Spreadsheet.Proofs.NumberWidth

/-!
# The ceiling on texts

A function that puts texts together checks the length of what it made, and the others cut something
out of a text. Two things escape the check. A number becomes a text when it is cut, and very small
numbers show hundreds of digits; and a change of case can make three characters of one.

So the limit holds for all results as soon as it leaves room for a number, if no function that
changes case is called or no text has a character that grows. In general a result has three times as
many characters, and not more: what a character may become by many changes of case is counted in
advance, and no operation adds to the sum.

The limit is a 64-bit word less than the greatest. Lengths are computed as words, so with the
greatest word as the limit the length of a repetition is never found to be too large.

Results:
1. `admits_property`, `contains_property`: cutting and joining keep texts within the limit;
2. `evaluateFormula_text`: a property of texts that all operations keep holds of results;
3. `computed_texts_are_short`: how long a text is that a formula computes;
4. `upper_case_exceeds_limit`: the upper case of `ß` has two characters, whatever the limit.
-/

namespace Spreadsheet

open Formula Value Builtin Number Text

/-! ## What values show -/

namespace Value

/-- What the value shows has the property, unless it is an error. -/
def Shows (T : List Char → Prop) (v : Value) : Prop :=
  v.error? = none → T v.display.toList

theorem natAbs_int64_lt (n : Int64) : n.toInt.natAbs < 10 ^ 19 := by
  have hlow := n.le_toInt
  have hhigh := n.toInt_lt
  omega

/-- A scalar that is no text shows ASCII characters, and not more than the widest number has. -/
theorem display_of_isScalar {v : Value} (hscalar : v.IsScalar) (htext : ∀ s, v ≠ .text s)
    (herror : v.error? = none) :
    IsAscii v.display.toList ∧ v.display.toList.length ≤ numberWidth := by
  cases v with
  | empty => exact ⟨nofun, by decide⟩
  | bool b => cases b <;> exact ⟨by decide, by decide⟩
  | int n =>
    rw [display, String.toList_ofList]
    refine ⟨isAscii_signedDecimal _, ?_⟩
    exact Nat.le_trans (length_signedDecimal_le (natAbs_int64_lt n) (by decide)) (by decide)
  | float x =>
    rw [display]
    exact ⟨isAscii_cellNumber x, by rw [String.length_toList]; exact length_cellNumber_le x⟩
  | text s => exact absurd rfl (htext s)
  | error e => exact nomatch herror
  | array cells => exact absurd rfl (hscalar cells)

end Value

/-- A property of texts that numbers have and that cutting and joining keep. -/
structure TextProperty (T : List Char → Prop) (C : Char → Prop) (limits : Limits) : Prop where
  ascii : ∀ cs, IsAscii cs → cs.length ≤ numberWidth → T cs
  chars : ∀ cs, T cs → ∀ c ∈ cs, C c
  sublist : ∀ cs ds, List.Sublist cs ds → T ds → T cs
  bounded : ∀ cs : List Char, (∀ c ∈ cs, C c) → cs.length ≤ limits.maxTextLength → T cs

namespace TextProperty

variable {T : List Char → Prop} {C : Char → Prop} {limits : Limits} {v : Value}

theorem shows_of_isScalar (h : TextProperty T C limits) (hscalar : v.IsScalar)
    (htext : ∀ s, v = .text s → T s.toList) : v.Shows T := by
  intro herror
  cases v with
  | text s => exact htext s rfl
  | _ =>
    obtain ⟨hascii, hlength⟩ := display_of_isScalar hscalar nofun herror
    exact h.ascii _ hascii hlength

theorem all_shows (h : TextProperty T C limits)
    (htexts : ∀ s, .text s ∈ v.leaves → T s.toList) : v.All (Shows T) := by
  intro u hu
  refine h.shows_of_isScalar (isScalar_of_mem_leaves hu) ?_
  rintro s rfl
  exact htexts s hu

/-- A limit below the greatest word can be told from any length that exceeds it. -/
theorem rule (h : TextProperty T C limits) (hword : limits.maxTextLength < wordSize - 1) :
    TextRule (Shows T) T C limits where
  basic v hv := h.shows_of_isScalar (by cases hv <;> rintro _ ⟨⟩) (by cases hv <;> rintro _ ⟨⟩)
  text cs hcs := fun _ => by rwa [display, String.toList_ofList]
  display _ hv _ := hv
  chars := h.chars
  sublist := h.sublist
  bounded cs hcs hlength :=
    h.bounded cs hcs ((min_le_iff.mp hlength).resolve_right hword.not_ge)

end TextProperty

/-! ## Texts within the limit -/

/-- The length of the longest text that is expected: that of the limit or of the widest number. -/
def Limits.ceiling (limits : Limits) : Nat :=
  max limits.maxTextLength numberWidth

/-- The text is not longer than expected. -/
def Limits.Admits (limits : Limits) (cs : List Char) : Prop :=
  cs.length ≤ limits.ceiling

theorem admits_property (limits : Limits) : TextProperty limits.Admits (fun _ => True) limits where
  ascii _ _ hlength := Nat.le_trans hlength (Nat.le_max_right _ _)
  chars _ _ _ _ := trivial
  sublist _ _ hsub hds := Nat.le_trans hsub.length_le hds
  bounded _ _ hlength := Nat.le_trans hlength (Nat.le_max_left _ _)

/-- No character becomes more than `k`, and all together do not become more than `k` times what is
expected. -/
structure Limits.Contains (limits : Limits) (k : Nat) (cs : List Char) : Prop where
  each : ∀ c ∈ cs, growth c ≤ k
  total : totalGrowth cs ≤ k * limits.ceiling

theorem contains_property (limits : Limits) {k : Nat} (hk : 1 ≤ k) :
    TextProperty (limits.Contains k) (fun c => growth c ≤ k) limits := by
  have hlength (cs : List Char) (heach : ∀ c ∈ cs, growth c ≤ k) (h : cs.length ≤ limits.ceiling) :
      limits.Contains k cs :=
    ⟨heach, Nat.le_trans (totalGrowth_le heach) (Nat.mul_le_mul_left k h)⟩
  refine ⟨fun cs hascii h => ?_, fun _ h => h.each, fun cs ds hsub hds => ?_, fun cs heach h => ?_⟩
  · refine hlength cs (fun c hc => ?_) (Nat.le_trans h (Nat.le_max_right _ _))
    rwa [growth_of_ascii (hascii c hc)]
  · exact ⟨fun c hc => hds.each c (hsub.mem hc), Nat.le_trans (totalGrowth_sublist hsub) hds.total⟩
  · exact hlength cs heach (Nat.le_trans h (Nat.le_max_left _ _))

section

variable {limits : Limits} {k : Nat}

/-- Whatever grows no further than a text, neither by its characters nor in total. -/
theorem Limits.Contains.of_growth {cs ds : List Char} (h : limits.Contains k cs)
    (hchars : ∀ c ∈ ds, ∃ d ∈ cs, growth c ≤ growth d)
    (htotal : totalGrowth ds ≤ totalGrowth cs) : limits.Contains k ds where
  each c hc := by
    obtain ⟨d, hd, hle⟩ := hchars c hc
    exact Nat.le_trans hle (h.each d hd)
  total := Nat.le_trans htotal h.total

theorem preserves_contained_upper (hk : 1 ≤ k) (hword : limits.maxTextLength < wordSize - 1) :
    Preserves (Shows (limits.Contains k)) limits upper :=
  ((contains_property limits hk).rule hword).preserves_changed fun s hs _ =>
    hs.of_growth (fun _ => exists_of_mem_toUpper) (totalGrowth_toUpper s)

theorem preserves_contained_lower (hk : 1 ≤ k) (hword : limits.maxTextLength < wordSize - 1) :
    Preserves (Shows (limits.Contains k)) limits lower :=
  ((contains_property limits hk).rule hword).preserves_changed fun s hs _ =>
    hs.of_growth (fun _ => exists_of_mem_toLower) (totalGrowth_toLower s)

end

/-! ## Texts that a formula leads to -/

namespace Setting

variable {w : Setting} {text : String}

/-- The formulas that decide what a text is worth: the one that it spells, and those in the cells
that can be seen from there. -/
inductive Involves (w : Setting) (text : String) : Expr → Prop where
  | spelled {e : Expr} (he : Expr.ofText w.limits.maxNesting text = .ok e) : Involves w text e
  | held {e e' : Expr} {a b : Address} (he : Expr.ofText w.limits.maxNesting text = .ok e)
      (ha : a ∈ e.cells) (hb : w.Sees a b) (he' : w.Holds b e') : Involves w text e'

/-- The texts that these formulas find: their own literals, and what is stored in those cells. -/
inductive Finds (w : Setting) (text : String) : String → Prop where
  | literal {e : Expr} {s : String} (he : w.Involves text e) (hs : .text s ∈ e.literals) :
      Finds w text s
  | stored {e : Expr} {a b : Address} {v : Value} {s : String}
      (he : Expr.ofText w.limits.maxNesting text = .ok e) (ha : a ∈ e.cells) (hb : w.Sees a b)
      (hv : w.grid b = some (.literal v)) (hs : .text s ∈ v.leaves) : Finds w text s

/-- An expression that is involved was read from some text. -/
theorem Involves.isScalar {e : Expr} {v : Value} (h : w.Involves text e) (hv : v ∈ e.literals) :
    v.IsScalar := by
  cases h with
  | spelled he => exact Expr.isScalar_of_ofText he hv
  | held _ _ _ he' =>
    obtain ⟨source, -, hsource⟩ := he'
    exact Expr.isScalar_of_ofText hsource hv

end Setting

section

variable {T : List Char → Prop} {C : Char → Prop} {limits : Limits} {g : Grid} {text s : String}

/-- The functions that an expression calls keep a property, if those that change the case do. -/
theorem Formula.Expr.calls_preserve (hT : TextRule (Shows T) T C limits) {e : Expr}
    (hupper : ∀ name ∈ e.callees, toUpper name = "UPPER" → Preserves (Shows T) limits upper)
    (hlower : ∀ name ∈ e.callees, toUpper name = "LOWER" → Preserves (Shows T) limits lower) :
    ∀ name ∈ e.callees, ∀ d, Registry.standard.find? name = some d →
      Preserves (Shows T) limits d.implementation := by
  intro name hname d hd
  exact Registry.standardEntries_preserve (fun key => toUpper name = key) hT.basic
    hT.textFunctions_preserve (hupper name hname) (hlower name hname) _
    (Registry.mem_of_find? hd) rfl

/-- A property of texts holds of a result if it holds of all texts that are found on the way and the
functions that change the case keep it where they are called. -/
theorem evaluateFormula_text (hT : TextProperty T C limits)
    (hword : limits.maxTextLength < wordSize - 1)
    (hfinds : ∀ t, ((Engine.standard limits).setting g).Finds text t → T t.toList)
    (hupper : ∀ e, ((Engine.standard limits).setting g).Involves text e → ∀ name ∈ e.callees,
      toUpper name = "UPPER" → Preserves (Shows T) limits upper)
    (hlower : ∀ e, ((Engine.standard limits).setting g).Involves text e → ∀ name ∈ e.callees,
      toUpper name = "LOWER" → Preserves (Shows T) limits lower)
    (h : (Engine.standard limits).evaluateFormula g text = .text s) : T s.toList := by
  have hw : ((Engine.standard limits).setting g).Carries (Shows T) :=
    ⟨(hT.rule hword).basic, fun _ _ ha hb => (hT.rule hword).all_joined ha hb⟩
  have hbrings : ∀ e, ((Engine.standard limits).setting g).Involves text e →
      e.Brings ((Engine.standard limits).setting g) (Shows T) := by
    refine fun e he => ⟨fun v hv => hT.all_shows fun t ht => hfinds t (.literal he ?_),
      Expr.calls_preserve (hT.rule hword) (hupper e he) (hlower e he)⟩
    rw [(he.isScalar hv).leaves, List.mem_singleton] at ht
    rwa [ht]
  have hall := Engine.evaluateFormula_all hw fun e he => ⟨hbrings e (.spelled he), fun a ha =>
    ⟨fun b v hb hv => hT.all_shows fun t ht => hfinds t (.stored he ha hb hv ht),
      fun b e' hb he' => hbrings e' (.held he ha hb he')⟩⟩
  rw [h, all_text_iff] at hall
  exact hall rfl

/-! ## How long results are -/

/-- The expression calls a function that changes the case. -/
def Formula.Expr.ChangesCase (e : Expr) : Prop :=
  ∃ name ∈ e.callees, toUpper name = "UPPER" ∨ toUpper name = "LOWER"

/-- No cell text and no text in a stored value is longer than the limit. -/
structure Grid.Within (g : Grid) (limits : Limits) : Prop where
  formulas : ∀ a source, g a = some (.formula source) → source.length ≤ limits.maxTextLength
  stored : ∀ a v, g a = some (.literal v) → ∀ s, .text s ∈ v.leaves → s.length ≤ limits.maxTextLength

/-- All texts that a formula finds in a grid within the limit are within it, if its own are. -/
theorem Grid.Within.length_le (hg : g.Within limits)
    (htext : ∀ e, Expr.ofText limits.maxNesting text = .ok e → ∀ s, .text s ∈ e.literals →
      s.length ≤ limits.maxTextLength)
    (h : ((Engine.standard limits).setting g).Finds text s) :
    s.length ≤ limits.maxTextLength := by
  cases h with
  | literal he hs =>
    cases he with
    | spelled he => exact htext _ he s hs
    | held _ _ _ he' =>
      obtain ⟨source, hsource, he'⟩ := he'
      exact Nat.le_trans (Expr.length_le_of_ofText he' hs) (hg.formulas _ source hsource)
  | stored _ _ _ hv hs => exact hg.stored _ _ hv s hs

/-- Let the limit be less than the greatest word, and no string literal of a formula and no text in
the grid be longer than it. If what the formula is worth is a text, it has at most three times as
many characters as the limit allows or, if that is more, as the widest number. It has no more than
these if no character of the texts that the formula leads to grows in the other case, or if none of
the formulas involved changes the case. -/
theorem computed_texts_are_short (limits : Limits) (hword : limits.maxTextLength < wordSize - 1)
    (g : Grid) (hg : g.Within limits) (text : String)
    (htext : ∀ e, Expr.ofText limits.maxNesting text = .ok e → ∀ s, .text s ∈ e.literals →
      s.length ≤ limits.maxTextLength) :
    let w := (Engine.standard limits).setting g
    ∀ s, (Engine.standard limits).evaluateFormula g text = .text s →
      s.length ≤ 3 * max limits.maxTextLength numberWidth ∧
      ((∀ t, w.Finds text t → ∀ c ∈ t.toList, growth c = 1) →
        s.length ≤ max limits.maxTextLength numberWidth) ∧
      ((∀ e, w.Involves text e → ¬ e.ChangesCase) →
        s.length ≤ max limits.maxTextLength numberWidth) := by
  intro w s hs
  have hlength {k : Nat} (hk : 1 ≤ k)
      (hfinds : ∀ t, w.Finds text t → ∀ c ∈ t.toList, growth c ≤ k) :
      s.length ≤ k * limits.ceiling := by
    have hproperty := contains_property limits hk
    have hcontains : limits.Contains k s.toList :=
      evaluateFormula_text hproperty hword
        (fun t ht => hproperty.bounded _ (hfinds t ht) (hg.length_le htext ht))
        (fun _ _ _ _ _ => preserves_contained_upper hk hword)
        (fun _ _ _ _ _ => preserves_contained_lower hk hword) hs
    rw [← String.length_toList]
    exact Nat.le_trans (length_le_totalGrowth _) hcontains.total
  -- growths are bounded by three in any case, and by one where no character grows
  refine ⟨hlength (by decide) fun _ _ c _ => growth_le_three c, fun hsteady => ?_, fun hcase => ?_⟩
  · have := hlength (Nat.le_refl 1) fun t ht c hc => Nat.le_of_eq (hsteady t ht c hc)
    rwa [Nat.one_mul] at this
  · have hadmits : limits.Admits s.toList :=
      evaluateFormula_text (admits_property limits) hword
        (fun t ht => (admits_property limits).bounded _ (fun _ _ => trivial)
          (hg.length_le htext ht))
        (fun e he name hname hupper => absurd ⟨name, hname, .inl hupper⟩ (hcase e he))
        (fun e he name hname hlower => absurd ⟨name, hname, .inr hlower⟩ (hcase e he)) hs
    rwa [← String.length_toList]

end

/-! ## Short texts -/

namespace ShortTexts

/-- A text in `A1` and nothing else. -/
def content : Grid := fun a => if a = ⟨0, 0⟩ then some (.literal (.text "ab")) else some .blank

def limits : Limits :=
  { maxTextLength := 2 }

def cut : Expr :=
  .call "LEFT" [.cell ⟨⟨0, 0⟩, false, false⟩]

theorem ofText_cut : Expr.ofText limits.maxNesting "=LEFT(A1)" = .ok cut :=
  Expr.ofText_of_tokens
    [⟨.name "LEFT", "LEFT", 0⟩, ⟨.leftParen, "(", 4⟩, ⟨.cell ⟨⟨0, 0⟩, false, false⟩, "A1", 5⟩,
      ⟨.rightParen, ")", 7⟩, ⟨.eof, "", 8⟩] (by decide +kernel) (by decide +kernel) rfl

theorem evaluateFormula_cut :
    (Engine.standard limits).evaluateFormula content "=LEFT(A1)" = .text "a" := by
  rw [Engine.evaluateFormula_of_ok _ _ ofText_cut]
  rfl

theorem not_formula {a : Address} {source : String} : content a ≠ some (.formula source) := by
  unfold content
  split <;> exact nofun

theorem within : content.Within limits where
  formulas _ _ h := absurd h not_formula
  stored a v hv s hs := by
    unfold content at hv
    split at hv
    · cases hv
      cases List.mem_singleton.mp hs
      decide
    · exact nomatch hv

/-- The only formula involved changes no case. -/
theorem not_changesCase {e : Expr}
    (h : ((Engine.standard limits).setting content).Involves "=LEFT(A1)" e) : ¬ e.ChangesCase := by
  cases h with
  | spelled he =>
    cases ofText_cut.symm.trans he
    rintro ⟨name, hname, hcase⟩
    cases List.mem_singleton.mp hname
    revert hcase
    decide +kernel
  | held _ _ _ he' =>
    obtain ⟨source, hsource, -⟩ := he'
    exact absurd hsource not_formula

def sharp : Expr :=
  .call "UPPER" [.literal (.text "ß")]

theorem ofText_sharp : Expr.ofText 128 "=UPPER(\"ß\")" = .ok sharp :=
  Expr.ofText_of_tokens
    [⟨.name "UPPER", "UPPER", 0⟩, ⟨.leftParen, "(", 5⟩, ⟨.text "ß", "\"ß\"", 6⟩,
      ⟨.rightParen, ")", 9⟩, ⟨.eof, "", 10⟩] (by decide +kernel) (by decide +kernel) rfl

end ShortTexts

open ShortTexts in
theorem computed_texts_are_short_cut :
    limits.maxTextLength < wordSize - 1 ∧ content.Within limits ∧
      Expr.ofText limits.maxNesting "=LEFT(A1)" = .ok cut ∧
      (Engine.standard limits).evaluateFormula content "=LEFT(A1)" = .text "a" ∧
      "a".length ≤ max limits.maxTextLength numberWidth := by
  have htext : ∀ e, Expr.ofText limits.maxNesting "=LEFT(A1)" = .ok e → ∀ s, .text s ∈ e.literals →
      s.length ≤ limits.maxTextLength := by
    intro e he s hs
    cases ofText_cut.symm.trans he
    exact absurd hs List.not_mem_nil
  have hword : limits.maxTextLength < wordSize - 1 := by decide
  obtain ⟨-, -, hshort⟩ :=
    computed_texts_are_short limits hword content within "=LEFT(A1)" htext "a" evaluateFormula_cut
  exact ⟨hword, within, ofText_cut, evaluateFormula_cut, hshort fun _ => not_changesCase⟩

open ShortTexts in
/-- The only text there is has one character, which is what the limit allows, and the result has
two. -/
theorem upper_case_exceeds_limit :
    (∀ s, .text s ∈ sharp.literals → s.length ≤ 1) ∧
      Expr.ofText 128 "=UPPER(\"ß\")" = .ok sharp ∧
      (Engine.standard { maxTextLength := 1 }).evaluateFormula Grid.blank "=UPPER(\"ß\")" =
        .text "SS" ∧ 1 < "SS".length := by
  refine ⟨fun s hs => ?_, ofText_sharp, ?_, by decide⟩
  · cases List.mem_singleton.mp hs
    decide
  · rw [Engine.evaluateFormula_of_ok _ _ ofText_sharp]
    rfl

end Spreadsheet
