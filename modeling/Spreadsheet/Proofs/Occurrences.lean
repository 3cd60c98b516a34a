import Spreadsheet.Proofs.Texts

/-!
# Occurrences of a word

A text is split at the first occurrence of a word, then at the first one behind that, and so on. The
pieces are found in one pass from left to right, and are the only splitting of that kind.

Whether an occurrence is the first one does not depend on what stands behind it: an earlier one
would have ended before it does. So what is put in place of a later occurrence, whatever it is,
leaves the ones before it where they were, even if the word occurs in the new text or overlaps its
ends.

Results:
1. `splits_pieces`, `Splits.unique`: the splitting of a text;
2. `Splits.append`: pieces before first occurrences stay what they are, whatever comes behind;
3. `joinExcept_append`: another word in one place;
4. `length_place_le`, `length_stage_le`: lengths on the way from one word to another.
-/

namespace Spreadsheet.Text

variable {word new p rest text : List Char} {ps qs : List (List Char)}

/-! ## Splittings -/

/-- What stands before an occurrence of a word in a text if no occurrence begins earlier. -/
def IsFirst (word p rest : List Char) : Prop :=
  ∀ q r, p ++ word ++ rest = q ++ word ++ r → p.length ≤ q.length

/-- `Splits word text ps`: the first occurrence of the word, the first one behind it and so on leave
the pieces `ps` of the text. -/
inductive Splits (word : List Char) : List Char → List (List Char) → Prop where
  | last {p : List Char} (h : ¬word <:+: p) : Splits word p [p]
  | next {p rest : List Char} {ps : List (List Char)} (hfirst : IsFirst word p rest)
      (h : Splits word rest ps) : Splits word (p ++ word ++ rest) (p :: ps)

/-- Whether an occurrence is the first one is decided by the text up to its end. -/
theorem IsFirst.change_rest (h : IsFirst word p rest) (rest' : List Char) :
    IsFirst word p rest' := by
  intro q r heq
  refine Nat.le_of_not_lt fun hshort => ?_
  -- the other occurrence ends before this one does
  have hother : q ++ word <+: p ++ word ++ rest' := ⟨r, heq.symm⟩
  have hlength : (q ++ word).length ≤ (p ++ word).length := by
    rw [List.length_append, List.length_append]
    exact Nat.add_le_add_right (Nat.le_of_lt hshort) _
  obtain ⟨r', hr'⟩ := List.prefix_of_prefix_length_le hother (List.prefix_append _ _) hlength
  refine Nat.not_le_of_lt hshort (h q (r' ++ rest) ?_)
  rw [← List.append_assoc, hr']

theorem IsFirst.cons {c : Char} (h : IsFirst word p rest)
    (hnot : ¬word <+: c :: (p ++ word ++ rest)) : IsFirst word (c :: p) rest := by
  intro q r heq
  cases q with
  | nil => exact absurd ⟨r, heq.symm⟩ hnot
  | cons d q =>
    obtain ⟨-, htail⟩ := List.cons_eq_cons.mp heq
    exact Nat.succ_le_succ (h q r htail)

theorem isFirst_nil : IsFirst word [] rest :=
  fun _ _ _ => Nat.zero_le _

/-! ## The pieces are a splitting -/

theorem splits_ne_nil (h : Splits word text ps) : ps ≠ [] := by
  cases h <;> exact List.cons_ne_nil _ _

/-- One more character in front, where no occurrence begins, belongs to the first piece. -/
theorem Splits.cons {c : Char} (h : Splits word text ps) (hnot : ¬word <+: c :: text) :
    Splits word (c :: text) (consHead c ps) := by
  cases h with
  | last hnone =>
    refine .last fun hinfix => ?_
    exact (List.infix_cons_iff.mp hinfix).elim hnot hnone
  | next hfirst hrest => exact .next (hfirst.cons hnot) hrest

/-- A text has a splitting, which are the pieces of it. -/
theorem splits_piecesFrom (hword : word ≠ []) (skip : Nat) (cs : List Char) :
    Splits word (cs.drop skip) (piecesFrom word skip cs) := by
  -- `cs.drop skip` is what the scanner has still to look at
  fun_induction piecesFrom word skip cs with
  | case1 skip =>
    rw [List.drop_nil]
    exact .last fun h => hword (List.infix_nil.mp h)
  | case2 skip c cs ih => exact ih
  | case3 c cs hprefix ih =>
    obtain ⟨rest, hrest⟩ := List.isPrefixOf_iff_prefix.mp hprefix
    obtain ⟨d, word, rfl⟩ := List.exists_cons_of_ne_nil hword
    obtain ⟨rfl, htail⟩ : d = c ∧ word ++ rest = cs := List.cons_eq_cons.mp hrest
    subst htail
    rw [List.length_cons, Nat.add_sub_cancel, List.drop_left] at ih
    exact .next isFirst_nil ih
  | case4 c cs hprefix ih => exact ih.cons fun h => hprefix (List.isPrefixOf_iff_prefix.mpr h)

theorem splits_pieces (hword : word ≠ []) (text : List Char) :
    Splits word text (pieces word text) :=
  splits_piecesFrom hword 0 text

/-- There is no other splitting: both begin at the first occurrence. -/
theorem Splits.unique (h : Splits word text ps) (h' : Splits word text qs) : ps = qs := by
  induction h generalizing qs with
  | last hnone =>
    cases h' with
    | last => rfl
    | next => exact absurd ⟨_, _, rfl⟩ hnone
  | @next p rest ps hfirst hrest ih =>
    generalize htext : p ++ word ++ rest = text at h'
    cases h' with
    | last hnone => exact absurd ⟨_, _, htext⟩ hnone
    | @next q rest' qs hfirst' hrest' =>
      have hlength : p.length = q.length :=
        Nat.le_antisymm (hfirst q rest' htext) (hfirst' p rest htext.symm)
      rw [List.append_assoc, List.append_assoc] at htext
      obtain ⟨rfl, htail⟩ := List.append_inj htext hlength
      obtain rfl := List.append_cancel_left htail
      rw [ih hrest']

/-- The word between the pieces gives the text again. -/
theorem Splits.intercalate (h : Splits word text ps) : word.intercalate ps = text := by
  induction h with
  | last => rw [List.intercalate_singleton]
  | next hfirst hrest ih =>
    rw [List.intercalate_cons_of_ne_nil (splits_ne_nil hrest), ih]

/-- All pieces but the last stand before a first occurrence. -/
theorem Splits.isFirst (h : Splits word text (ps ++ [p])) : ∀ q ∈ ps, IsFirst word q [] := by
  induction ps generalizing text with
  | nil => exact fun q hq => absurd hq List.not_mem_nil
  | cons q ps ih =>
    rw [List.cons_append] at h
    generalize hrest : ps ++ [p] = rs at h
    cases h with
    | last => exact absurd hrest (List.append_ne_nil_of_right_ne_nil _ (List.cons_ne_nil _ _))
    | next hfirst h =>
      exact List.forall_mem_cons.mpr ⟨hfirst.change_rest [], ih (hrest ▸ h)⟩

/-- Behind pieces that stand before first occurrences the splitting is that of the rest. -/
theorem Splits.append (hqs : ∀ q ∈ qs, IsFirst word q []) (h : Splits word text ps) :
    Splits word (word.intercalate (qs ++ [text])) (qs ++ ps) := by
  induction qs with
  | nil => exact List.intercalate_singleton.symm ▸ h
  | cons q qs ih =>
    obtain ⟨hq, hqs⟩ := List.forall_mem_cons.mp hqs
    rw [List.cons_append, List.intercalate_cons_of_ne_nil
      (List.append_ne_nil_of_right_ne_nil _ (List.cons_ne_nil _ _))]
    exact .next (hq.change_rest _) (ih hqs)

/-! ## Words between pieces -/

theorem intercalate_append (hps : ps ≠ []) (hqs : qs ≠ []) : word.intercalate (ps ++ qs) =
    word.intercalate ps ++ word ++ word.intercalate qs := by
  induction ps with
  | nil => exact absurd rfl hps
  | cons p ps ih =>
    by_cases hrest : ps = []
    · rw [hrest, List.cons_append, List.nil_append, List.intercalate_cons_of_ne_nil hqs,
        List.intercalate_singleton]
    · have hboth : ps ++ qs ≠ [] := List.append_ne_nil_of_left_ne_nil hrest _
      rw [List.cons_append, List.intercalate_cons_of_ne_nil hboth, ih hrest,
        List.intercalate_cons_of_ne_nil hrest]
      simp only [List.append_assoc]

/-- What stands at the end belongs to the last piece. -/
theorem intercalate_concat_append :
    word.intercalate (ps ++ [p]) ++ rest = word.intercalate (ps ++ [p ++ rest]) := by
  by_cases hps : ps = []
  · rw [hps, List.nil_append, List.nil_append, List.intercalate_singleton,
      List.intercalate_singleton]
  · rw [intercalate_append hps (List.cons_ne_nil _ _),
      intercalate_append hps (List.cons_ne_nil _ _), List.intercalate_singleton,
      List.intercalate_singleton, List.append_assoc]

/-- Another word in one place only. -/
theorem joinExcept_append (n : Nat) (hps : ps.length = n + 1) (hqs : qs ≠ []) :
    joinExcept word new n (ps ++ qs) =
      word.intercalate ps ++ new ++ word.intercalate qs := by
  induction n generalizing ps with
  | zero =>
    obtain ⟨p, rfl⟩ := List.length_eq_one_iff.mp hps
    obtain ⟨q, qs, rfl⟩ := List.exists_cons_of_ne_nil hqs
    rw [List.intercalate_singleton]
    rfl
  | succ n ih =>
    obtain ⟨p, ps, rfl⟩ := List.exists_cons_of_length_eq_add_one hps
    have hlength : ps.length = n + 1 := Nat.succ.inj hps
    have hne : ps ≠ [] := List.ne_nil_of_length_eq_add_one hlength
    have hjoin := ih hlength
    obtain ⟨q, ps, rfl⟩ := List.exists_cons_of_ne_nil hne
    rw [List.intercalate_cons_of_ne_nil hne]
    show p ++ word ++ joinExcept word new n (q :: ps ++ qs) = _
    rw [hjoin]
    simp only [List.append_assoc]

/-! ## Lengths -/

/-- A longer word between the pieces makes the text longer. -/
theorem length_intercalate_le (h : word.length ≤ new.length) (ps : List (List Char)) :
    (word.intercalate ps).length ≤ (new.intercalate ps).length := by
  induction ps with
  | nil => exact Nat.le_refl _
  | cons p ps ih =>
    by_cases hps : ps = []
    · refine Nat.le_of_eq (congrArg List.length ?_)
      rw [hps, List.intercalate_singleton, List.intercalate_singleton]
    · rw [List.intercalate_cons_of_ne_nil hps, List.intercalate_cons_of_ne_nil hps]
      simp only [List.length_append]
      omega

/-- With another word in one place a text is no longer than with one of both in all places. -/
theorem length_place_le (hps : ps ≠ []) (hqs : qs ≠ []) {l : Nat}
    (hword : (word.intercalate (ps ++ qs)).length ≤ l)
    (hnew : (new.intercalate (ps ++ qs)).length ≤ l) :
    (word.intercalate ps ++ new ++ word.intercalate qs).length ≤ l := by
  rw [intercalate_append hps hqs] at hword hnew
  simp only [List.length_append] at hword hnew ⊢
  rcases Nat.le_total word.length new.length with hle | hle
  · have := length_intercalate_le hle ps
    have := length_intercalate_le hle qs
    omega
  · omega

/-- Likewise with another word in all places from one on. -/
theorem length_stage_le (hqs : qs ≠ []) {l : Nat}
    (hword : (word.intercalate (ps ++ qs)).length ≤ l)
    (hnew : (new.intercalate (ps ++ qs)).length ≤ l) :
    (word.intercalate (ps ++ [new.intercalate qs])).length ≤ l := by
  by_cases hps : ps = []
  · rwa [hps, List.nil_append, List.intercalate_singleton, ← List.nil_append qs, ← hps]
  · rw [intercalate_append hps hqs] at hword hnew
    rw [intercalate_append hps (List.cons_ne_nil _ _), List.intercalate_singleton]
    simp only [List.length_append] at hword hnew ⊢
    rcases Nat.le_total word.length new.length with hle | hle
    · have := length_intercalate_le hle ps
      omega
    · have := length_intercalate_le hle qs
      omega

/-- There are no more places for a word than characters. -/
theorem length_le_length_intercalate (hword : word ≠ []) (ps : List (List Char)) :
    ps.length ≤ (word.intercalate ps).length + 1 := by
  induction ps with
  | nil => exact Nat.zero_le _
  | cons p ps ih =>
    by_cases hps : ps = []
    · rw [hps]
      exact Nat.le_add_left _ _
    · have := List.length_pos_iff.mpr hword
      rw [List.intercalate_cons_of_ne_nil hps, List.length_cons]
      simp only [List.length_append]
      omega

end Spreadsheet.Text
