import Spreadsheet.Proofs.Results

/-!
# Texts that functions make

Where a function makes a text it does one of three things. It cuts characters out of a text that it
was given, keeping their order; or it puts texts together and checks the length; or it changes the
case. `TextRule` says what a property of texts needs to survive the first two.

Results:
1. `mem_intercalate`, `sublist_intercalate`, `mem_of_mem_pieces`: cutting and joining;
2. `TextRule.textFunctions_preserve`: the functions that cut and join keep such a property;
3. `TextRule.all_joined`: so does the operator that joins;
4. `TextRule.preserves_changed`: those that change the case keep it if the change does.
-/

namespace Spreadsheet

open Formula Value

/-! ## Cutting and joining -/

namespace Text

variable {sep : List Char} {ps qs : List (List Char)} {c : Char}

theorem mem_intercalate (h : c ∈ sep.intercalate ps) : c ∈ sep ∨ ∃ p ∈ ps, c ∈ p := by
  induction ps with
  | nil => exact absurd h List.not_mem_nil
  | cons p ps ih =>
    by_cases hps : ps = []
    · subst hps
      rw [List.intercalate_singleton] at h
      exact .inr ⟨p, List.mem_cons_self, h⟩
    · rw [List.intercalate_cons_of_ne_nil hps, List.mem_append, List.mem_append] at h
      rcases h with (hp | hsep) | hrest
      · exact .inr ⟨p, List.mem_cons_self, hp⟩
      · exact .inl hsep
      · exact (ih hrest).imp_right fun ⟨q, hq, hc⟩ => ⟨q, List.mem_cons_of_mem p hq, hc⟩

/-- Leaving pieces out leaves characters out. -/
theorem sublist_intercalate (h : ps.Sublist qs) :
    (sep.intercalate ps).Sublist (sep.intercalate qs) := by
  have hcons (p : List Char) (qs : List (List Char)) :
      (sep.intercalate qs).Sublist (sep.intercalate (p :: qs)) := by
    by_cases hqs : qs = []
    · subst hqs
      exact List.nil_sublist _
    · rw [List.intercalate_cons_of_ne_nil hqs]
      exact List.sublist_append_right _ _
  induction h with
  | slnil => exact .refl _
  | cons p _ ih => exact ih.trans (hcons p _)
  | @cons_cons ps qs p hsub ih =>
    by_cases hps : ps = []
    · subst hps
      by_cases hqs : qs = []
      · subst hqs
        exact .refl _
      · rw [List.intercalate_singleton, List.intercalate_cons_of_ne_nil hqs, List.append_assoc]
        exact List.sublist_append_left _ _
    · have hqs : qs ≠ [] := fun hnil => hps (List.sublist_nil.mp (hnil ▸ hsub))
      rw [List.intercalate_cons_of_ne_nil hps, List.intercalate_cons_of_ne_nil hqs]
      exact ih.append_left _

theorem mem_of_mem_consHead {d : Char} {p : List Char} (hp : p ∈ consHead d ps) (hc : c ∈ p) :
    c = d ∨ ∃ q ∈ ps, c ∈ q := by
  cases ps with
  | nil =>
    obtain rfl := List.mem_singleton.mp hp
    exact .inl (List.mem_singleton.mp hc)
  | cons q ps =>
    rcases List.mem_cons.mp hp with rfl | hp
    · exact (List.mem_cons.mp hc).imp_right fun hc => ⟨q, List.mem_cons_self, hc⟩
    · exact .inr ⟨p, List.mem_cons_of_mem q hp, hc⟩

theorem mem_of_mem_piecesFrom {word cs p : List Char} {skip : Nat}
    (hp : p ∈ piecesFrom word skip cs) (hc : c ∈ p) : c ∈ cs := by
  induction cs generalizing skip p with
  | nil =>
    obtain rfl : p = [] := by cases skip <;> simpa [piecesFrom] using hp
    exact hc
  | cons d cs ih =>
    cases skip with
    | succ skip => exact List.mem_cons_of_mem d (ih hp hc)
    | zero =>
      rw [piecesFrom] at hp
      split at hp
      · rcases List.mem_cons.mp hp with rfl | hp
        · exact absurd hc List.not_mem_nil
        · exact List.mem_cons_of_mem d (ih hp hc)
      · rcases mem_of_mem_consHead hp hc with rfl | ⟨q, hq, hc⟩
        · exact List.mem_cons_self
        · exact List.mem_cons_of_mem d (ih hq hc)

/-- The pieces between the occurrences of a word consist of characters of the text. -/
theorem mem_of_mem_pieces {word cs p : List Char} (hp : p ∈ pieces word cs) (hc : c ∈ p) :
    c ∈ cs :=
  mem_of_mem_piecesFrom hp hc

theorem mem_joinExcept {word other : List Char} {n : Nat} (h : c ∈ joinExcept word other n ps) :
    c ∈ word ∨ c ∈ other ∨ ∃ p ∈ ps, c ∈ p := by
  induction ps generalizing n with
  | nil => cases n <;> exact absurd h List.not_mem_nil
  | cons p ps ih =>
    cases ps with
    | nil => cases n <;> exact .inr (.inr ⟨p, List.mem_cons_self, h⟩)
    | cons q ps =>
      cases n with
      | zero =>
        rw [joinExcept, List.mem_append, List.mem_append] at h
        · rcases h with (hp | hother) | hrest
          · exact .inr (.inr ⟨p, List.mem_cons_self, hp⟩)
          · exact .inr (.inl hother)
          · exact (mem_intercalate hrest).imp_right fun ⟨r, hr, hc⟩ =>
              .inr ⟨r, List.mem_cons_of_mem p hr, hc⟩
        · exact nofun
      | succ n =>
        rw [joinExcept, List.mem_append, List.mem_append] at h
        · rcases h with (hp | hword) | hrest
          · exact .inr (.inr ⟨p, List.mem_cons_self, hp⟩)
          · exact .inl hword
          · exact (ih hrest).imp_right (Or.imp_right fun ⟨r, hr, hc⟩ =>
              ⟨r, List.mem_cons_of_mem p hr, hc⟩)
        · exact nofun

end Text

/-! ## A property of texts -/

namespace Value

/-- The value is no list. -/
def IsScalar (v : Value) : Prop :=
  ∀ cells, v ≠ .array cells

theorem IsScalar.leaves {v : Value} (h : v.IsScalar) : v.leaves = [v] := by
  cases v with
  | array cells => exact absurd rfl (h cells)
  | _ => rfl

theorem leavesOf_of_isScalar {vs : List Value} (h : ∀ v ∈ vs, v.IsScalar) : leavesOf vs = vs := by
  induction vs with
  | nil => rfl
  | cons v vs ih =>
    rw [leavesOf, (h v List.mem_cons_self).leaves, ih fun u hu => h u (List.mem_cons_of_mem v hu)]
    rfl

/-- A value that stands for one value is no list. -/
theorem isScalar_of_scalar : ∀ {v u : Value}, v.scalar = .ok u → u.IsScalar
  | .array [v], _, h => by
    rw [Value.scalar] at h
    exact isScalar_of_scalar h
  | .empty, _, rfl | .bool _, _, rfl | .int _, _, rfl | .float _, _, rfl
  | .text _, _, rfl | .error _, _, rfl => nofun

mutual

theorem isScalar_of_mem_leaves : ∀ {v u : Value}, u ∈ v.leaves → u.IsScalar
  | .array vs, u, h => isScalar_of_mem_leavesOf (by rwa [Value.leaves] at h)
  | .empty, u, h | .bool _, u, h | .int _, u, h | .float _, u, h | .text _, u, h
  | .error _, u, h => by
    obtain rfl := List.mem_singleton.mp h
    exact nofun

theorem isScalar_of_mem_leavesOf : ∀ {vs : List Value} {u : Value}, u ∈ leavesOf vs → u.IsScalar
  | [], _, h => absurd h List.not_mem_nil
  | v :: vs, u, h => by
    rw [leavesOf, List.mem_append] at h
    rcases h with h | h
    · exact isScalar_of_mem_leaves h
    · exact isScalar_of_mem_leavesOf h

end

end Value

/-- The property `T` of texts, where `Q` is the property of the scalars that texts come from and
go to and `C` is what `T` says of characters: texts of such characters have `T`, as long as their
lengths, counted as words, do not exceed the limit. -/
structure TextRule (Q : Value → Prop) (T : List Char → Prop) (C : Char → Prop) (limits : Limits) :
    Prop where
  basic : ∀ v, v.IsBasic → Q v
  text : ∀ cs, T cs → Q (.text (String.ofList cs))
  display : ∀ v, Q v → v.IsScalar → v.error? = none → T v.display.toList
  chars : ∀ cs, T cs → ∀ c ∈ cs, C c
  sublist : ∀ cs ds, List.Sublist cs ds → T ds → T cs
  bounded : ∀ cs : List Char, (∀ c ∈ cs, C c) →
    min cs.length (Number.wordSize - 1) ≤ limits.maxTextLength → T cs

namespace TextRule

variable {Q : Value → Prop} {T : List Char → Prop} {C : Char → Prop} {limits : Limits}

theorem all_text (h : TextRule Q T C limits) {cs : List Char} (hcs : T cs) :
    (Value.text (String.ofList cs)).All Q :=
  all_text_iff.mpr (h.text cs hcs)

theorem gives_built (h : TextRule Q T C limits) {cs : List Char} (hcs : ∀ c ∈ cs, C c) :
    Gives (·.All Q) (Builtin.built limits cs) := by
  unfold Builtin.built
  split
  · next hlength => exact .pure (h.all_text (h.bounded cs hcs
      (Nat.le_trans (Nat.min_le_left _ _) hlength)))
  · exact .throw

theorem gives_toText (h : TextRule Q T C limits) {v : Value} (hv : v.All Q) :
    Gives (fun s => T s.toList) v.toText := by
  unfold Value.toText
  refine .bind (Q := fun u => Q u ∧ u.IsScalar) (fun u hu => ?_) fun u ⟨hu, hscalar⟩ => ?_
  · have hscalar := isScalar_of_scalar hu
    exact ⟨hv.scalar hu u (by rw [hscalar.leaves]; exact List.mem_cons_self), hscalar⟩
  · cases u with
    | error e => exact .throw
    | _ => exact .pure (h.display _ hu hscalar rfl)

theorem all_joined (h : TextRule Q T C limits) {a b : Value} (ha : a.All Q) (hb : b.All Q) :
    (joined limits a b).All Q := by
  have herror (x : CellError) : (Value.error x).All Q := (IsBasic.error x).all h.basic
  unfold joined Builtin.strict2
  split
  · exact herror _
  · refine Gives.ofExcept ?_ herror
    refine (h.gives_toText ha).bind fun left hleft => ?_
    refine (h.gives_toText hb).bind fun right hright => ?_
    exact h.gives_built (List.forall_mem_append.mpr ⟨h.chars _ hleft, h.chars _ hright⟩)

/-! ## Functions -/

open Builtin

variable {args : List Value}

theorem gives_chars (h : TextRule Q T C limits) (hargs : ∀ v ∈ args, v.All Q) (i : Nat) :
    Gives T (Builtin.chars args i) :=
  (h.gives_toText (all_arg h.basic hargs i)).bind fun _ hs => .pure hs

theorem preserves_left (h : TextRule Q T C limits) : Preserves Q limits left := by
  refine preserves_strict h.basic fun args _ hargs => ?_
  refine (h.gives_chars hargs 0).bind fun cs hcs => .bind_any fun n => .pure ?_
  exact h.all_text (h.sublist _ cs (List.take_sublist n cs) hcs)

theorem preserves_right (h : TextRule Q T C limits) : Preserves Q limits right := by
  refine preserves_strict h.basic fun args _ hargs => ?_
  refine (h.gives_chars hargs 0).bind fun cs hcs => .bind_any fun n => .pure ?_
  exact h.all_text (h.sublist _ cs (List.drop_sublist _ cs) hcs)

theorem preserves_middle (h : TextRule Q T C limits) : Preserves Q limits middle := by
  refine preserves_strict h.basic fun args _ hargs => ?_
  refine (h.gives_chars hargs 0).bind fun cs hcs => ?_
  refine .bind_any fun start => .bind_any fun n => .pure ?_
  have hsub : ((cs.drop start).take n).Sublist cs :=
    (List.take_sublist n _).trans (List.drop_sublist start cs)
  exact h.all_text (h.sublist _ cs hsub hcs)

theorem preserves_replace (h : TextRule Q T C limits) : Preserves Q limits replace := by
  refine preserves_strict h.basic fun args _ hargs => ?_
  refine (h.gives_chars hargs 0).bind fun cs hcs => ?_
  refine .bind_any fun start => .bind_any fun n => ?_
  refine (h.gives_chars hargs 3).bind fun new hnew => h.gives_built fun c hc => ?_
  rw [List.mem_append, List.mem_append] at hc
  rcases hc with (hc | hc) | hc
  · exact h.chars cs hcs c (List.mem_of_mem_take hc)
  · exact h.chars new hnew c hc
  · exact h.chars cs hcs c (List.mem_of_mem_drop hc)

theorem preserves_substitute (h : TextRule Q T C limits) : Preserves Q limits substitute := by
  refine preserves_strict h.basic fun args _ hargs => ?_
  refine (h.gives_chars hargs 0).bind fun cs hcs => ?_
  refine (h.gives_chars hargs 1).bind fun old hold => ?_
  refine (h.gives_chars hargs 2).bind fun new hnew => ?_
  have hpieces : ∀ c, (∃ p ∈ Text.pieces old cs, c ∈ p) → C c :=
    fun c ⟨p, hp, hc⟩ => h.chars cs hcs c (Text.mem_of_mem_pieces hp hc)
  dsimp only
  -- nothing to look for, every match, or the match with a number
  split
  · exact .pure (h.all_text hcs)
  · split
    · refine h.gives_built fun c hc => ?_
      exact (Text.mem_intercalate hc).elim (h.chars new hnew c) (hpieces c)
    · refine .bind_any fun n => ?_
      split
      · exact .throw
      · split
        · refine h.gives_built fun c hc => ?_
          rcases Text.mem_joinExcept hc with hc | hc | hc
          · exact h.chars old hold c hc
          · exact h.chars new hnew c hc
          · exact hpieces c hc
        · exact .pure (h.all_text hcs)

/-- The words of a text with one space between them are the text without some of its spaces. -/
theorem sublist_trimmed (cs : List Char) : ([' '].intercalate (words cs)).Sublist cs := by
  have hsub : ([' '].intercalate (words cs)).Sublist ([' '].intercalate (cs.splitOn ' ')) :=
    Text.sublist_intercalate List.filter_sublist
  rwa [List.intercalate_splitOn] at hsub

theorem preserves_trimmed (h : TextRule Q T C limits) : Preserves Q limits trimmed := by
  refine preserves_strict h.basic fun args _ hargs => ?_
  refine (h.gives_chars hargs 0).bind fun cs hcs => .pure ?_
  exact h.all_text (h.sublist _ cs (sublist_trimmed cs) hcs)

theorem preserves_repeated (h : TextRule Q T C limits) : Preserves Q limits repeated := by
  refine preserves_strict h.basic fun args _ hargs => ?_
  refine (h.gives_chars hargs 0).bind fun cs hcs => .bind_any fun n => ?_
  dsimp only
  -- the length is checked before the text is made
  split
  · exact .throw
  · next hlength =>
    split
    · exact .pure (h.all_text (h.sublist [] cs (List.nil_sublist cs) hcs))
    · refine .pure (h.all_text (h.bounded _ (fun c hc => ?_) ?_))
      · obtain ⟨p, hp, hc⟩ := List.mem_flatten.mp hc
        exact h.chars cs hcs c (List.eq_of_mem_replicate hp ▸ hc)
      · rw [List.length_flatten, List.map_replicate, List.sum_replicate_nat, Nat.mul_comm]
        exact Nat.le_of_not_lt hlength

/-- What the scalars among arguments without errors show. -/
theorem display_leavesOf (h : TextRule Q T C limits) {vs : List Value} {v : Value}
    (hclean : firstError? vs = none) (hvs : ∀ v ∈ vs, v.All Q) (hv : v ∈ leavesOf vs) :
    ∀ c ∈ v.display.toList, C c := by
  have hscalar := isScalar_of_mem_leavesOf hv
  have hQ : Q v := all_of_mem_leavesOf hvs hv v (by rw [hscalar.leaves]; exact List.mem_cons_self)
  exact h.chars _ (h.display v hQ hscalar (List.findSome?_eq_none_iff.mp hclean v hv))

theorem preserves_concat (h : TextRule Q T C limits) : Preserves Q limits Builtin.concat := by
  refine preserves_strict h.basic fun args hclean hargs => h.gives_built fun c hc => ?_
  obtain ⟨v, hv, hc⟩ := List.mem_flatMap.mp hc
  exact h.display_leavesOf hclean hargs hv c hc

theorem preserves_joinTexts (h : TextRule Q T C limits) : Preserves Q limits joinTexts := by
  refine preserves_strict h.basic fun args hclean hargs => ?_
  refine (h.gives_chars hargs 0).bind fun delimiter hdelimiter => .bind_any fun ignoresEmpty => ?_
  have hparts : ∀ p ∈ (leavesOf (args.drop 2)).map fun v => v.display.toList, ∀ c ∈ p, C c := by
    intro p hp
    obtain ⟨v, hv, rfl⟩ := List.mem_map.mp hp
    refine h.display_leavesOf ?_ (fun v hv => hargs v (List.mem_of_mem_drop hv)) hv
    exact firstError?_eq_none_iff.mpr fun v hv =>
      firstError?_eq_none_iff.mp hclean v (List.mem_of_mem_drop hv)
  refine h.gives_built fun c hc => ?_
  rcases Text.mem_intercalate hc with hc | ⟨p, hp, hc⟩
  · exact h.chars delimiter hdelimiter c hc
  · split at hp
    · exact hparts p (List.mem_filter.mp hp).1 c hc
    · exact hparts p hp c hc

/-- A function that changes its text throughout is only as good as the change. -/
theorem preserves_changed (h : TextRule Q T C limits) {change : String → String}
    (hchange : ∀ s, T s.toList → Q (.text (change s))) :
    Preserves Q limits (strict fun _ args => return .text (change (← (arg args 0).toText))) := by
  refine preserves_strict h.basic fun args _ hargs => ?_
  refine (h.gives_toText (all_arg h.basic hargs 0)).bind fun s hs => .pure ?_
  exact all_text_iff.mpr (hchange s hs)

/-- The functions that cut and join texts keep the property. -/
theorem textFunctions_preserve (h : TextRule Q T C limits) :
    ∀ f ∈ textFunctions, Preserves Q limits f := by
  simp only [textFunctions, List.forall_mem_cons, List.not_mem_nil, false_imp_iff, implies_true,
    and_true]
  exact ⟨h.preserves_left, h.preserves_right, h.preserves_middle, h.preserves_replace,
    h.preserves_substitute, h.preserves_trimmed, h.preserves_repeated, h.preserves_concat,
    h.preserves_joinTexts⟩

end TextRule

end Spreadsheet
