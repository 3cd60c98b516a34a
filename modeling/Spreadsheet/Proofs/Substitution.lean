import Spreadsheet.Proofs.Counts
import Spreadsheet.Proofs.Occurrences

/-!
# Replacing a word

`SUBSTITUTE` replaces a word in a text, everywhere or in one place, and both go by the same
splitting of the text. To replace the places one at a time, it is best to begin with the last: what
is put there can make new occurrences of the word, on its own or together with what stands around
it, but they all come behind the places that are left. So each call finds these under their old
numbers, and what is reached after each of them is a `stage`: the pieces up to some place with the
old word between them, and the rest with the new one.

The number of a place is read as a double. So one of more than 53 binary digits may name another
place, if the text has that many.

Nothing here is said in bytes. But a word that occurs among the bytes of a text begins and ends
between two characters, so a search there finds the same places.

Results:
1. `exists_toByteArray`: an occurrence in bytes is one in characters;
2. `substitute_all`, `substitute_eq`: one call;
3. `substitute_stage`, `substituteDown_stage`: one place at a time;
4. `place_is_read_as_double`: a number that is read as another one;
5. `substitutions_agree`: all of it for the splitting of a text.
-/

namespace Spreadsheet

open Text Value

/-! ## Places in the encoding -/

/-- A text that occurs byte by byte begins and ends between two characters. -/
theorem exists_toByteArray {t old : String} (hold : old ≠ "") {a b : ByteArray}
    (h : t.toByteArray = a ++ old.toByteArray ++ b) :
    ∃ front back : String, front.toByteArray = a ∧ back.toByteArray = b := by
  have hpos : 0 < old.toByteArray.size := by
    rw [String.size_toByteArray]
    exact Nat.pos_of_ne_zero fun hzero => hold (String.utf8ByteSize_eq_zero_iff.mp hzero)
  have hsize : t.rawEndPos.byteIdx = a.size + old.toByteArray.size + b.size := by
    rw [String.byteIdx_rawEndPos, ← String.size_toByteArray, h, ByteArray.size_append,
      ByteArray.size_append]
  -- the first byte of a text is no byte from the inside of a character
  have hstart : String.Pos.Raw.IsValid t ⟨a.size⟩ := by
    have hlt : (⟨a.size⟩ : String.Pos.Raw) < t.rawEndPos := by
      rw [String.Pos.Raw.lt_iff, hsize]
      dsimp only
      omega
    have hold' : (0 : String.Pos.Raw) < old.rawEndPos := by
      rwa [String.Pos.Raw.lt_iff, String.byteIdx_rawEndPos, ← String.size_toByteArray]
    have hbyte : t.getUTF8Byte ⟨a.size⟩ hlt = old.getUTF8Byte 0 hold' := by
      simp only [String.getUTF8Byte, h, ByteArray.append_assoc,
        ByteArray.getElem_append_right (Nat.le_refl _), Nat.sub_self]
      exact ByteArray.getElem_append_left hpos
    refine String.Pos.Raw.isValid_iff_isUTF8FirstByte.mpr (.inr ⟨hlt, ?_⟩)
    rw [hbyte]
    exact String.isUTF8FirstByte_getUTF8Byte_zero
  have ha : a.IsValidUTF8 := by
    have hvalid := (String.Pos.Raw.isValid_iff_isValidUTF8_extract_zero.mp hstart).2
    rwa [h, ByteArray.append_assoc, ByteArray.extract_append_eq_left rfl] at hvalid
  have hfront : (String.ofByteArray a ha ++ old).toByteArray = a ++ old.toByteArray :=
    String.toByteArray_append
  have hstop : String.Pos.Raw.IsValid t ⟨(a ++ old.toByteArray).size⟩ := by
    refine String.Pos.Raw.isValid_iff_isValidUTF8_extract_zero.mpr ⟨?_, ?_⟩
    · rw [String.Pos.Raw.le_iff, hsize, ByteArray.size_append]
      exact Nat.le_add_right _ _
    · rw [h, ByteArray.extract_append_eq_left rfl, ← hfront]
      exact String.isValidUTF8 _
  have hb : b.IsValidUTF8 := by
    have hvalid := (String.Pos.Raw.isValid_iff_isValidUTF8_extract_utf8ByteSize.mp hstop).2
    rwa [← String.size_toByteArray, h, ByteArray.extract_append_eq_right rfl
      ByteArray.size_append] at hvalid
  exact ⟨.ofByteArray a ha, .ofByteArray b hb, rfl, rfl⟩

namespace Builtin

variable {limits : Limits} {t old new : String} {v : Value} {k : Nat}
  {ps qs : List (List Char)}

/-! ## One call -/

theorem toList_ne_nil (hold : old ≠ "") : old.toList ≠ [] :=
  fun h => hold (String.toList_eq_nil_iff.mp h)

/-- The new word takes all places. -/
theorem substitute_all (hold : old ≠ "") (h : Splits old.toList t.toList ps) :
    substitute limits [.text t, .text old, .text new] =
      .ofExcept (built limits (new.toList.intercalate ps)) := by
  rw [substitute, strict_eq rfl]
  show Value.ofExcept (if old.toList = [] then _ else
    built limits (new.toList.intercalate (pieces old.toList t.toList))) = _
  rw [if_neg (toList_ne_nil hold), (splits_pieces (toList_ne_nil hold) _).unique h]

theorem substitute_eq (hold : old ≠ "") (h : Splits old.toList t.toList ps)
    (hv : v.toCount = .ok (k : Int)) (hk : 1 ≤ k) :
    substitute limits [.text t, .text old, .text new, v] =
      if k < ps.length then
        .ofExcept (built limits (joinExcept old.toList new.toList (k - 1) ps))
      else
        .text t := by
  obtain rfl := h.unique (splits_pieces (toList_ne_nil hold) _)
  have hclean : firstError? [.text t, .text old, .text new, v] = none := firstError?_of_toCount hv
  have hlow : ¬(k : Int) < 1 := by omega
  have hpred : ((k : Int) - 1).toNat = k - 1 := by omega
  rw [substitute, strict_eq hclean]
  show Value.ofExcept (if old.toList = [] then _ else v.toCount >>= _) = _
  rw [if_neg (toList_ne_nil hold), hv]
  show Value.ofExcept (if (k : Int) < 1 then _ else
    if (k : Int) < ((pieces old.toList t.toList).length : Int) then
      built limits (joinExcept old.toList new.toList ((k : Int) - 1).toNat _)
    else
      .ok (.text (String.ofList t.toList))) = _
  rw [if_neg hlow, hpred, String.ofList_toList]
  simp only [Int.ofNat_lt]
  split <;> rfl

/-- An argument that is no count is an error. -/
theorem substitute_of_no_count (hold : old ≠ "") {e : CellError} (hclean : firstError? [v] = none)
    (hv : v.toCount = .error e) :
    substitute limits [.text t, .text old, .text new, v] = .error e := by
  have hclean' : firstError? [.text t, .text old, .text new, v] = none := hclean
  rw [substitute, strict_eq hclean']
  show Value.ofExcept (if old.toList = [] then _ else v.toCount >>= _) = _
  rw [if_neg (toList_ne_nil hold), hv]
  rfl

/-- The word keeps its other places. -/
theorem substitute_place (hold : old ≠ "") (h : Splits old.toList t.toList (ps ++ qs))
    (hqs : qs ≠ []) (hv : v.toCount = .ok (ps.length : Int)) (hps : ps ≠ []) :
    substitute limits [.text t, .text old, .text new, v] =
      .ofExcept (built limits
        (old.toList.intercalate ps ++ new.toList ++ old.toList.intercalate qs)) := by
  have hpos := List.length_pos_iff.mpr hps
  have hlt : ps.length < (ps ++ qs).length := by
    rw [List.length_append]
    exact Nat.lt_add_of_pos_right (List.length_pos_iff.mpr hqs)
  rw [substitute_eq hold h hv hpos, if_pos hlt,
    joinExcept_append _ (Nat.sub_add_cancel hpos).symm hqs]

/-! ## All calls in turn -/

/-- Replaces the places of a word one at a time, from the one with number `k` down to the first.
`count` gives the arguments that stand for the numbers. -/
def substituteDown (limits : Limits) (old new : String) (count : Nat → Value) :
    (k : Nat) → Value → Value
  | 0, u => u
  | k + 1, u => substituteDown limits old new count k
      (substitute limits [u, .text old, .text new, count (k + 1)])

/-- The text that is reached when only the places between `ps` still have the old word. -/
def stage (old new : String) (ps qs : List (List Char)) : List Char :=
  old.toList.intercalate (ps ++ [new.toList.intercalate qs])

/-- One more place: the piece before it goes over to the others. -/
theorem substitute_stage (hold : old ≠ "") {p : List Char}
    (hps : ∀ q ∈ ps ++ [p], IsFirst old.toList q []) (hqs : qs ≠ [])
    (hv : v.toCount = .ok ((ps ++ [p]).length : Int))
    (hfits : (stage old new ps (p :: qs)).length ≤ limits.maxTextLength) :
    substitute limits
        [.text (String.ofList (stage old new (ps ++ [p]) qs)), .text old, .text new, v] =
      .text (String.ofList (stage old new ps (p :: qs))) := by
  have hword := toList_ne_nil hold
  have hsplit := (splits_pieces hword (new.toList.intercalate qs)).append hps
  have hnext : old.toList.intercalate (ps ++ [p]) ++ new.toList ++ new.toList.intercalate qs =
      stage old new ps (p :: qs) := by
    rw [stage, List.intercalate_cons_of_ne_nil hqs, List.append_assoc, intercalate_concat_append,
      ← List.append_assoc]
  rw [← String.toList_ofList (l := old.toList.intercalate _)] at hsplit
  rw [stage, substitute_place hold hsplit (splits_ne_nil (splits_pieces hword _)) hv
    (List.append_ne_nil_of_right_ne_nil _ (List.cons_ne_nil _ _)),
    (splits_pieces hword _).intercalate, hnext, ofExcept_built hfits]

theorem substituteDown_stage (hold : old ≠ "") {count : Nat → Value}
    (hps : ∀ q ∈ ps, IsFirst old.toList q []) (hqs : qs ≠ [])
    (hcount : ∀ k, 1 ≤ k → k ≤ ps.length → (count k).toCount = .ok (k : Int))
    (hold' : (old.toList.intercalate (ps ++ qs)).length ≤ limits.maxTextLength)
    (hnew : (new.toList.intercalate (ps ++ qs)).length ≤ limits.maxTextLength) :
    substituteDown limits old new count ps.length
        (.text (String.ofList (stage old new ps qs))) =
      .text (String.ofList (new.toList.intercalate (ps ++ qs))) := by
  -- the last of the pieces with the old word behind them goes over to `qs`; together they stay
  induction ps using List.reverseRecOn generalizing qs with
  | nil =>
    show Value.text (String.ofList (stage old new [] qs)) = _
    rw [stage, List.nil_append, List.intercalate_singleton, List.nil_append]
  | append_singleton ps p ih =>
    rw [List.append_assoc, List.singleton_append] at hold' hnew ⊢
    have hlength : (ps ++ [p]).length = ps.length + 1 := List.length_append
    have hfits := length_stage_le (List.cons_ne_nil p qs) hold' hnew
    have hv := hcount (ps.length + 1) (Nat.le_add_left 1 _) hlength.ge
    rw [hlength, substituteDown, substitute_stage hold hps hqs (hlength ▸ hv) hfits]
    exact ih (fun q hq => hps q (List.mem_append_left _ hq)) (List.cons_ne_nil _ _)
      (fun k hk hle => hcount k hk (hle.trans (hlength ▸ Nat.le_succ _))) hold' hnew

/-! ## Splittings of a text -/

/-- The text with the pieces `ps` after the word in the place with number `k` was replaced. Without
such a place it is what it was. -/
def replacedAt (word new : List Char) (ps : List (List Char)) (k : Nat) : List Char :=
  if k < ps.length then
    word.intercalate (ps.take k) ++ new ++ word.intercalate (ps.drop k)
  else
    word.intercalate ps

section

variable (hold : old ≠ "") (h : Splits old.toList t.toList ps)
  (ht : t.length ≤ limits.maxTextLength)
  (hnew : (new.toList.intercalate ps).length ≤ limits.maxTextLength)
include hold h ht hnew

theorem substitute_replacedAt (hv : v.toCount = .ok (k : Int)) (hk : 1 ≤ k) :
    substitute limits [.text t, .text old, .text new, v] =
      .text (String.ofList (replacedAt old.toList new.toList ps k)) := by
  unfold replacedAt
  split
  · next hlt =>
    have hlength : (ps.take k).length = k := List.length_take_of_le hlt.le
    have hfront : ps.take k ≠ [] := List.ne_nil_of_length_pos (hlength.symm ▸ hk)
    have hback : ps.drop k ≠ [] := List.ne_nil_of_length_pos (by
      rw [List.length_drop]
      omega)
    rw [← List.take_append_drop k ps] at h hnew
    have hold' := h.intercalate ▸ String.length_toList.trans_le ht
    rw [substitute_place hold h hback (hlength.symm ▸ hv) hfront,
      ofExcept_built (length_place_le hfront hback hold' hnew)]
  · next hge =>
    rw [substitute_eq hold h hv hk, if_neg hge, h.intercalate, String.ofList_toList]

theorem substituteDown_eq {count : Nat → Value}
    (hcount : ∀ k, 1 ≤ k → k < ps.length → (count k).toCount = .ok (k : Int)) :
    substituteDown limits old new count (ps.length - 1) (.text t) =
      .text (String.ofList (new.toList.intercalate ps)) := by
  obtain ⟨qs, p, rfl⟩ := (List.eq_nil_or_concat' ps).resolve_left (splits_ne_nil h)
  have hlength : (qs ++ [p]).length = qs.length + 1 := List.length_append
  have hold' := h.intercalate ▸ String.length_toList.trans_le ht
  have hstart : stage old new qs [p] = t.toList := by
    rw [stage, List.intercalate_singleton, h.intercalate]
  have hrun := substituteDown_stage hold h.isFirst (List.cons_ne_nil p [])
    (fun k hk hle => hcount k hk (hlength ▸ Nat.lt_succ_of_le hle)) hold' hnew
  rw [hstart, String.ofList_toList] at hrun
  rwa [hlength, Nat.add_sub_cancel]

end

/-- An integer counts as the place that it names, or as one that is not there if it names none, as
long as it is not greater than `2 ^ 53` or there are fewer places than that. -/
theorem toCount_place (hk : 1 ≤ k) (hk' : k < 2 ^ 63) (h : k ≤ 2 ^ 53 ∨ ps.length ≤ 2 ^ 53) :
    ∃ c : Nat, (whole k).toCount = .ok (c : Int) ∧ 1 ≤ c ∧
      ∀ word new, replacedAt word new ps c = replacedAt word new ps k := by
  obtain ⟨c, hc, hcount⟩ := exists_count hk'
  refine ⟨c, hc, hcount.pos hk, fun word new => ?_⟩
  rcases le_or_gt k (2 ^ 53) with hsmall | hlarge
  · rw [hcount.eq_of_le hsmall]
  · have hplaces : ps.length ≤ 2 ^ 53 := h.resolve_left hlarge.not_ge
    have hc' : 2 ^ 53 ≤ c := hcount.le_of_le hlarge.le
    rw [replacedAt, replacedAt, if_neg (hplaces.trans hc').not_gt,
      if_neg (hplaces.trans hlarge.le).not_gt]

/-! ## Texts of one letter -/

section

variable {c d : Char} {n : Nat}

theorem splits_replicate (c : Char) (n : Nat) :
    Splits [c] (List.replicate n c) (List.replicate (n + 1) []) := by
  induction n with
  | zero => exact .last fun h => List.cons_ne_nil _ _ (List.infix_nil.mp h)
  | succ n ih => exact .next isFirst_nil ih

/-- With another letter in one place the ones before and behind it stay. -/
theorem replacedAt_replicate (hk : 1 ≤ k) (hkn : k ≤ n) :
    replacedAt [c] [d] (List.replicate (n + 1) []) k =
      List.replicate (k - 1) c ++ [d] ++ List.replicate (n - k) c := by
  have htake : (List.replicate (n + 1) ([] : List Char)).take k =
      List.replicate (k - 1 + 1) [] := by
    rw [List.take_replicate, Nat.min_eq_left (hkn.trans (Nat.le_succ n)), Nat.sub_add_cancel hk]
  have hdrop : (List.replicate (n + 1) ([] : List Char)).drop k =
      List.replicate (n - k + 1) [] := by
    rw [List.drop_replicate, Nat.succ_sub hkn]
  rw [replacedAt, if_pos (List.length_replicate.symm ▸ Nat.lt_succ_of_le hkn), htake, hdrop,
    (splits_replicate c _).intercalate, (splits_replicate c _).intercalate]

/-- Two places of which one is the last can be told apart. -/
theorem replacedAt_ne_last (hcd : c ≠ d) (hk : 1 ≤ k) (hkn : k < n) :
    replacedAt [c] [d] (List.replicate (n + 1) []) k ≠
      replacedAt [c] [d] (List.replicate (n + 1) []) n := by
  intro h
  obtain ⟨r, hr⟩ : ∃ r, n - k = r + 1 := ⟨n - k - 1, by omega⟩
  rw [replacedAt_replicate hk hkn.le, replacedAt_replicate (hk.trans hkn.le) le_rfl, hr,
    Nat.sub_self, List.replicate_succ', ← List.append_assoc, List.replicate_zero,
    List.append_nil] at h
  have hlast := congrArg List.getLast? h
  rw [List.getLast?_concat, List.getLast?_concat] at hlast
  exact hcd (Option.some.inj hlast)

end

end Builtin

/-! ## Main theorem -/

open Builtin in
/-- An integer of more than 53 binary digits need not be read as itself. In a text of `2 ^ 53 + 1`
letters the last one is to be replaced, but the number of its place is read as that of the letter
before it. A number that is too large for an integer names no place and is an error. -/
theorem place_is_read_as_double :
    (¬∀ (limits : Limits) (t old new : String) (ps : List (List Char)) (k : Int64), old ≠ "" →
      Splits old.toList t.toList ps → t.length ≤ limits.maxTextLength →
      (new.toList.intercalate ps).length ≤ limits.maxTextLength → 1 ≤ k.toInt →
      substitute limits [.text t, .text old, .text new, .int k] =
        .text (String.ofList (replacedAt old.toList new.toList ps k.toInt.toNat))) ∧
    substitute {} [.text "a-b", .text "-", .text "+", .float 1e19] = .error .value := by
  refine ⟨fun h => ?_, substitute_of_no_count (by decide) rfl (by decide +kernel)⟩
  obtain ⟨n, hn⟩ : ∃ n, n = 9007199254740993 := ⟨_, rfl⟩
  have hcount : (Value.int 9007199254740993).toCount = .ok ((9007199254740992 : Nat) : Int) := by
    rw [toCount_int]
    decide +kernel
  have hnumber : (9007199254740993 : Int64).toInt.toNat = n := hn ▸ by decide
  have hsplits : Splits "a".toList (String.ofList (List.replicate n 'a')).toList
      (List.replicate (n + 1) []) := by
    rw [String.toList_ofList (l := List.replicate n 'a')]
    exact splits_replicate 'a' n
  have ht : (String.ofList (List.replicate n 'a')).length ≤ n := by
    rw [String.length_ofList, List.length_replicate]
  have hnew : ("b".toList.intercalate (List.replicate (n + 1) [])).length ≤ n := by
    show (['b'].intercalate (List.replicate (n + 1) [])).length ≤ n
    rw [(splits_replicate 'b' n).intercalate, List.length_replicate]
  have hclaimed := h { maxTextLength := n } _ "a" "b" _ 9007199254740993 (by decide) hsplits ht hnew
    (by decide)
  rw [substitute_replacedAt (by decide) hsplits ht hnew hcount (by decide), hnumber] at hclaimed
  refine replacedAt_ne_last (by decide : 'a' ≠ 'b') (by decide) (by omega)
    (String.ofList_injective (Value.text.inj hclaimed))

open Builtin in
/-- A text has exactly one splitting at the first occurrences of a word, one behind the other. If
the limit allows for the text and for the text with all occurrences replaced, `SUBSTITUTE` without a
number gives the latter; with a number it replaces the occurrence with this number, or nothing if
there is none; and to replace the occurrences one at a time, from the last to the first, gives the
same as all at once. The number may be any argument that is read as it. It may be an integer up to
`2 ^ 53`, or any positive integer if there are fewer occurrences than that. An argument that is no
count gives the error that it is read as. Where the bytes of the word occur among those of the text,
they begin and end between two characters. -/
theorem substitutions_agree (limits : Limits) (t new : String) {old : String} (hold : old ≠ "") :
    ∃ ps, (∀ qs, Splits old.toList t.toList qs ↔ qs = ps) ∧
      old.toList.intercalate ps = t.toList ∧ ps.length ≤ t.length + 1 ∧
      (t.length ≤ limits.maxTextLength →
        (new.toList.intercalate ps).length ≤ limits.maxTextLength →
        substitute limits [.text t, .text old, .text new] =
          .text (String.ofList (new.toList.intercalate ps)) ∧
        (∀ (v : Value) (k : Nat), v.toCount = .ok (k : Int) → 1 ≤ k →
          substitute limits [.text t, .text old, .text new, v] =
            .text (String.ofList (replacedAt old.toList new.toList ps k))) ∧
        (∀ count : Nat → Value,
          (∀ k, 1 ≤ k → k < ps.length → (count k).toCount = .ok (k : Int)) →
          substituteDown limits old new count (ps.length - 1) (.text t) =
            .text (String.ofList (new.toList.intercalate ps))) ∧
        (∀ k, 1 ≤ k → k < 2 ^ 63 → k ≤ 2 ^ 53 ∨ ps.length - 1 < 2 ^ 53 →
          substitute limits [.text t, .text old, .text new, whole k] =
            .text (String.ofList (replacedAt old.toList new.toList ps k))) ∧
        (ps.length - 1 ≤ 2 ^ 53 →
          substituteDown limits old new whole (ps.length - 1) (.text t) =
            .text (String.ofList (new.toList.intercalate ps)))) ∧
      (∀ (v : Value) (e : CellError), firstError? [v] = none → v.toCount = .error e →
        substitute limits [.text t, .text old, .text new, v] = .error e) ∧
      ∀ a b : ByteArray, t.toByteArray = a ++ old.toByteArray ++ b →
        ∃ front back : String, front.toByteArray = a ∧ back.toByteArray = b := by
  have h := splits_pieces (toList_ne_nil hold) t.toList
  have hpos : 0 < (pieces old.toList t.toList).length := List.length_pos_iff.mpr (splits_ne_nil h)
  have hlength := length_le_length_intercalate (toList_ne_nil hold) (pieces old.toList t.toList)
  rw [h.intercalate, String.length_toList] at hlength
  refine ⟨pieces old.toList t.toList, fun qs => ⟨fun hqs => hqs.unique h, fun hqs => hqs ▸ h⟩,
    h.intercalate, hlength, fun ht hnew => ⟨?_, fun v k hv hk => ?_, fun count hcount => ?_,
      fun k hk hk' hexact => ?_, fun hplaces => ?_⟩, fun v e => substitute_of_no_count hold,
    fun a b => exists_toByteArray hold⟩
  · rw [substitute_all hold h, ofExcept_built hnew]
  · exact substitute_replacedAt hold h ht hnew hv hk
  · exact substituteDown_eq hold h ht hnew hcount
  · obtain ⟨c, hc, hcpos, hsame⟩ := toCount_place hk hk' (hexact.imp_right Nat.le_of_pred_lt)
    rw [← hsame]
    exact substitute_replacedAt hold h ht hnew hc hcpos
  · refine substituteDown_eq hold h ht hnew fun k hk hlt => ?_
    obtain ⟨c, hc, hcount⟩ := exists_count (by omega : k < 2 ^ 63)
    rw [hc, hcount.eq_of_le (by omega)]

open Builtin in
/-- In five letters the pair of them occurs twice, and what is put in its place makes new pairs. -/
theorem substitutions_agree_overlapping :
    "aa" ≠ "" ∧ substitute {} [.text "aaaaa", .text "aa", .text "ba"] = .text "babaa" ∧
      substitute {} [.text "aaaaa", .text "aa", .text "ba", whole 2] = .text "aabaa" ∧
      substitute {} [.text "aaaaa", .text "aa", .text "ba", whole 3] = .text "aaaaa" ∧
      substituteDown {} "aa" "ba" whole 2 (.text "aaaaa") = .text "babaa" := by
  have hold : "aa" ≠ "" := by decide
  obtain ⟨ps, hps, -, -, hcalls, -⟩ := substitutions_agree {} "aaaaa" "ba" hold
  obtain rfl := (hps _).mp (splits_pieces (List.cons_ne_nil _ _) "aaaaa".toList)
  obtain ⟨hall, -, -, hplace, hdown⟩ := hcalls (by decide) (by decide)
  exact ⟨hold, hall, hplace 2 (by decide) (by decide) (.inl (by decide)),
    hplace 3 (by decide) (by decide) (.inl (by decide)), hdown (by decide)⟩

end Spreadsheet
