import Spreadsheet.Json.Basic
import Mathlib.Data.List.Induction
import Mathlib.Data.String.Basic

/-!
# Members in order

A writer of documents chooses the order of the members, a reader leaves them sorted by key. So a
document that was written and read again is the written one up to sorting, at every level, and two
values are the same document when they are the same once sorted.

Results:
1. `lookup_eq_some_iff_mem`, `lookup_perm`: a list with each key once is a map;
2. `ascending_sortMembers`, `sortMembers_perm`: what sorting does to members;
3. `isSorted_object_iff`: which objects are sorted.
-/

namespace Spreadsheet

theorem map_eq_self_iff {α : Type} {f : α → α} {l : List α} :
    l.map f = l ↔ ∀ a ∈ l, f a = a := by
  conv_lhs => rw [← List.map_id l, List.map_map, List.map_inj_left]
  rfl

/-! ## Lists with each key once -/

section Keyed

variable {κ α : Type} [BEq κ] [LawfulBEq κ] {l l' : List (κ × α)} {k : κ} {x : α}

theorem lookup_eq_some_iff_mem (h : (l.map Prod.fst).Nodup) :
    l.lookup k = some x ↔ (k, x) ∈ l := by
  induction l with
  | nil => exact ⟨nofun, nofun⟩
  | cons p l ih =>
    obtain ⟨key, y⟩ := p
    obtain ⟨hp, hl⟩ := List.nodup_cons.mp h
    rw [List.lookup_cons, List.mem_cons, ← ih hl]
    cases hk : k == key with
    | true =>
      obtain rfl := eq_of_beq hk
      -- the rest has no entry for the key
      have hnone : l.lookup k ≠ some x := fun hx =>
        hp (List.mem_map.mpr ⟨_, (ih hl).mp hx, rfl⟩)
      simp [hnone, eq_comm]
    | false => simp [ne_of_beq_false hk]

/-- The order of the entries does not matter to a lookup. -/
theorem lookup_perm (h : (l.map Prod.fst).Nodup) (hl : l.Perm l') :
    l'.lookup k = l.lookup k := by
  have h' : (l'.map Prod.fst).Nodup := (hl.map Prod.fst).nodup_iff.mp h
  ext x
  rw [lookup_eq_some_iff_mem h, lookup_eq_some_iff_mem h', hl.mem_iff]

end Keyed

namespace Json

variable {ms ms' : List (String × Json)} {key : String} {j : Json}

/-! ## Sorted members -/

/-- The keys grow, so each stands once. -/
def Ascending (ms : List (String × Json)) : Prop :=
  ms.Pairwise (·.1 < ·.1)

theorem Ascending.nodup (h : Ascending ms) : (ms.map Prod.fst).Nodup := by
  rw [List.Nodup, List.pairwise_map]
  exact h.imp fun hlt => hlt.ne

/-- There is one order only in which keys grow. -/
theorem Ascending.eq_of_perm (h : Ascending ms) (h' : Ascending ms') (hp : ms.Perm ms') :
    ms = ms' :=
  List.Perm.eq_of_pairwise
    (fun _ _ _ _ hlt hgt => absurd hgt hlt.asymm) h h' hp

theorem ascending_map_iff {f : Json → Json} :
    Ascending (ms.map (Prod.map id f)) ↔ Ascending ms := by
  simp [Ascending, List.pairwise_map]

theorem Ascending.filter (h : Ascending ms) (p : String × Json → Bool) :
    Ascending (ms.filter p) :=
  List.Pairwise.filter p h

theorem mem_insertMember {p : String × Json} (h : p ∈ insertMember key j ms) :
    p = (key, j) ∨ p ∈ ms := by
  induction ms with
  | nil => exact .inl (List.mem_singleton.mp h)
  | cons q ms ih =>
    rw [insertMember] at h
    split at h
    · exact List.mem_cons.mp h
    · split at h
      · exact (List.mem_cons.mp h).imp_right (List.mem_cons_of_mem q)
      · rcases List.mem_cons.mp h with rfl | h
        · exact .inr List.mem_cons_self
        · exact (ih h).imp_right (List.mem_cons_of_mem q)

theorem Ascending.insertMember (h : Ascending ms) (key : String) (j : Json) :
    Ascending (insertMember key j ms) := by
  induction ms with
  | nil => exact List.pairwise_singleton _ _
  | cons q ms ih =>
    obtain ⟨hq, hms⟩ := List.pairwise_cons.mp h
    rw [Json.insertMember]
    split
    · next hlt =>
      refine List.pairwise_cons.mpr ⟨fun p hp => ?_, h⟩
      rcases List.mem_cons.mp hp with rfl | hp
      · exact hlt
      · exact hlt.trans (hq p hp)
    · split
      · next heq => exact List.pairwise_cons.mpr ⟨fun p hp => heq ▸ hq p hp, hms⟩
      · next hlt hne =>
        refine List.pairwise_cons.mpr ⟨fun p hp => ?_, ih hms⟩
        rcases mem_insertMember hp with rfl | hp
        · exact lt_of_le_of_ne (not_lt.mp hlt) (Ne.symm hne)
        · exact hq p hp

theorem insertMember_perm (h : key ∉ ms.map Prod.fst) :
    (insertMember key j ms).Perm ((key, j) :: ms) := by
  induction ms with
  | nil => exact .refl _
  | cons q ms ih =>
    rw [List.map_cons, List.mem_cons, not_or] at h
    rw [insertMember]
    split
    · exact .refl _
    · split
      · next heq => exact absurd heq h.1
      · exact ((ih h.2).cons q).trans (.swap _ _ _)

theorem insertMember_map (f : Json → Json) :
    insertMember key (f j) (ms.map (Prod.map id f)) =
      (insertMember key j ms).map (Prod.map id f) := by
  induction ms with
  | nil => rfl
  | cons q ms ih =>
    simp only [List.map_cons, insertMember, Prod.map_fst, id_eq]
    split
    · rfl
    · split
      · rfl
      · exact congrArg _ ih

theorem sortMembers_concat (ms : List (String × Json)) (m : String × Json) :
    sortMembers (ms ++ [m]) = insertMember m.1 m.2 (sortMembers ms) := by
  simp [sortMembers]

theorem ascending_sortMembers (ms : List (String × Json)) : Ascending (sortMembers ms) := by
  -- members are entered from the left, so the last one is taken off
  induction ms using List.reverseRecOn with
  | nil => exact .nil
  | append_singleton ms m ih =>
    rw [sortMembers_concat]
    exact ih.insertMember m.1 m.2

/-- Where each key stands once, sorting keeps all members. -/
theorem sortMembers_perm (h : (ms.map Prod.fst).Nodup) : (sortMembers ms).Perm ms := by
  induction ms using List.reverseRecOn with
  | nil => exact .refl _
  | append_singleton ms m ih =>
    rw [List.map_append, List.nodup_append] at h
    have hms := ih h.1
    have hm : m.1 ∉ (sortMembers ms).map Prod.fst := fun hmem =>
      h.2.2 m.1 ((hms.map Prod.fst).mem_iff.mp hmem) m.1 (by simp) rfl
    rw [sortMembers_concat]
    exact ((insertMember_perm hm).trans (hms.cons m)).trans
      (List.perm_append_singleton m ms).symm

theorem sortMembers_map (f : Json → Json) (ms : List (String × Json)) :
    sortMembers (ms.map (Prod.map id f)) = (sortMembers ms).map (Prod.map id f) := by
  induction ms using List.reverseRecOn with
  | nil => rfl
  | append_singleton ms m ih =>
    rw [List.map_append, List.map_singleton, sortMembers_concat, sortMembers_concat, ih]
    exact insertMember_map f

/-- Sorted members stay as they are. -/
theorem Ascending.sortMembers_eq (h : Ascending ms) : sortMembers ms = ms :=
  (ascending_sortMembers ms).eq_of_perm h (sortMembers_perm h.nodup)

theorem lookup_sortMembers (h : (ms.map Prod.fst).Nodup) :
    (sortMembers ms).lookup key = ms.lookup key :=
  lookup_perm h (sortMembers_perm h).symm

/-! ## Sorted values -/

mutual

/-- The value as a reader leaves it, with the members of every object sorted. -/
def sorted : Json → Json
  | .null => .null
  | .bool b => .bool b
  | .int n => .int n
  | .float x => .float x
  | .text s => .text s
  | .array items => .array (sortedItems items)
  | .object ms => .object (sortMembers (sortedMembers ms))

def sortedItems : List Json → List Json
  | [] => []
  | j :: js => j.sorted :: sortedItems js

def sortedMembers : List (String × Json) → List (String × Json)
  | [] => []
  | (key, j) :: ms => (key, j.sorted) :: sortedMembers ms

end

/-- A value in which there is nothing left to sort. -/
def IsSorted (j : Json) : Prop :=
  j.sorted = j

theorem sortedItems_eq_map (items : List Json) : sortedItems items = items.map sorted := by
  induction items with
  | nil => rfl
  | cons j js ih => rw [sortedItems, ih, List.map_cons]

theorem sortedMembers_eq_map (ms : List (String × Json)) :
    sortedMembers ms = ms.map (Prod.map id sorted) := by
  induction ms with
  | nil => rfl
  | cons m ms ih => rw [sortedMembers, ih, List.map_cons, Prod.map_apply, id_eq]

theorem sorted_array (items : List Json) :
    (array items).sorted = .array (items.map sorted) := by
  rw [sorted, sortedItems_eq_map]

theorem sorted_object (ms : List (String × Json)) :
    (object ms).sorted = .object ((sortMembers ms).map (Prod.map id sorted)) := by
  rw [sorted, sortedMembers_eq_map, sortMembers_map]

theorem isSorted_array_iff {items : List Json} :
    (array items).IsSorted ↔ ∀ j ∈ items, j.IsSorted := by
  rw [IsSorted, sorted_array, array.injEq, map_eq_self_iff]
  exact Iff.rfl

/-- An object is sorted when its members and their values are. -/
theorem isSorted_object_iff :
    (object ms).IsSorted ↔ Ascending ms ∧ ∀ m ∈ ms, m.2.IsSorted := by
  have hvalues : ms.map (Prod.map id sorted) = ms ↔ ∀ m ∈ ms, m.2.IsSorted := by
    rw [map_eq_self_iff]
    exact forall₂_congr fun m _ => by rw [IsSorted, Prod.ext_iff, Prod.map_fst, Prod.map_snd,
      id_eq, eq_self, true_and]
  rw [IsSorted, sorted_object, object.injEq]
  constructor
  · intro h
    -- what comes out of sorting is ascending, and then sorting leaves it alone
    have hms : Ascending ms := h ▸ ascending_map_iff.mpr (ascending_sortMembers ms)
    rw [hms.sortMembers_eq] at h
    exact ⟨hms, hvalues.mp h⟩
  · rintro ⟨hms, hsorted⟩
    rw [hms.sortMembers_eq]
    exact hvalues.mpr hsorted

theorem mem_sortMembers {m : String × Json} (h : m ∈ sortMembers ms) : m ∈ ms := by
  induction ms using List.reverseRecOn with
  | nil => exact h
  | append_singleton ms m' ih =>
    rw [sortMembers_concat] at h
    rcases mem_insertMember h with rfl | h
    · exact List.mem_append_right ms List.mem_cons_self
    · exact List.mem_append_left [m'] (ih h)

end Json

end Spreadsheet
