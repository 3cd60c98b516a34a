import Spreadsheet.Proofs.Sound

/-!
# Valid sessions

What is true of a session at all times, and what a call that returns has left as it found it. The
invariant is carried through the recursion with the room behind the way: the cells on the way and
the cells that may still be entered make up the limit on depth.

Results:
1. `Session.Valid.enter`, `Session.Valid.leave`: entering and leaving a cell keep a session valid;
2. `Cell.value_keeps`: reading a cell keeps a session valid and leaves the way as it was;
3. `Session.evaluate_keeps`, `Session.cellValue_keeps`, `Session.resolveRange_keeps`: so do the
   calls from outside.
-/

namespace Spreadsheet

open Formula

variable {w : Setting} {a b : Address} {s s' s'' : Session}

/-! ## What may be remembered -/

/-- No list, not nothing, and not the error of a limit. -/
def Value.IsKept : Value → Prop
  | .array _ | .empty | .error .depth | .error .calc => False
  | _ => True

/-- The value of a finished formula may be remembered, unless it tells of the way. -/
theorem isKept_finalize : ∀ {v : Value}, Session.Lasting (finalize v) → (finalize v).IsKept
  | .array [], _ => trivial
  | .array [v], h => by
    rw [finalize_singleton] at h ⊢
    exact isKept_finalize h
  | .array (_ :: _ :: _), _ => trivial
  | .error .depth, h => absurd (h .depth rfl) (by decide)
  | .error .calc, h => absurd (h .calc rfl) (by decide)
  | .error .value, _ | .error .divZero, _ | .error .num, _ | .error .ref, _ | .error .cycle, _
  | .error (.malformed _), _ => trivial
  | .empty, _ | .bool _, _ | .int _, _ | .float _, _ | .text _, _ => trivial

theorem Cell.formulaValue_isKept (read : Address → Eval Value) (source : String) (s : Session)
    (h : Session.Lasting (Cell.formulaValue w read source s).1) :
    (Cell.formulaValue w read source s).1.IsKept := by
  cases he : Expr.ofText w.limits.maxNesting source with
  | error x =>
    rw [Cell.formulaValue_of_error he]
    exact trivial
  | ok e =>
    rw [Cell.formulaValue_of_ok he] at h ⊢
    exact isKept_finalize h

namespace Session

/-! ## Valid sessions -/

/-- What is true of a session whenever a call starts or returns. -/
structure Valid (w : Setting) (s : Session) : Prop where
  nodup : s.visiting.Nodup
  /-- The number of cells on the way is counted. -/
  depth : s.visiting.length = s.depth
  depth_le : s.depth ≤ w.limits.maxDepth
  evaluations_le : s.evaluations ≤ w.limits.maxEvaluations
  /-- A cell on the way is not remembered. -/
  separate : ∀ a ∈ s.visiting, s.memo[a]? = none
  isFormula : ∀ (a : Address) (v : Value), s.memo[a]? = some v → w.IsFormula a
  isKept : ∀ (a : Address) (v : Value), s.memo[a]? = some v → v.IsKept
  /-- Every cell that is remembered or on the way was entered. -/
  entries : s.memo.size + s.depth ≤ s.evaluations

/-- What a call leaves as it was: the way, and everything that is remembered. -/
structure Restored (s s' : Session) : Prop where
  depth : s'.depth = s.depth
  visiting : s'.visiting = s.visiting
  evaluations : s.evaluations ≤ s'.evaluations
  memo : ∀ (a : Address) (v : Value), s.memo[a]? = some v → s'.memo[a]? = some v

theorem Restored.refl (s : Session) : s.Restored s :=
  ⟨rfl, rfl, Nat.le_refl _, fun _ _ => id⟩

theorem Restored.trans (h : s.Restored s') (h' : s'.Restored s'') : s.Restored s'' where
  depth := h'.depth.trans h.depth
  visiting := h'.visiting.trans h.visiting
  evaluations := Nat.le_trans h.evaluations h'.evaluations
  memo a v hv := h'.memo a v (h.memo a v hv)

theorem Restored.room_eq (h : s.Restored s') (w : Setting) : s'.room w = s.room w :=
  congrArg (w.limits.maxDepth - ·) h.depth

theorem Restored.looked (s : Session) : s.Restored (s.looked a) :=
  ⟨rfl, rfl, Nat.le_refl _, fun _ _ => id⟩

theorem Valid.looked (h : s.Valid w) : (s.looked a).Valid w :=
  ⟨h.nodup, h.depth, h.depth_le, h.evaluations_le, h.separate, h.isFormula, h.isKept, h.entries⟩

theorem valid_reset (w : Setting) (s : Session) : s.reset.Valid w where
  nodup := List.nodup_nil
  depth := rfl
  depth_le := Nat.zero_le _
  evaluations_le := Nat.zero_le _
  separate := nofun
  isFormula a v h := by simp [reset] at h
  isKept a v h := by simp [reset] at h
  entries := Nat.le_refl 0

/-- A cell that passes all guards goes on the way. -/
theorem Valid.enter (h : s.Valid w) (hm : s.memo[a]? = none) (hv : a ∉ s.visiting)
    (hd : s.depth < w.limits.maxDepth) (hb : s.evaluations < w.limits.maxEvaluations) :
    (s.enter a).Valid w where
  nodup := List.nodup_cons.mpr ⟨hv, h.nodup⟩
  depth := congrArg (· + 1) h.depth
  depth_le := hd
  evaluations_le := hb
  separate b hb := by
    rcases List.mem_cons.mp hb with rfl | hb
    · exact hm
    · exact h.separate b hb
  isFormula := h.isFormula
  isKept := h.isKept
  entries := Nat.succ_le_succ h.entries

/-- The last cell on the way leaves it and is remembered. -/
theorem Valid.leave {v : Value} {way : List Address} (h : s.Valid w) (hway : s.visiting = a :: way)
    (ha : w.IsFormula a) (hkept : Lasting v → v.IsKept) :
    ((s.leave a).remember a v).Valid w := by
  have hvisit : (s.leave a).visiting = way := by
    rw [leave_visiting, hway, List.erase_cons_head]
  have hnodup : a ∉ way ∧ way.Nodup := List.nodup_cons.mp (hway ▸ h.nodup)
  have hdepth : s.depth = way.length + 1 := by
    rw [← h.depth, hway, List.length_cons]
  constructor
  · rw [remember_visiting, hvisit]
    exact hnodup.2
  · rw [remember_visiting, remember_depth, hvisit, leave_depth, hdepth]
    rfl
  · rw [remember_depth, leave_depth]
    exact Nat.le_trans (Nat.sub_le _ _) h.depth_le
  · rw [remember_evaluations]
    exact h.evaluations_le
  · intro b hb
    rw [remember_visiting, hvisit] at hb
    have hne : b ≠ a := by
      rintro rfl
      exact hnodup.1 hb
    rw [getElem?_remember_of_ne hne]
    exact h.separate b (hway ▸ List.mem_cons_of_mem a hb)
  · intro b u hu
    rcases getElem?_remember hu with hu | ⟨rfl, -, -⟩
    · exact h.isFormula b u hu
    · exact ha
  · intro b u hu
    rcases getElem?_remember hu with hu | ⟨-, rfl, hlast⟩
    · exact h.isKept b u hu
    · exact hkept hlast
  · -- the cell that leaves makes room for what is remembered of it
    have hsize : ((s.leave a).remember a v).memo.size ≤ s.memo.size + 1 := size_remember_le
    have hentries := h.entries
    rw [remember_depth, remember_evaluations, leave_depth, leave_evaluations]
    omega

/-- What was remembered before a cell was entered still is when it has left. -/
theorem Restored.leave {v : Value} (h : (s.enter a).Restored s') (hm : s.memo[a]? = none) :
    s.Restored ((s'.leave a).remember a v) where
  depth := by
    rw [remember_depth, leave_depth, h.depth, enter_depth]
    rfl
  visiting := by
    rw [remember_visiting, leave_visiting, h.visiting, enter_visiting, List.erase_cons_head]
  evaluations := by
    rw [remember_evaluations, leave_evaluations]
    exact Nat.le_of_succ_le h.evaluations
  memo b u hu := by
    have hne : b ≠ a := by
      rintro rfl
      exact nomatch hm.symm.trans hu
    rw [getElem?_remember_of_ne hne]
    exact h.memo b u hu

end Session

/-! ## Reading cells -/

/-- The session goes on from the one at the start: it is valid, the way and everything that was
remembered are as they were, and there is so much room behind the way. -/
structure Session.Continues (w : Setting) (room : Nat) (start s : Session) : Prop where
  valid : s.Valid w
  restored : start.Restored s
  depth_add_room : s.depth + room = w.limits.maxDepth

theorem Session.Valid.continues (h : s.Valid w) {room : Nat}
    (hroom : s.depth + room = w.limits.maxDepth) : Continues w room s s :=
  ⟨h, .refl s, hroom⟩

theorem Session.Continues.step {room : Nat} {start : Session} (h : Continues w room start s)
    (hvalid : s'.Valid w) (hrestored : s.Restored s') : Continues w room start s' :=
  ⟨hvalid, h.restored.trans hrestored, hrestored.depth ▸ h.depth_add_room⟩

/-- With so much room behind the way, the computation keeps the session valid and leaves the way and
everything that is remembered as it was. -/
def Keeps (w : Setting) (room : Nat) (x : Eval Value) : Prop :=
  ∀ start, Ensures (Session.Continues w room start) x fun _ => True

namespace Cell

/-- At a formula cell, with one cell less to enter behind it. -/
theorem guarded_keeps {room : Nat} {deeper : Option (Address → Eval Value)} {source : String}
    (hg : w.grid a = some (.formula source))
    (h : ∀ read, deeper = some read → ∃ n, room = n + 1 ∧ ∀ c, Keeps w n (read c)) :
    Keeps w room (guarded w deeper a source) := by
  intro start s hs
  refine ⟨?_, trivial⟩
  rcases guarded_session w deeper a source s with hsame | ⟨read, hd, hm, hv, hb, hcomputed⟩
  · rw [hsame]
    exact hs
  · obtain ⟨n, rfl, hread⟩ := h read hd
    have hdepth : s.depth + (n + 1) = w.limits.maxDepth := hs.depth_add_room
    have henter : (s.enter a).Valid w := hs.valid.enter hm hv (by omega) hb
    have hroom : (s.enter a).depth + n = w.limits.maxDepth := by
      rw [Session.enter_depth]
      omega
    have hbody := Ensures.formulaValue_of_read (w := w) (fun c => hread c (s.enter a)) source
    obtain ⟨hvalid, hrestored, -⟩ := (hbody _ (henter.continues hroom)).1
    rw [hcomputed, compute_apply]
    exact hs.step
      (hvalid.leave hrestored.visiting ⟨source, hg⟩ (formulaValue_isKept read source _))
      (hrestored.leave hm)

theorem valueWith_keeps {room : Nat} {deeper : Option (Address → Eval Value)} (a : Address)
    (h : ∀ read, deeper = some read → ∃ n, room = n + 1 ∧ ∀ c, Keeps w n (read c)) :
    Keeps w room (valueWith w deeper a) := by
  intro start s hs
  have hlooked : Session.Continues w room start (s.looked a) :=
    hs.step hs.valid.looked (.looked s)
  by_cases hform : w.IsFormula a
  · obtain ⟨source, hg⟩ := hform
    rw [valueWith_of_formula hg]
    exact guarded_keeps hg h start (s.looked a) hlooked
  · rw [valueWith_of_not_isFormula hform fun _ => .empty]
    exact ⟨hlooked, trivial⟩

/-- Reading a cell keeps a session valid and leaves the way as it was, by whichever exit. -/
theorem value_keeps (room : Nat) (a : Address) : Keeps w room (Cell.value w room a) := by
  induction room generalizing a with
  | zero => exact valueWith_keeps a nofun
  | succ room ih =>
    refine valueWith_keeps a fun read hread => ?_
    cases hread
    exact ⟨room, rfl, ih⟩

end Cell

/-! ## Calls from outside -/

namespace Session

variable {α : Type} {x : Eval α}

/-- What goes on from a session in all the room that is left, is valid and as it was. -/
theorem Valid.of_ensures (h : s.Valid w)
    (hx : Ensures (Continues w (s.room w) s) x fun _ => True) :
    (x s).2.Valid w ∧ s.Restored (x s).2 := by
  have hroom : s.depth + s.room w = w.limits.maxDepth := Nat.add_sub_cancel' h.depth_le
  obtain ⟨hvalid, hrestored, -⟩ := (hx s (h.continues hroom)).1
  exact ⟨hvalid, hrestored⟩

theorem cellValue_keeps (h : s.Valid w) (a : Address) :
    (cellValue w a s).2.Valid w ∧ s.Restored (cellValue w a s).2 :=
  h.of_ensures (x := Cell.value w (s.room w) a) (Cell.value_keeps (s.room w) a s)

theorem evaluate_keeps (h : s.Valid w) (e : Expr) :
    (evaluate w e s).2.Valid w ∧ s.Restored (evaluate w e s).2 :=
  h.of_ensures (x := e.value w (Cell.value w (s.room w)))
    (Ensures.value_of_read (fun a => Cell.value_keeps (s.room w) a s) e)

theorem resolveRange_keeps (h : s.Valid w) (maxCells : Nat) (a b : Reference) :
    (resolveRange w maxCells a b s).2.Valid w ∧ s.Restored (resolveRange w maxCells a b s).2 :=
  h.of_ensures (x := resolve maxCells (Cell.value w (s.room w)) a b)
    (Ensures.resolve fun c => Cell.value_keeps (s.room w) c s)

end Session

end Spreadsheet
