import Spreadsheet.Proofs.Masking
import Spreadsheet.Proofs.Reading

/-!
# Sound sessions

A session is sound when everything it remembers is either decided, or a cycle's error at a cell
from which a cycle can be reached. Reading a cell keeps a session sound, and what is read is
decided or a stray error: an error of one of the two limits, or of a cycle that can be reached.

The induction is on the room that is left on the way. It carries along that every cell on the way
leads to the cell that is read, so that a cell that meets itself is indeed on a cycle.

Results:
1. `Ensures.value_of_read`, `Ensures.value`: an expression keeps what its cells keep, and is worth
   what they give, up to stray errors;
2. `Cell.value_ensures`: reading a cell is sound, with any room and any way behind it;
3. `Session.cellValue_ensures`, `Session.evaluate_ensures`, `Session.resolveRange_ensures`: so are
   the questions asked from outside.
-/

namespace Spreadsheet

open Formula

/-! ## Computations that keep a property of the session -/

/-- From a session with `P` the computation ends in one with `P`, and its result has `Q`. -/
def Ensures {α : Type} (P : Session → Prop) (x : Eval α) (Q : α → Prop) : Prop :=
  ∀ s, P s → P (x s).2 ∧ Q (x s).1

namespace Ensures

variable {α β : Type} {P : Session → Prop} {x : Eval α} {Q : α → Prop}

theorem pure {a : α} (h : Q a) : Ensures P (pure a) Q :=
  fun _ hs => ⟨hs, h⟩

theorem bind {f : α → Eval β} {R : β → Prop} (hx : Ensures P x Q)
    (hf : ∀ a, Q a → Ensures P (f a) R) : Ensures P (x >>= f) R := by
  intro s hs
  obtain ⟨hs', ha⟩ := hx s hs
  exact hf _ ha _ hs'

theorem mono {Q' : α → Prop} (hx : Ensures P x Q) (h : ∀ a, Q a → Q' a) : Ensures P x Q' :=
  fun s hs => (hx s hs).imp_right (h _)

theorem map {f : α → β} {R : β → Prop} (hx : Ensures P x Q) (h : ∀ a, Q a → R (f a)) :
    Ensures P (f <$> x) R :=
  fun s hs => (hx s hs).imp_right (h _)

theorem mapM {f : β → Eval α} {R : α → β → Prop} {bs : List β}
    (h : ∀ b ∈ bs, Ensures P (f b) fun a => R a b) :
    Ensures P (bs.mapM f) fun as => List.Forall₂ R as bs := by
  induction bs with
  | nil => exact .pure .nil
  | cons b bs ih =>
    rw [List.mapM_cons]
    refine bind (h b (by simp)) fun a ha => ?_
    refine bind (ih fun b hb => h b (by simp [hb])) fun as has => ?_
    exact .pure (.cons ha has)

theorem resolve {read : Address → Eval Value} {maxCells : Nat} {a b : Reference}
    (h : ∀ c, Ensures P (read c) fun _ => True) :
    Ensures P (resolve maxCells read a b) fun _ => True := by
  rw [resolve_eq]
  split
  · exact .pure trivial
  · exact (mapM (R := fun _ _ => True) fun c _ => h c).map fun _ _ => trivial

/-- What reading a cell keeps, evaluating an expression keeps. -/
theorem value_of_read {w : Setting} {read : Address → Eval Value}
    (h : ∀ a, Ensures P (read a) fun _ => True) (e : Expr) :
    Ensures P (e.value w read) fun _ => True := by
  induction e using Expr.induction with
  | literal v => exact .pure trivial
  | cell r => exact h r.address
  | range r =>
    rw [Expr.value_range]
    split
    · exact .pure trivial
    · exact (mapM (R := fun _ _ => True) fun a _ => h a).map fun _ _ => trivial
  | unary op e ih =>
    rw [Expr.value_unary]
    exact ih.map fun _ _ => trivial
  | binary op l r ihl ihr =>
    rw [Expr.value_binary]
    refine ihl.bind fun v _ => ?_
    unfold Expr.afterLeft
    split
    · exact .pure trivial
    · exact ihr.map fun _ _ => trivial
  | call name args ih =>
    rw [Expr.value_call]
    split
    · exact .pure trivial
    · split
      · exact (mapM (R := fun _ _ => True) ih).map fun _ _ => trivial
      · exact .pure trivial

theorem formulaValue_of_read {w : Setting} {read : Address → Eval Value}
    (h : ∀ a, Ensures P (read a) fun _ => True) (source : String) :
    Ensures P (Cell.formulaValue w read source) fun _ => True := by
  cases he : Expr.ofText w.limits.maxNesting source with
  | error x =>
    rw [Cell.formulaValue_of_error he]
    exact .pure trivial
  | ok e =>
    rw [Cell.formulaValue_of_ok he]
    exact (value_of_read h e).map fun _ _ => trivial

/-- Where each cell is read as a near value, an expression is evaluated to a close one. -/
theorem value {w : Setting} (hw : w.functions.Strict) {stray : CellError → Prop}
    {read : Address → Eval Value} {f : Address → Value} (e : Expr)
    (h : ∀ a ∈ e.cells, Ensures P (read a) fun v => Near stray v (f a)) :
    Ensures P (e.value w read) fun v => Close stray v (e.valueFrom w f) := by
  induction e using Expr.induction with
  | literal v => exact .pure (.near (.refl v))
  | cell r => exact (h r.address (by simp [Expr.cells_cell])).mono fun _ hv => .near hv
  | range r =>
    rw [Expr.cells_range] at h
    rw [Expr.value_range, Expr.valueFrom_range]
    split
    · exact .pure (.near (.refl _))
    · exact (mapM h).map fun vs hvs => .array (by rwa [List.forall₂_map_right_iff])
  | unary op e ih =>
    rw [Expr.cells_unary] at h
    rw [Expr.value_unary, Expr.valueFrom_unary]
    exact (ih h).map fun v hv => .near (hv.alike.unary op)
  | binary op l r ihl ihr =>
    rw [Expr.value_binary, Expr.valueFrom_binary]
    refine bind (ihl fun a ha => h a (Expr.mem_cells_binary.mpr (.inl ha))) fun u hu => ?_
    unfold Expr.afterLeft
    split
    · next x =>
      -- the right side is not computed; it would not have made a difference
      rw [← op.apply_of_fault_left w.limits (Value.fault?_error x) (r.valueFrom w f)]
      exact .pure (.near ((hu.alike.cons fun _ => .refl _).binary op w.limits))
    · exact (ihr fun a ha => h a (Expr.mem_cells_binary.mpr (.inr ha))).map fun v hv =>
        .near ((hu.alike.cons fun _ => hv.alike).binary op w.limits)
  | call name args ih =>
    rw [Expr.value_call, Expr.valueFrom_call]
    split
    · exact .pure (.near (.refl _))
    · next d hd =>
      split
      · next hc =>
        refine (mapM fun e he => ih e he fun a ha =>
          h a (Expr.mem_cells_call.mpr ⟨e, he, ha⟩)).map fun vs hvs => .near ?_
        have hclose : List.Forall₂ (Close stray) vs (args.map (Expr.valueFrom w f)) := by
          rwa [List.forall₂_map_right_iff]
        have halike := Alike.of_forall₂ (hclose.imp fun _ _ h => h.alike)
        exact halike.call (hw name d hd) w.limits (hvs.length_eq ▸ hc) hclose.length_eq
      · exact .pure (.near (.refl _))

end Ensures

/-! ## Sound sessions -/

namespace Setting

/-- An error that may come of the way to some cells: one of the limits, or a cycle that can be
reached from them. -/
def Stray (w : Setting) (cells : List Address) (x : CellError) : Prop :=
  x.isPathDependent = true ∨ x = .cycle ∧ ∃ b ∈ cells, w.Circular b

/-- What a session may answer to the question for a cell. -/
def Answer (w : Setting) (a : Address) (v : Value) : Prop :=
  w.Decided a v ∨ ∃ x, w.Stray [a] x ∧ v = .error x

/-- Everything that is remembered is decided, or the error of a cycle that can be reached. -/
def Sound (w : Setting) (s : Session) : Prop :=
  ∀ a v, s.memo[a]? = some v → w.Decided a v ∨ v = .error .cycle ∧ w.Circular a

/-- A sound session with the given way. -/
def SoundAt (w : Setting) (way : List Address) (s : Session) : Prop :=
  w.Sound s ∧ s.visiting = way

/-- Every cell on the way leads to the cell, if that holds a formula. -/
def LeadsTo (w : Setting) (way : List Address) (a : Address) : Prop :=
  w.IsFormula a → ∀ c ∈ way, Relation.TransGen w.Names c a

variable {w : Setting} {a b : Address} {v : Value} {way : List Address} {s : Session}

theorem leadsTo_nil : w.LeadsTo [] a :=
  fun _ _ hc => absurd hc List.not_mem_nil

/-- The way goes on from a formula cell to the cells it names. -/
theorem LeadsTo.of_mem_cells {e : Expr} (h : w.LeadsTo way a) (he : w.Holds a e)
    (hb : b ∈ e.cells) : w.LeadsTo (a :: way) b := by
  intro hform c hc
  have hab : w.Names a b := ⟨e, he, hb, hform⟩
  rcases List.mem_cons.mp hc with rfl | hc
  · exact .single hab
  · exact (h he.isFormula c hc).tail hab

theorem stray_singleton_iff {x : CellError} :
    w.Stray [a] x ↔ x.isPathDependent = true ∨ x = .cycle ∧ w.Circular a := by
  simp [Stray]

theorem answer_cycle (h : w.Circular a) : w.Answer a (.error .cycle) :=
  .inr ⟨.cycle, stray_singleton_iff.mpr (.inr ⟨rfl, h⟩), rfl⟩

theorem answer_of_isPathDependent {x : CellError} (h : x.isPathDependent = true) :
    w.Answer a (.error x) :=
  .inr ⟨x, .inl h, rfl⟩

/-- A formula cell is answered with an error or with something without any. -/
theorem Answer.error_or (h : w.Answer a v) (ha : w.IsFormula a) :
    (∃ x, v = .error x) ∨ v.fault? = none := by
  rcases h with hd | ⟨x, -, hv⟩
  · exact hd.error_or ha
  · exact .inl ⟨x, hv⟩

theorem Answer.near {f : Address → Value} {bs : List Address} (h : w.Answer b v) (hb : b ∈ bs)
    (hf : w.Completes f) : Near (w.Stray bs) v (f b) := by
  rcases h with hd | ⟨x, hx, rfl⟩
  · exact .inl (hf b v hd).symm
  · exact .of_stray ((stray_singleton_iff.mp hx).imp_right fun ⟨hx, hcirc⟩ => ⟨hx, b, hb, hcirc⟩)

/-- What is near to the cell's value in every completion is an answer. -/
theorem answer_of_near (h : ∀ f, w.Completes f → Near (w.Stray [a]) v (Cell.valueFrom w f a)) :
    w.Answer a v := by
  by_cases hs : ∃ x, w.Stray [a] x ∧ v = .error x
  · exact .inr hs
  · exact .inl (decided_iff.mpr fun f hf => ((h f hf).resolve_right hs).symm)

/-- A cycle is among the cells that a formula names only if it can be reached from its cell. -/
theorem Stray.of_holds {e : Expr} {x : CellError} (he : w.Holds a e) (h : w.Stray e.cells x) :
    w.Stray [a] x := by
  refine stray_singleton_iff.mpr (h.imp_right fun ⟨hx, b, hb, hcirc⟩ => ⟨hx, ?_⟩)
  exact hcirc.of_names ⟨e, he, hb, hcirc.isFormula⟩

/-- What is remembered may be answered. -/
theorem Sound.answer (h : w.Sound s) (hv : s.memo[a]? = some v) : w.Answer a v :=
  (h a v hv).elim .inl fun ⟨hcycle, hcirc⟩ => hcycle ▸ answer_cycle hcirc

theorem Sound.remember (h : w.Sound s) (hv : w.Answer a v) : w.Sound (s.remember a v) := by
  intro b u hu
  rcases Session.getElem?_remember hu with hu | ⟨rfl, rfl, hlast⟩
  · exact h b u hu
  · refine hv.imp_right fun ⟨x, hx, hux⟩ => ?_
    rcases stray_singleton_iff.mp hx with hpath | ⟨rfl, hcirc⟩
    · exact absurd ((hlast x hux).symm.trans hpath) Bool.false_ne_true
    · exact ⟨hux, hcirc⟩

theorem sound_empty : w.Sound {} := by
  intro a v h
  simp at h

end Setting

/-! ## Reading cells -/

variable {w : Setting}

open Setting

/-- A formula is worth an answer where every cell it names is read as one. -/
theorem Ensures.formulaValue (hw : w.functions.Strict) {P : Session → Prop}
    {read : Address → Eval Value} {a : Address} {source : String}
    (hg : w.grid a = some (.formula source))
    (h : ∀ e, w.Holds a e → ∀ b ∈ e.cells, Ensures P (read b) (w.Answer b)) :
    Ensures P (Cell.formulaValue w read source) (w.Answer a) := by
  cases he : Expr.ofText w.limits.maxNesting source with
  | error x =>
    rw [Cell.formulaValue_of_error he]
    refine .pure (.inl (decided_iff.mpr fun f _ => ?_))
    simp only [Cell.valueFrom, hg, he]
  | ok e =>
    have hold : w.Holds a e := ⟨source, hg, he⟩
    rw [Cell.formulaValue_of_ok he]
    intro s hs
    have hall : ∀ f, w.Completes f → Ensures P (finalize <$> e.value w read) fun v =>
        Near (w.Stray [a]) v (Cell.valueFrom w f a) := by
      intro f hf
      have hread : ∀ b ∈ e.cells, Ensures P (read b) fun v => Near (w.Stray e.cells) v (f b) :=
        fun b hb => (h e hold b hb).mono fun v hv => hv.near hb hf
      rw [hold.valueFrom]
      exact (Ensures.value hw e hread).map fun v hv =>
        hv.finalize.mono fun x hx => hx.of_holds hold
    exact ⟨(hall _ (completes_completion .empty) s hs).1,
      answer_of_near fun f hf => (hall f hf s hs).2⟩

/-- One cell further on the way, given how the cells are read that its formula names. -/
theorem Cell.valueWith_ensures (hw : w.functions.Strict) {deeper : Option (Address → Eval Value)}
    {way : List Address} {a : Address} (ha : w.LeadsTo way a)
    (h : ∀ read, deeper = some read → ∀ e, w.Holds a e → ∀ b ∈ e.cells,
      Ensures (w.SoundAt (a :: way)) (read b) (w.Answer b)) :
    Ensures (w.SoundAt way) (Cell.valueWith w deeper a) (w.Answer a) := by
  rintro s ⟨hs, hway⟩
  by_cases hform : w.IsFormula a
  · obtain ⟨source, hg⟩ := hform
    rw [Cell.valueWith_of_formula hg]
    have hspec := Cell.guarded_spec w deeper a source (s.looked a)
    generalize Cell.guarded w deeper a source (s.looked a) = r at hspec ⊢
    cases hspec with
    | remembered hm => exact ⟨⟨hs, hway⟩, hs.answer hm⟩
    | cycle _ hv =>
      have hcirc : w.Circular a := circular_of_transGen (ha ⟨source, hg⟩ a (hway ▸ hv))
      exact ⟨⟨hs, hway⟩, answer_cycle hcirc⟩
    | depth => exact ⟨⟨hs, hway⟩, answer_of_isPathDependent rfl⟩
    | budget => exact ⟨⟨hs, hway⟩, answer_of_isPathDependent rfl⟩
    | @computed read _ _ hd _ =>
      rw [Cell.compute_apply]
      obtain ⟨⟨hsound, hvisit⟩, hanswer⟩ :=
        Ensures.formulaValue hw hg (h read hd) ((s.looked a).enter a)
          ⟨hs, congrArg (a :: ·) hway⟩
      refine ⟨⟨?_, ?_⟩, hanswer⟩
      · exact Sound.remember hsound hanswer
      · simp [hvisit]
  · rw [Cell.valueWith_of_not_isFormula hform fun _ => .empty]
    exact ⟨⟨hs, hway⟩, .inl (decided_of_not_isFormula hform)⟩

/-- Reading a cell from a sound session, with all cells on the way leading to it, keeps the session
sound and the way as it was, and gives an answer. -/
theorem Cell.value_ensures (hw : w.functions.Strict) (room : Nat) {way : List Address}
    {a : Address} (ha : w.LeadsTo way a) :
    Ensures (w.SoundAt way) (Cell.value w room a) (w.Answer a) := by
  induction room generalizing way a with
  | zero => exact Cell.valueWith_ensures hw ha nofun
  | succ room ih =>
    refine Cell.valueWith_ensures hw ha fun read hread e he b hb => ?_
    cases hread
    exact ih (ha.of_mem_cells he hb)

/-! ## Questions from outside -/

namespace Session

theorem cellValue_ensures (hw : w.functions.Strict) (a : Address) :
    Ensures (w.SoundAt []) (cellValue w a) (w.Answer a) :=
  fun s => Cell.value_ensures hw (s.room w) leadsTo_nil s

/-- An expression is worth what its cells are worth in any completion, up to stray errors. -/
theorem evaluate_ensures (hw : w.functions.Strict) (e : Expr) {f : Address → Value}
    (hf : w.Completes f) : Ensures (w.SoundAt []) (evaluate w e) fun v =>
      Close (w.Stray e.cells) v (e.valueFrom w f) := by
  intro s
  refine Ensures.value hw e (fun b hb => ?_) s
  exact (Cell.value_ensures hw (s.room w) leadsTo_nil).mono fun v hv => hv.near hb hf

theorem resolveRange_ensures (hw : w.functions.Strict) (maxCells : Nat) (a b : Reference) :
    Ensures (w.SoundAt []) (resolveRange w maxCells a b) fun _ => True :=
  fun s => Ensures.resolve (fun c => (Cell.value_ensures hw (s.room w) leadsTo_nil).mono
    fun _ (_ : w.Answer c _) => trivial) s

end Session

end Spreadsheet
