import Spreadsheet.Proofs.History
import Spreadsheet.Proofs.Lockstep

/-!
# Evaluation that remembers nothing

The same evaluation as that of a session, with the same three guards, but each time a cell is asked
for it is computed again. What it gives is the measure for the session that remembers: as long as
neither limit is met here, both give the same value, on cyclic grids too.

On a cyclic grid what a cell is worth depends on the way to it, so a remembered value could be the
wrong one somewhere else. But what depends on the way is an error, and a formula that has met an
error is decided. So the two evaluations need only agree up to the first error, and up to there
everything that is remembered belongs to a grounded cell.

Results:
1. `Uncached.together_plain`: a grounded cell gives its plain value on every way;
2. `Uncached.together`: the session and the evaluation without memory go in lockstep;
3. `memory_never_changes_answers`: they give the same answers.
-/

namespace Spreadsheet

open Formula Setting

/-! ## The evaluation -/

/-- What is left of a session when nothing is remembered. -/
structure Trail where
  /-- The cells on the way, the latest first. -/
  visiting : List Address := []
  /-- The number of formula cells entered. -/
  evaluations : Nat := 0
  /-- Whether one of the two limits was met. No value depends on it. -/
  refused : Bool := false

namespace Trail

def enter (a : Address) (t : Trail) : Trail :=
  { t with visiting := a :: t.visiting, evaluations := t.evaluations + 1 }

def leave (a : Address) (t : Trail) : Trail :=
  { t with visiting := t.visiting.erase a }

def refuse (t : Trail) : Trail :=
  { t with refused := true }

/-- The trail of an evaluation that has met a limit. -/
def Lost (t : Trail) : Prop :=
  t.refused = true

end Trail

namespace Uncached

def compute (w : Setting) (read : Address → StateM Trail Value) (a : Address) (source : String) :
    StateM Trail Value := do
  modify (Trail.enter a)
  let v ← Cell.formulaValue w read source
  modify (Trail.leave a)
  return v

def guarded (w : Setting) (deeper : Option (Address → StateM Trail Value)) (a : Address)
    (source : String) : StateM Trail Value := do
  let t ← get
  if t.visiting.contains a then
    return .error .cycle
  else
    match deeper with
    | none =>
      modify Trail.refuse
      return .error .depth
    | some read =>
      if w.limits.maxEvaluations ≤ t.evaluations then
        modify Trail.refuse
        return .error .calc
      else
        compute w read a source

def valueWith (w : Setting) (deeper : Option (Address → StateM Trail Value)) (a : Address) :
    StateM Trail Value :=
  match w.grid a with
  | none => return .error .ref
  | some .blank => return .empty
  | some (.literal v) => return v
  | some (.formula source) => guarded w deeper a source

/-- The value of a cell when `room` more formula cells may be entered. -/
def value (w : Setting) : (room : Nat) → Address → StateM Trail Value
  | 0 => valueWith w none
  | room + 1 => valueWith w (some (value w room))

/-- The value of a cell as the start of a way. -/
def evaluateCell (w : Setting) (a : Address) : Value × Trail :=
  value w w.limits.maxDepth a {}

/-- The value of a formula text. -/
def evaluateFormula (w : Setting) (text : String) : Value × Trail :=
  Cell.formulaValue w (value w w.limits.maxDepth) text {}

variable {w : Setting} {deeper : Option (Address → StateM Trail Value)} {a : Address}
  {source : String} {t : Trail}

theorem valueWith_of_not_isFormula (h : ¬w.IsFormula a) (f : Address → Value) :
    valueWith w deeper a = pure (Cell.valueFrom w f a) := by
  rw [valueWith, Cell.valueFrom]
  cases hg : w.grid a with
  | none => rfl
  | some c =>
    cases c with
    | blank => rfl
    | literal v => rfl
    | formula source => exact absurd ⟨source, hg⟩ h

theorem valueWith_of_formula (h : w.grid a = some (.formula source)) :
    valueWith w deeper a = guarded w deeper a source := by
  rw [valueWith, h]

/-- What can come of asking for a formula cell. -/
inductive Guarded (w : Setting) (deeper : Option (Address → StateM Trail Value)) (a : Address)
    (source : String) (t : Trail) : Value × Trail → Prop where
  | cycle (hv : a ∈ t.visiting) : Guarded w deeper a source t (.error .cycle, t)
  | refused (x : CellError) : Guarded w deeper a source t (.error x, t.refuse)
  | computed {read : Address → StateM Trail Value} (hv : a ∉ t.visiting)
      (hd : deeper = some read) (hb : t.evaluations < w.limits.maxEvaluations) :
      Guarded w deeper a source t (compute w read a source t)

theorem guarded_apply : guarded w deeper a source t =
    (if t.visiting.contains a then pure (.error .cycle) else
      match deeper with
      | none => fun t => (.error .depth, t.refuse)
      | some read =>
        if w.limits.maxEvaluations ≤ t.evaluations then fun t => (.error .calc, t.refuse)
        else compute w read a source : StateM Trail Value) t := rfl

theorem guarded_spec (w : Setting) (deeper : Option (Address → StateM Trail Value)) (a : Address)
    (source : String) (t : Trail) :
    Guarded w deeper a source t (guarded w deeper a source t) := by
  rw [guarded_apply]
  by_cases hv : a ∈ t.visiting
  · rw [if_pos (List.contains_iff_mem.mpr hv)]
    exact .cycle hv
  · rw [if_neg (mt List.contains_iff_mem.mp hv)]
    cases deeper with
    | none => exact .refused .depth
    | some read =>
      by_cases hb : w.limits.maxEvaluations ≤ t.evaluations
      · simp only [hb, if_true]
        exact .refused .calc
      · simp only [hb, if_false]
        exact .computed hv rfl (Nat.lt_of_not_le hb)

theorem compute_apply {read : Address → StateM Trail Value} : compute w read a source t =
    ((Cell.formulaValue w read source (t.enter a)).1,
      (Cell.formulaValue w read source (t.enter a)).2.leave a) := rfl

/-- A limit that was met stays met. -/
theorem guarded_keeps (h : ∀ read, deeper = some read →
      ∀ t, t.Lost → (Cell.formulaValue w read source t).2.Lost) (ht : t.Lost) :
    (guarded w deeper a source t).2.Lost := by
  have hspec := guarded_spec w deeper a source t
  generalize guarded w deeper a source t = r at hspec ⊢
  cases hspec with
  | cycle => exact ht
  | refused => exact rfl
  | @computed read _ hd _ =>
    rw [compute_apply]
    exact h read hd (t.enter a) ht

/-! ## Grounded cells -/

/-- The trail stands on the given way and has entered at least `n` formula cells. -/
def OnWay (way : List Address) (n : Nat) (t : Trail) : Prop :=
  t.visiting = way ∧ n ≤ t.evaluations

theorem OnWay.enter {way : List Address} {n : Nat} (h : OnWay way n t) :
    OnWay (a :: way) (n + 1) (t.enter a) :=
  ⟨congrArg (a :: ·) h.1, Nat.succ_le_succ h.2⟩

theorem OnWay.leave {way : List Address} {n : Nat} (h : OnWay (a :: way) n t) :
    OnWay way n (t.leave a) := by
  refine ⟨?_, h.2⟩
  rw [Trail.leave, h.1, List.erase_cons_head]

theorem OnWay.mono {way : List Address} {m n : Nat} (h : OnWay way n t) (hmn : m ≤ n) :
    OnWay way m t :=
  ⟨h.1, hmn.trans h.2⟩

theorem valueWith_together_plain (hw : w.functions.Strict) {way : List Address} {n : Nat}
    (ha : w.Grounded a) (hway : w.LeadsTo way a)
    (h : ∀ read, deeper = some read → ∀ e, w.Holds a e → ∀ b ∈ e.cells,
      Together (fun (_ : Unit) => OnWay (a :: way) n) Trail.Lost (pure (w.plainValue b)) (read b)) :
    Together (fun (_ : Unit) => OnWay way n) Trail.Lost (pure (w.plainValue a))
      (valueWith w deeper a) := by
  rw [ha.plainValue_eq]
  by_cases hform : w.IsFormula a
  · obtain ⟨source, hg⟩ := hform
    rw [valueWith_of_formula hg]
    have hformula : ∀ read, deeper = some read →
        Together (fun (_ : Unit) => OnWay (a :: way) n) Trail.Lost
          (pure (Cell.valueFrom w w.plainValue a)) (Cell.formulaValue w read source) := by
      intro read hd
      rw [← Cell.formulaValue_pure w.plainValue hg]
      exact Lockstep.formulaValue hw hg (h read hd)
    constructor
    · exact fun t => guarded_keeps fun read hd => (hformula read hd).keeps
    · intro s t ht hlost
      have hspec := guarded_spec w deeper a source t
      generalize guarded w deeper a source t = r at hspec hlost ⊢
      cases hspec with
      | cycle hv => exact absurd (hway ⟨source, hg⟩ a (ht.1 ▸ hv)) ha.not_transGen
      | refused => exact absurd rfl hlost
      | @computed read hv hd hb =>
        rw [compute_apply] at hlost ⊢
        obtain ⟨heq, hrel⟩ := (hformula read hd).agree s (t.enter a)
          (ht.enter.mono (Nat.le_succ n)) hlost
        exact ⟨heq, fun hclean => (hrel hclean).leave⟩
  · rw [valueWith_of_not_isFormula hform]
    exact .pure rfl

/-- A grounded cell gives its plain value on every way, if no limit is met. -/
theorem together_plain (hw : w.functions.Strict) (room : Nat) {way : List Address} {n : Nat}
    (ha : w.Grounded a) (hway : w.LeadsTo way a) :
    Together (fun (_ : Unit) => OnWay way n) Trail.Lost (pure (w.plainValue a))
      (value w room a) := by
  induction room generalizing way a with
  | zero => exact valueWith_together_plain hw ha hway nofun
  | succ room ih =>
    refine valueWith_together_plain hw ha hway fun read hread e he b hb => ?_
    cases hread
    refine ih ?_ (hway.of_mem_cells he hb)
    by_cases hform : w.IsFormula b
    · exact ha.of_names ⟨e, he, hb, hform⟩
    · exact grounded_of_not_isFormula hform

/-! ## Cells that need not be grounded -/

/-- Everything that is remembered belongs to a grounded cell and holds no error. -/
def Clear (w : Setting) (s : Session) : Prop :=
  ∀ a v, s.memo[a]? = some v → w.Grounded a ∧ v = w.plainValue a ∧ v.fault? = none

theorem Clear.sound {s : Session} (h : Clear w s) : w.Sound s := by
  intro a v hv
  obtain ⟨ha, rfl, -⟩ := h a v hv
  exact .inl ha.decided

theorem Clear.remember {s : Session} {v : Value} (h : Clear w s) (hw : w.functions.Strict)
    (hv : w.Answer a v) (hclean : v.fault? = none) : Clear w (s.remember a v) := by
  intro b u hu
  rcases Session.getElem?_remember hu with hu | ⟨rfl, rfl, -⟩
  · exact h b u hu
  · have hd : w.Decided b u := hv.resolve_right fun ⟨x, _, hx⟩ =>
      Value.ne_error_of_fault?_eq_none hclean x hx
    have hb : w.Grounded b := hd.grounded hw hclean
    exact ⟨hb, hb.decided_iff.mp hd, hclean⟩

/-- A session and a trail on the same way, the session with no more evaluations than the trail. -/
def Beside (w : Setting) (way : List Address) (s : Session) (t : Trail) : Prop :=
  Clear w s ∧ s.visiting = way ∧ OnWay way s.evaluations t

theorem Beside.soundAt {way : List Address} {s : Session} (h : Beside w way s t) :
    w.SoundAt way s :=
  ⟨h.1.sound, h.2.1⟩

theorem Beside.looked {way : List Address} {s : Session} (h : Beside w way s t) :
    Beside w way (s.looked a) t := h

theorem Beside.enter {way : List Address} {s : Session} (h : Beside w way s t) :
    Beside w (a :: way) (s.enter a) (t.enter a) :=
  ⟨h.1, congrArg (a :: ·) h.2.1, h.2.2.enter⟩

theorem Beside.leave {way : List Address} {s : Session} {v : Value}
    (h : Beside w (a :: way) s t) (hw : w.functions.Strict) (hv : w.Answer a v)
    (hclean : v.fault? = none) : Beside w way ((s.leave a).remember a v) (t.leave a) := by
  refine ⟨Clear.remember h.1 hw hv hclean, ?_, ?_⟩
  · rw [Session.remember_visiting, Session.leave_visiting, h.2.1, List.erase_cons_head]
  · rw [Session.remember_evaluations]
    exact h.2.2.leave

/-- Where nothing is remembered and no limit is met on the right, both meet the cell on the way, or
both compute it. -/
theorem guarded_alike {reads : Option ((Address → Eval Value) × (Address → StateM Trail Value))}
    {s : Session} (hm : s.memo[a]? = none) (hways : s.visiting = t.visiting)
    (hn : s.evaluations ≤ t.evaluations)
    (hlost : ¬(guarded w (reads.map Prod.snd) a source t).2.Lost) :
    (Cell.guarded w (reads.map Prod.fst) a source s = (.error .cycle, s) ∧
      guarded w (reads.map Prod.snd) a source t = (.error .cycle, t)) ∨
    ∃ p, reads = some p ∧
      Cell.guarded w (reads.map Prod.fst) a source s = Cell.compute w p.1 a source s ∧
      guarded w (reads.map Prod.snd) a source t = compute w p.2 a source t := by
  have hleft := Cell.guarded_spec w (reads.map Prod.fst) a source s
  generalize Cell.guarded w (reads.map Prod.fst) a source s = r at hleft ⊢
  have hright := guarded_spec w (reads.map Prod.snd) a source t
  generalize guarded w (reads.map Prod.snd) a source t = r' at hright hlost ⊢
  cases hright with
  | refused => exact absurd rfl hlost
  | cycle hv =>
    cases hleft with
    | remembered hm' => exact nomatch hm.symm.trans hm'
    | cycle => exact .inl ⟨rfl, rfl⟩
    | depth _ hv' => exact absurd (hways ▸ hv) hv'
    | budget _ hv' => exact absurd (hways ▸ hv) hv'
    | computed _ hv' => exact absurd (hways ▸ hv) hv'
  | computed hv hd hb =>
    obtain ⟨p, hp, rfl⟩ := Option.map_eq_some_iff.mp hd
    subst hp
    cases hleft with
    | remembered hm' => exact nomatch hm.symm.trans hm'
    | cycle _ hv' => exact absurd (hways ▸ hv') hv
    | depth _ _ hd' => exact nomatch hd'
    | budget _ _ hb' => exact absurd (hb'.trans hn) (Nat.not_le_of_lt hb)
    | computed _ _ hd' =>
      cases hd'
      exact .inr ⟨p, rfl, rfl, rfl⟩

/-- One cell further on the way for both, given how they read the cells that its formula names. -/
theorem valueWith_together (hw : w.functions.Strict) {way : List Address}
    (reads : Option ((Address → Eval Value) × (Address → StateM Trail Value)))
    (hanswer : Ensures (w.SoundAt way) (Cell.valueWith w (reads.map Prod.fst) a) (w.Answer a))
    (hplain : ∀ n, w.Grounded a → Together (fun (_ : Unit) => OnWay way n) Trail.Lost
      (pure (w.plainValue a)) (valueWith w (reads.map Prod.snd) a))
    (h : ∀ p, reads = some p → ∀ e, w.Holds a e → ∀ b ∈ e.cells,
      Together (Beside w (a :: way)) Trail.Lost (p.1 b) (p.2 b)) :
    Together (Beside w way) Trail.Lost (Cell.valueWith w (reads.map Prod.fst) a)
      (valueWith w (reads.map Prod.snd) a) := by
  by_cases hform : w.IsFormula a
  · obtain ⟨source, hg⟩ := hform
    have hformula : ∀ p, reads = some p → Together (Beside w (a :: way)) Trail.Lost
        (Cell.formulaValue w p.1 source) (Cell.formulaValue w p.2 source) :=
      fun p hp => Lockstep.formulaValue hw hg (h p hp)
    constructor
    · intro t
      rw [valueWith_of_formula hg]
      refine guarded_keeps fun read hread => ?_
      obtain ⟨p, hp, rfl⟩ := Option.map_eq_some_iff.mp hread
      exact (hformula p hp).keeps
    · intro s t hst hlost
      cases hm : s.memo[a]? with
      | some v =>
        -- the trail computes again what the session remembers; it is the cell's plain value
        obtain ⟨ha, rfl, -⟩ := hst.1 a v hm
        obtain ⟨heq, hrel⟩ := (hplain s.evaluations ha).agree () t hst.2.2 hlost
        rw [Cell.valueWith_of_remembered ⟨source, hg⟩ hm]
        exact ⟨heq, fun hclean => ⟨hst.1, hst.2.1, hrel hclean⟩⟩
      | none =>
        have hv := (hanswer s hst.soundAt).2
        rw [valueWith_of_formula hg] at hlost ⊢
        rw [Cell.valueWith_of_formula hg] at hv ⊢
        have hmemo : (s.looked a).memo[a]? = none := hm
        have hways : (s.looked a).visiting = t.visiting := hst.2.1.trans hst.2.2.1.symm
        rcases guarded_alike hmemo hways hst.2.2.2 hlost with
          ⟨hleft, hright⟩ | ⟨p, hp, hleft, hright⟩
        · rw [hleft, hright]
          exact ⟨rfl, nofun⟩
        · rw [hright, compute_apply] at hlost ⊢
          rw [hleft, Cell.compute_apply] at hv ⊢
          obtain ⟨heq, hrel⟩ := (hformula p hp).agree _ _ hst.looked.enter hlost
          exact ⟨heq, fun hclean => (hrel hclean).leave hw hv (heq ▸ hclean)⟩
  · rw [valueWith_of_not_isFormula hform fun _ => .empty]
    constructor
    · exact fun _ ht => ht
    · intro s t hst _
      rw [Cell.valueWith_of_not_isFormula hform fun _ => .empty]
      exact ⟨rfl, fun _ => hst⟩

/-- The session and the evaluation without memory go in lockstep. -/
theorem together (hw : w.functions.Strict) (room : Nat) {way : List Address}
    (hway : w.LeadsTo way a) :
    Together (Beside w way) Trail.Lost (Cell.value w room a) (value w room a) := by
  induction room generalizing way a with
  | zero =>
    exact valueWith_together hw none (Cell.value_ensures hw 0 hway)
      (fun n ha => together_plain hw 0 ha hway) nofun
  | succ room ih =>
    refine valueWith_together hw (some (Cell.value w room, value w room))
      (Cell.value_ensures hw (room + 1) hway)
      (fun n ha => together_plain hw (room + 1) ha hway) fun p hp e he b hb => ?_
    cases hp
    exact ih (hway.of_mem_cells he hb)

end Uncached

theorem beside_start (w : Setting) : Uncached.Beside w [] {} {} :=
  ⟨fun a v h => by simp at h, rfl, rfl, Nat.le_refl 0⟩

/-- Remembering never changes the answer to a formula or a cell, on cyclic grids neither: where the
evaluation that remembers nothing meets no limit, the session gives the same value. -/
theorem memory_never_changes_answers (limits : Limits) (g : Grid) :
    let engine := Engine.standard limits
    let w := engine.setting g
    (∀ text, (Uncached.evaluateFormula w text).2.refused = false →
      engine.evaluateFormula g text = (Uncached.evaluateFormula w text).1) ∧
    ∀ a, (Uncached.evaluateCell w a).2.refused = false →
      engine.evaluateCell g a = (Uncached.evaluateCell w a).1 := by
  intro engine w
  have hw : w.functions.Strict := Engine.standard_strict limits g
  have hcells : ∀ a, Together (Uncached.Beside w []) Trail.Lost
      (Cell.value w limits.maxDepth a) (Uncached.value w limits.maxDepth a) :=
    fun a => Uncached.together hw limits.maxDepth leadsTo_nil
  constructor
  · intro text hlost
    cases he : Expr.ofText limits.maxNesting text with
    | error x =>
      rw [Engine.evaluateFormula_of_error engine g he, Uncached.evaluateFormula,
        Cell.formulaValue_of_error he]
      rfl
    | ok e =>
      rw [Uncached.evaluateFormula, Cell.formulaValue_of_ok he] at hlost ⊢
      rw [Engine.evaluateFormula_of_ok engine g he]
      exact ((Lockstep.value hw e fun a _ => hcells a).agree {} {} (beside_start w)
        (Bool.eq_false_iff.mp hlost)).1.2
  · intro a hlost
    rw [Engine.evaluateCell_eq]
    exact ((hcells a).agree {} {} (beside_start w) (Bool.eq_false_iff.mp hlost)).1

open BlockedCycle in
theorem memory_never_changes_answers_blocked :
    (Uncached.evaluateFormula setting "=A1").2.refused = false ∧
      (Engine.standard {}).evaluateFormula content "=A1" =
        (Uncached.evaluateFormula setting "=A1").1 ∧
      (Uncached.evaluateCell setting d1).2.refused = false ∧
      (Engine.standard {}).evaluateCell content d1 = (Uncached.evaluateCell setting d1).1 := by
  obtain ⟨hformula, hcell⟩ := memory_never_changes_answers {} content
  have hkept : (Uncached.evaluateFormula setting "=A1").2.refused = false := by decide +kernel
  have hkept' : (Uncached.evaluateCell setting d1).2.refused = false := by decide +kernel
  exact ⟨hkept, hformula "=A1" hkept, hkept', hcell d1 hkept'⟩

end Spreadsheet
