import Mathlib.Data.List.Chain
import Mathlib.Data.List.Nodup
import Mathlib.Data.List.Perm.Subperm
import Spreadsheet.Proofs.History
import Spreadsheet.Proofs.Lockstep

/-!
# Ample limits

Where no way from a cell has more formula cells than may stand on the way, and no more formula cells
can be reached than may be evaluated, a fresh session gives the cell's plain value. Neither limit
gets in the way, because no formula cell is entered twice: as long as no error is met, everything
that was entered is either still on the way or remembered.

Results:
1. `within_of_paths`: a bound on all ways from a cell bounds the recursion;
2. `Cell.value_together_plain`: the session goes in lockstep with the plain values;
3. `guarded_evaluation_is_plain`: the session's answers are the plain values.
-/

namespace Spreadsheet

open Formula

namespace Setting

variable {w : Setting} {start a b : Address} {way : List Address} {s : Session}

/-! ## The room that is needed -/

/-- A way from the cell has at most `n` formula cells, the cell itself included. -/
def Within (w : Setting) : Nat → Address → Prop
  | 0, a => ¬w.IsFormula a
  | n + 1, a => ∀ b, w.Names a b → w.Within n b

theorem within_of_paths {n : Nat} (h : ∀ path : List Address, path.head? = some a →
    path.IsChain w.Names → (∀ c ∈ path, w.IsFormula c) → path.length ≤ n) : w.Within n a := by
  induction n generalizing a with
  | zero =>
    intro ha
    exact absurd (h [a] rfl (.singleton a) (by simpa using ha)) (by simp)
  | succ n ih =>
    intro b hab
    refine ih fun path hhead hchain hform => ?_
    match path, hhead with
    | _ :: path, rfl =>
      have hlen := h (a :: b :: path) rfl (.cons_cons hab hchain) fun c hc => by
        rcases List.mem_cons.mp hc with rfl | hc
        · exact hab.isFormula
        · exact hform c hc
      exact Nat.le_of_succ_le_succ hlen

theorem Within.grounded {n : Nat} (h : w.Within n a) : w.Grounded a := by
  induction n generalizing a with
  | zero => exact grounded_of_not_isFormula h
  | succ n ih => exact Acc.intro a fun b hab => ih (h b hab)

theorem Within.of_mem_cells {n : Nat} {e : Expr} (h : w.Within (n + 1) a) (he : w.Holds a e)
    (hb : b ∈ e.cells) : w.Within n b := by
  by_cases hform : w.IsFormula b
  · exact h b ⟨e, he, hb, hform⟩
  · cases n with
    | zero => exact hform
    | succ n => exact fun c hbc => absurd hbc.isFormula hform

/-! ## The evaluations that are needed -/

/-- The cell is a formula cell that can be reached from the start. -/
def FormulaFrom (w : Setting) (start a : Address) : Prop :=
  w.IsFormula a ∧ w.Reaches start a

/-- A session that has met no error yet: what it remembers are plain values, and the cells it has
entered are different formula cells, each of them still on the way or remembered. -/
structure Progress (w : Setting) (start : Address) (way : List Address) (s : Session) : Prop where
  visiting : s.visiting = way
  memo : ∀ a v, s.memo[a]? = some v → v = w.plainValue a
  entered : ∃ cells : List Address, cells.Nodup ∧ cells.length = s.evaluations ∧
    ∀ c ∈ cells, w.FormulaFrom start c ∧ (c ∈ way ∨ s.memo[c]? ≠ none)

theorem Progress.looked (h : w.Progress start way s) : w.Progress start way (s.looked a) :=
  ⟨h.visiting, h.memo, h.entered⟩

/-- A cell that was not entered yet goes on the way. -/
theorem Progress.enter (h : w.Progress start way s) (ha : w.FormulaFrom start a)
    (hm : s.memo[a]? = none) (hv : a ∉ way) : w.Progress start (a :: way) (s.enter a) where
  visiting := congrArg (a :: ·) h.visiting
  memo := h.memo
  entered := Session.EnteredOnce.enter h.entered ha hm hv

/-- No more formula cells can be reached from the start than may be evaluated. -/
def FewFrom (w : Setting) (start : Address) : Prop :=
  ∀ cells : List Address, cells.Nodup → (∀ c ∈ cells, w.FormulaFrom start c) →
    cells.length ≤ w.limits.maxEvaluations

/-- Then the budget lasts for a cell that was not entered yet. -/
theorem Progress.evaluations_lt (h : w.Progress start way s) (ha : w.FormulaFrom start a)
    (hm : s.memo[a]? = none) (hv : a ∉ way) (hfew : w.FewFrom start) :
    s.evaluations < w.limits.maxEvaluations := by
  obtain ⟨cells, hnodup, hlen, hcells⟩ := (h.enter ha hm hv).entered
  have hle := hfew cells hnodup fun c hc => (hcells c hc).1
  rw [hlen] at hle
  exact hle

/-- A cell leaves the way to be remembered. -/
theorem Progress.leave (h : w.Progress start (a :: way) s)
    (hclean : (w.plainValue a).fault? = none) :
    w.Progress start way ((s.leave a).remember a (w.plainValue a)) := by
  have hlast : Session.Lasting (w.plainValue a) := Session.lasting_of_fault?_eq_none hclean
  refine ⟨?_, fun b v hv => ?_, ?_⟩
  · rw [Session.remember_visiting, Session.leave_visiting, h.visiting, List.erase_cons_head]
  · rcases Session.getElem?_remember hv with hv | ⟨rfl, hv, -⟩
    · exact h.memo b v hv
    · exact hv
  · exact Session.EnteredOnce.leave h.entered hlast

end Setting

open Setting

variable {w : Setting}

/-! ## The session and the plain values -/

/-- The lockstep of a session that meets no limit with the plain values, which need no state. -/
abbrev WithPlain (w : Setting) (start : Address) (way : List Address) (x : Eval Value)
    (v : Value) : Prop :=
  Together (fun s (_ : Unit) => w.Progress start way s) (fun _ => False) x (pure v)

theorem Cell.guarded_together_plain (hw : w.functions.Strict) {start a : Address}
    {way : List Address} {read : Address → Eval Value} {source : String}
    (hg : w.grid a = some (.formula source)) (ha : w.Grounded a) (hreach : w.Reaches start a)
    (hway : w.LeadsTo way a) (hfew : w.FewFrom start)
    (h : ∀ e, w.Holds a e → ∀ b ∈ e.cells,
      WithPlain w start (a :: way) (read b) (w.plainValue b)) :
    WithPlain w start way (Cell.guarded w (some read) a source) (w.plainValue a) := by
  refine ⟨fun _ ht => ht, fun s _ hs _ => ?_⟩
  have hfrom : w.FormulaFrom start a := ⟨⟨source, hg⟩, hreach⟩
  have hnew : a ∉ way := fun hmem => ha.not_transGen (hway ⟨source, hg⟩ a hmem)
  have hspec := Cell.guarded_spec w (some read) a source s
  generalize Cell.guarded w (some read) a source s = r at hspec ⊢
  cases hspec with
  | remembered hm => exact ⟨hs.memo a _ hm, fun _ => hs⟩
  | cycle _ hv => exact absurd (hs.visiting ▸ hv) hnew
  | depth _ _ hd => exact nomatch hd
  | budget hm _ hb => exact absurd (hs.evaluations_lt hfrom hm hnew hfew) (Nat.not_lt_of_le hb)
  | computed hm _ hd =>
    cases hd
    have hformula := Lockstep.formulaValue hw hg h
    rw [Cell.formulaValue_pure w.plainValue hg, ← ha.plainValue_eq] at hformula
    obtain ⟨heq, hrel⟩ := hformula.agree _ () (hs.enter hfrom hm hnew) id
    refine ⟨heq, fun hclean => ?_⟩
    rw [Cell.compute_apply, heq]
    exact (hrel hclean).leave hclean

/-- With room for all ways from a cell and a budget for all cells that can be reached, the cell is
read as its plain value. -/
theorem Cell.value_together_plain (hw : w.functions.Strict) {start a : Address}
    {way : List Address} (room : Nat) (ha : w.Within room a)
    (hreach : w.IsFormula a → w.Reaches start a) (hway : w.LeadsTo way a)
    (hfew : w.FewFrom start) :
    WithPlain w start way (Cell.value w room a) (w.plainValue a) := by
  induction room generalizing a way with
  | zero =>
    refine ⟨fun _ ht => ht, fun s _ hs _ => ?_⟩
    rw [Cell.value_of_not_isFormula 0 ha w.plainValue, ← (Within.grounded ha).plainValue_eq]
    exact ⟨rfl, fun _ => hs.looked⟩
  | succ room ih =>
    refine ⟨fun _ ht => ht, fun s t hs hlost => ?_⟩
    by_cases hform : w.IsFormula a
    · have hreach := hreach hform
      obtain ⟨source, hg⟩ := hform
      have hguarded : WithPlain w start way (Cell.guarded w (some (Cell.value w room)) a source)
          (w.plainValue a) :=
        Cell.guarded_together_plain hw hg (Within.grounded ha) hreach hway hfew fun e he b hb =>
          ih (ha.of_mem_cells he hb) (fun hb' => hreach.tail ⟨e, he, hb, hb'⟩)
            (hway.of_mem_cells he hb)
      rw [Cell.value, Cell.valueWith_of_formula hg]
      exact hguarded.agree (s.looked a) t hs.looked hlost
    · rw [Cell.value_of_not_isFormula _ hform w.plainValue, ← (Within.grounded ha).plainValue_eq]
      exact ⟨rfl, fun _ => hs.looked⟩

theorem progress_start (w : Setting) (start : Address) : w.Progress start [] {} :=
  ⟨rfl, fun a v h => by simp at h, Session.EnteredOnce.start⟩

/-- A fresh session gives the plain value, if the limits are ample. -/
theorem cellValue_eq_plainValue (hw : w.functions.Strict) {a : Address}
    (ha : w.Within w.limits.maxDepth a) (hfew : w.FewFrom a) :
    (Session.cellValue w a {}).1 = w.plainValue a :=
  ((Cell.value_together_plain hw w.limits.maxDepth ha (fun _ => .refl) leadsTo_nil hfew).agree
    {} () (progress_start w a) id).1

/-- Guarded evaluation that remembers is plain recursion on grids without cycles. Let no cycle and
no endless way be reached from a cell. Then the plain values obey their recursion from there on, and
every session reads the plain value or the error of a limit. A fresh session reads the plain value
itself, where every way of formula cells from the cell is no longer than the limit on depth, and the
formula cells that can be reached are no more than the limit on evaluations. -/
theorem guarded_evaluation_is_plain (limits : Limits) (g : Grid) (a : Address) :
    let engine := Engine.standard limits
    let w := engine.setting g
    ¬w.Circular a → (∀ p : Nat → Address, p 0 = a → ∃ n, ¬w.Names (p n) (p (n + 1))) →
    (∀ b, w.Reaches a b → w.plainValue b = Cell.valueFrom w w.plainValue b) ∧
    (∀ steps, (Session.cellValue w a (Session.after w steps)).1 = w.plainValue a ∨
      (Session.cellValue w a (Session.after w steps)).1 = .error .depth ∨
      (Session.cellValue w a (Session.after w steps)).1 = .error .calc) ∧
    ((∀ path : List Address, path.head? = some a → path.IsChain w.Names →
        (∀ c ∈ path, w.IsFormula c) → path.length ≤ limits.maxDepth) →
      (∀ cells : List Address, cells.Nodup → (∀ c ∈ cells, w.IsFormula c ∧ w.Reaches a c) →
        cells.length ≤ limits.maxEvaluations) →
      engine.evaluateCell g a = w.plainValue a) := by
  intro engine w _ hfinite
  have hw : w.functions.Strict := Engine.standard_strict limits g
  have ha : w.Grounded a := by
    rw [grounded_iff]
    rintro ⟨p, hp, hnames⟩
    obtain ⟨n, hn⟩ := hfinite p hp
    exact hn (hnames n)
  refine ⟨fun b hb => (ha.of_reaches hb).plainValue_eq, cellValue_of_grounded hw ha, ?_⟩
  intro hpaths hfew
  rw [Engine.evaluateCell_eq]
  exact cellValue_eq_plainValue hw (within_of_paths hpaths) hfew

namespace SharedCell

def a1 : Address := ⟨0, 0⟩

def b1 : Address := ⟨0, 1⟩

def c1 : Address := ⟨0, 2⟩

def d1 : Address := ⟨0, 3⟩

/-- `A1` names `B1` and `C1`, and `B1` names `C1` as well. -/
def content : Grid := fun a =>
  if a = a1 then some (.formula "=B1-C1")
  else if a = b1 then some (.formula "=-C1")
  else if a = c1 then some (.formula "=-D1")
  else if a = d1 then some (.literal (.int 5))
  else some .blank

/-- Three formula cells may be on the way, and three may be evaluated. -/
def limits : Limits :=
  { maxDepth := 3, maxEvaluations := 3 }

def setting : Setting :=
  (Engine.standard limits).setting content

def difference : Expr :=
  .binary .subtract (.cell ⟨b1, false, false⟩) (.cell ⟨c1, false, false⟩)

def negated (a : Address) : Expr :=
  .unary .negate (.cell ⟨a, false, false⟩)

theorem holds_a1 : setting.Holds a1 difference :=
  .of_tokens [⟨.cell ⟨b1, false, false⟩, "B1", 0⟩, ⟨.op .minus, "-", 2⟩,
    ⟨.cell ⟨c1, false, false⟩, "C1", 3⟩, ⟨.eof, "", 5⟩]
    rfl (by decide +kernel) (by decide +kernel) rfl

theorem holds_b1 : setting.Holds b1 (negated c1) :=
  .of_tokens [⟨.op .minus, "-", 0⟩, ⟨.cell ⟨c1, false, false⟩, "C1", 1⟩, ⟨.eof, "", 3⟩]
    rfl (by decide +kernel) (by decide +kernel) rfl

theorem holds_c1 : setting.Holds c1 (negated d1) :=
  .of_tokens [⟨.op .minus, "-", 0⟩, ⟨.cell ⟨d1, false, false⟩, "D1", 1⟩, ⟨.eof, "", 3⟩]
    rfl (by decide +kernel) (by decide +kernel) rfl

variable {a b : Address}

theorem mem_of_isFormula (h : setting.IsFormula a) : a ∈ [a1, b1, c1] := by
  obtain ⟨source, h⟩ := h
  by_contra hnone
  simp only [List.mem_cons, List.not_mem_nil, or_false, not_or] at hnone
  obtain ⟨ha, hb, hc⟩ := hnone
  have hcontent : content a = some (.literal (.int 5)) ∨ content a = some .blank := by
    unfold content
    rw [if_neg ha, if_neg hb, if_neg hc]
    split
    · exact .inl rfl
    · exact .inr rfl
  rcases hcontent with hd | hd <;> exact nomatch hd.symm.trans h

/-- Formulas name cells to their right only. -/
theorem col_lt_of_names (h : setting.Names a b) : a.col < b.col := by
  obtain ⟨e, he, hb, -⟩ := h
  have ha := mem_of_isFormula he.isFormula
  simp only [List.mem_cons, List.not_mem_nil, or_false] at ha
  rcases ha with rfl | rfl | rfl
  · obtain rfl := he.unique holds_a1
    rcases List.mem_cons.mp hb with rfl | hb
    · decide
    · obtain rfl := List.mem_singleton.mp hb
      decide
  · obtain rfl := he.unique holds_b1
    obtain rfl := List.mem_singleton.mp hb
    decide
  · obtain rfl := he.unique holds_c1
    obtain rfl := List.mem_singleton.mp hb
    decide

theorem not_circular : ¬setting.Circular a := by
  rintro ⟨c, -, hcc⟩
  have hlt : c.col < c.col := Relation.TransGen.rec (motive := fun b _ => c.col < b.col)
    col_lt_of_names (fun _ hbc ih => UInt32.lt_trans ih (col_lt_of_names hbc)) hcc
  exact UInt32.lt_irrefl _ hlt

/-- A way that goes on for ever would leave the columns. -/
theorem way_ends (p : Nat → Address) : ∃ n, ¬setting.Names (p n) (p (n + 1)) := by
  by_contra! hnames
  have hcol : ∀ n, n ≤ (p n).col.toNat := fun n => by
    induction n with
    | zero => exact Nat.zero_le _
    | succ n ih =>
      exact Nat.lt_of_le_of_lt ih (UInt32.lt_iff_toNat_lt.mp (col_lt_of_names (hnames n)))
  exact Nat.not_le_of_lt (p UInt32.size).col.toNat_lt (hcol UInt32.size)

/-- There are no more than three different formula cells. -/
theorem length_le_three {cells : List Address} (hnodup : cells.Nodup)
    (hcells : ∀ c ∈ cells, setting.IsFormula c) : cells.length ≤ 3 :=
  (hnodup.subperm fun c hc => mem_of_isFormula (hcells c hc)).length_le

theorem nodup_of_isChain {path : List Address} (h : path.IsChain setting.Names) : path.Nodup := by
  have hcols : (path.map Address.col).IsChain (· < ·) :=
    (List.isChain_map _).mpr (h.imp fun _ _ => col_lt_of_names)
  exact List.Nodup.of_map Address.col (hcols.pairwise.imp UInt32.ne_of_lt)

theorem within (a : Address) : setting.Within 3 a :=
  within_of_paths fun _ _ hchain hform => length_le_three (nodup_of_isChain hchain) hform

theorem fewFrom (a : Address) : setting.FewFrom a :=
  fun _ hnodup hcells => length_le_three hnodup fun c hc => (hcells c hc).1

theorem plainValue_c1 : setting.plainValue c1 = .int (-5) := by
  have hd1 : setting.plainValue d1 = .int 5 :=
    Grounded.plainValue_eq (grounded_of_not_isFormula fun ⟨_, h⟩ => nomatch h)
  refine (within c1).grounded.plainValue_eq.trans (holds_c1.valueFrom.trans ?_)
  show finalize (UnaryOp.negate.apply (setting.plainValue d1)) = _
  rw [hd1]
  rfl

theorem plainValue_b1 : setting.plainValue b1 = .int 5 := by
  refine (within b1).grounded.plainValue_eq.trans (holds_b1.valueFrom.trans ?_)
  show finalize (UnaryOp.negate.apply (setting.plainValue c1)) = _
  rw [plainValue_c1]
  rfl

theorem plainValue_a1 : setting.plainValue a1 = .int 10 := by
  refine (within a1).grounded.plainValue_eq.trans (holds_a1.valueFrom.trans ?_)
  show finalize (difference.valueFrom setting setting.plainValue) = _
  rw [difference, Expr.valueFrom_binary]
  show finalize (BinaryOp.subtract.apply limits (setting.plainValue b1) (setting.plainValue c1)) = _
  rw [plainValue_b1, plainValue_c1]
  rfl

end SharedCell

open SharedCell in
/-- The cell that is named twice is evaluated once, so three evaluations are enough. -/
theorem guarded_evaluation_is_plain_shared_cell :
    ¬setting.Circular a1 ∧ (Engine.standard limits).evaluateCell content a1 = .int 10 := by
  obtain ⟨-, -, hfresh⟩ :=
    guarded_evaluation_is_plain limits content a1 not_circular fun p _ => way_ends p
  refine ⟨not_circular, (hfresh ?_ ?_).trans plainValue_a1⟩
  · exact fun path _ hchain hform => length_le_three (nodup_of_isChain hchain) hform
  · exact fun cells hnodup hcells => length_le_three hnodup fun c hc => (hcells c hc).1

end Spreadsheet
