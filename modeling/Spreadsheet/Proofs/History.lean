import Spreadsheet.Engine
import Spreadsheet.Proofs.Sound

/-!
# One session, many questions

A session can be asked for cells and for expressions, one after the other, and what it remembers
from one question it uses for the next. These theorems say how much of that history can be seen in
an answer.

Where no cycle can be reached it cannot be seen at all, but for the two limits. Where a cycle can
be reached every answer is an error, yet which error it is may depend on the history: a cell that
is finished while another cell of its cycle is on the way is remembered as `#CYCLE!`, although on
its own it may be worth an error that stands before that cycle (`cycle_error_is_remembered`).

Results:
1. `soundAt_after`: every session that can be reached is sound;
2. `cellValue_of_grounded`: what is said of a cell from which no cycle can be reached;
3. `cellValue_of_circular`, `evaluateRoot_of_circular`: what is said of cycles;
4. `history_seen_only_on_cycles`: when two answers to one question can differ at all.
-/

namespace Spreadsheet

open Formula Setting

/-! ## Questions -/

/-- What a session can be asked for. -/
inductive Question where
  | cell (a : Address)
  | expression (e : Expr)

namespace Question

/-- Asks a session, which remembers. -/
def ask (w : Setting) : Question → Eval Value
  | .cell a => Session.cellValue w a
  | .expression e => Session.evaluate w e

/-- The cells that are asked for. -/
def cells : Question → List Address
  | .cell a => [a]
  | .expression e => e.cells

/-- The answer from given values of the cells. -/
def valueFrom (w : Setting) (f : Address → Value) : Question → Value
  | .cell a => f a
  | .expression e => e.valueFrom w f

/-- What a sound session may answer: what the cells give in any completion, up to stray errors. -/
def Answer (w : Setting) (q : Question) (v : Value) : Prop :=
  ∀ f, w.Completes f → Close (w.Stray q.cells) v (q.valueFrom w f)

end Question

/-- What can happen to a session between two questions. -/
inductive Step where
  | question (q : Question)
  | range (maxCells : Nat) (first last : Reference)
  /-- A whole formula, behind which the session starts anew. -/
  | formula (e : Expr)
  /-- A cell as the start of a way, behind which the session starts anew. -/
  | start (a : Address)
  | reset

def Step.run (w : Setting) (s : Session) : Step → Session
  | .question q => (q.ask w s).2
  | .range maxCells first last => (Session.resolveRange w maxCells first last s).2
  | .formula e => (Session.evaluateRoot w e s).2
  | .start a => (Session.evaluateCellRoot w a s).2
  | .reset => s.reset

/-- The session that some steps lead to. -/
def Session.after (w : Setting) (steps : List Step) : Session :=
  steps.foldl (Step.run w) {}

variable {w : Setting}

theorem soundAt_reset (s : Session) : w.SoundAt [] s.reset :=
  ⟨sound_empty, rfl⟩

theorem Setting.Answer.question {a : Address} {v : Value} (h : w.Answer a v) :
    (Question.cell a).Answer w v :=
  fun _ hf => .near (h.near (List.mem_singleton.mpr rfl) hf)

theorem Question.ask_ensures (hw : w.functions.Strict) (q : Question) :
    Ensures (w.SoundAt []) (q.ask w) (q.Answer w) := by
  cases q with
  | cell a => exact (Session.cellValue_ensures hw a).mono fun v hv => hv.question
  | expression e =>
    exact fun s hs =>
      ⟨(Session.evaluate_ensures hw e (completes_completion .empty) s hs).1,
        fun f hf => (Session.evaluate_ensures hw e hf s hs).2⟩

theorem Step.run_soundAt (hw : w.functions.Strict) {s : Session} (hs : w.SoundAt [] s)
    (step : Step) : w.SoundAt [] (step.run w s) := by
  cases step with
  | question q => exact (q.ask_ensures hw s hs).1
  | range maxCells first last => exact (Session.resolveRange_ensures hw maxCells first last s hs).1
  | formula e => exact soundAt_reset _
  | start a => exact soundAt_reset _
  | reset => exact soundAt_reset s

theorem foldl_run_soundAt (hw : w.functions.Strict) {s : Session} (hs : w.SoundAt [] s)
    (steps : List Step) : w.SoundAt [] (steps.foldl (Step.run w) s) := by
  induction steps generalizing s with
  | nil => exact hs
  | cons step steps ih => exact ih (step.run_soundAt hw hs)

theorem soundAt_after (hw : w.functions.Strict) (steps : List Step) :
    w.SoundAt [] (Session.after w steps) :=
  foldl_run_soundAt hw ⟨sound_empty, rfl⟩ steps

/-! ## Without cycles -/

theorem isPathDependent_iff {x : CellError} :
    x.isPathDependent = true ↔ x = .depth ∨ x = .calc := by
  cases x <;> simp [CellError.isPathDependent]

theorem Setting.Answer.of_grounded {a : Address} {v : Value} (h : w.Answer a v)
    (ha : w.Grounded a) : v = w.plainValue a ∨ v = .error .depth ∨ v = .error .calc := by
  rcases h with hd | ⟨x, hx, rfl⟩
  · exact .inl (ha.decided_iff.mp hd)
  · rcases stray_singleton_iff.mp hx with hpath | ⟨-, hcirc⟩
    · rcases isPathDependent_iff.mp hpath with rfl | rfl
      · exact .inr (.inl rfl)
      · exact .inr (.inr rfl)
    · exact absurd hcirc ha.not_circular

/-- From a grounded cell every session reads its plain value or the error of a limit. -/
theorem cellValue_of_grounded (hw : w.functions.Strict) {a : Address} (ha : w.Grounded a)
    (steps : List Step) :
    (Session.cellValue w a (Session.after w steps)).1 = w.plainValue a ∨
      (Session.cellValue w a (Session.after w steps)).1 = .error .depth ∨
      (Session.cellValue w a (Session.after w steps)).1 = .error .calc :=
  (Session.cellValue_ensures hw a _ (soundAt_after hw steps)).2.of_grounded ha

/-! ## With cycles -/

theorem Setting.Answer.error_of_circular (hw : w.functions.Strict) {a : Address} {v : Value}
    (h : w.Answer a v) (ha : w.Circular a) : ∃ x, v = .error x := by
  rcases h with hd | ⟨x, -, hv⟩
  · exact hd.error_of_circular hw ha
  · exact ⟨x, hv⟩

/-- From a cell on or upstream of a cycle every session reads an error. -/
theorem cellValue_of_circular (hw : w.functions.Strict) {a : Address} (ha : w.Circular a)
    (steps : List Step) : ∃ x, (Session.cellValue w a (Session.after w steps)).1 = .error x :=
  (Session.cellValue_ensures hw a _ (soundAt_after hw steps)).2.error_of_circular hw ha

/-- Cells on or upstream of a cycle hold errors in the completion by a cycle's error. -/
theorem fault?_completion (hw : w.functions.Strict) {a : Address} (ha : w.Circular a) :
    (w.completion (.error .cycle) a).fault? ≠ none := by
  suffices herror : ∃ x, w.completion (.error .cycle) a = .error x by
    obtain ⟨x, hx⟩ := herror
    rw [hx, Value.fault?_error]
    exact Option.some_ne_none x
  unfold completion
  cases hv : w.decidedValue? a with
  | some v => exact (decidedValue?_eq_some_iff.mp hv).error_of_circular hw ha
  | none => exact ⟨.cycle, rfl⟩

/-- The answer to a question that asks for a cell on or upstream of a cycle holds an error. -/
theorem Question.Answer.fault?_ne_none (hw : w.functions.Strict) {q : Question} {v : Value}
    (h : q.Answer w v) {b : Address} (hb : b ∈ q.cells) (hcirc : w.Circular b) :
    v.fault? ≠ none := by
  refine (h _ (completes_completion (.error .cycle))).fault?_ne_none ?_
  cases q with
  | cell a => exact List.mem_singleton.mp hb ▸ fault?_completion hw hcirc
  | expression e => exact Expr.fault?_valueFrom hw hb (fault?_completion hw hcirc)

/-- A whole formula that names a cell on or upstream of a cycle is worth an error, in every
session. -/
theorem evaluateRoot_of_circular (hw : w.functions.Strict) {e : Expr} {b : Address}
    (hb : b ∈ e.cells) (hcirc : w.Circular b) (steps : List Step) :
    ∃ x, (Session.evaluateRoot w e (Session.after w steps)).1 = .error x :=
  have hanswer : (Question.expression e).Answer w _ :=
    (Question.ask_ensures hw _ _ (soundAt_after hw steps)).2
  finalize_eq_error_of_fault (hanswer.fault?_ne_none hw hb hcirc)

/-! ## When history can be seen -/

/-- Two answers to one question of which one holds the error of a limit, or of which one holds the
error of a cycle that the question can reach; in that case both hold errors. -/
def Question.MayDiffer (w : Setting) (q : Question) (u v : Value) : Prop :=
  (∃ x, x.isPathDependent = true ∧ (.error x ∈ u.leaves ∨ .error x ∈ v.leaves)) ∨
  (∃ b ∈ q.cells, w.Circular b) ∧ (.error .cycle ∈ u.leaves ∨ .error .cycle ∈ v.leaves) ∧
    (∃ x, .error x ∈ u.leaves) ∧ ∃ x, .error x ∈ v.leaves

/-- Two answers to one question are the same, or they may differ. -/
theorem Question.Answer.eq_or_mayDiffer (hw : w.functions.Strict) {q : Question} {u v : Value}
    (hu : q.Answer w u) (hv : q.Answer w v) : u = v ∨ q.MayDiffer w u v := by
  have hstray : ∀ x, w.Stray q.cells x → .error x ∈ u.leaves ∨ .error x ∈ v.leaves →
      q.MayDiffer w u v := by
    rintro x (hx | ⟨rfl, b, hb, hcirc⟩) hmem
    · exact .inl ⟨x, hx, hmem⟩
    · exact .inr ⟨⟨b, hb, hcirc⟩, hmem,
        Value.fault?_ne_none_iff.mp (hu.fault?_ne_none hw hb hcirc),
        Value.fault?_ne_none_iff.mp (hv.fault?_ne_none hw hb hcirc)⟩
  have hf : w.Completes (w.completion .empty) := completes_completion .empty
  rcases (hu _ hf).eq_or_mem_leaves with hequ | ⟨x, hx, hmem⟩
  · rcases (hv _ hf).eq_or_mem_leaves with heqv | ⟨x, hx, hmem⟩
    · exact .inl (hequ.trans heqv.symm)
    · exact .inr (hstray x hx (.inr hmem))
  · exact .inr (hstray x hx (.inl hmem))

/-! ## The standard engine -/

/-- The engine with the standard functions. -/
def Engine.standard (limits : Limits) : Engine :=
  { limits }

namespace Engine

theorem standard_strict (limits : Limits) (g : Grid) :
    ((standard limits).setting g).functions.Strict :=
  Registry.standard_strict

/-- A text that reads as an expression is worth what a fresh session gives for it. -/
theorem evaluateFormula_of_ok (engine : Engine) (g : Grid) {text : String} {e : Expr}
    (h : Expr.ofText engine.limits.maxNesting text = .ok e) :
    engine.evaluateFormula g text = (Session.evaluateRoot (engine.setting g) e {}).1 := by
  rw [evaluateFormula, runFormula, h]
  rfl

theorem evaluateFormula_of_error (engine : Engine) (g : Grid) {text : String} {x : FormulaError}
    (h : Expr.ofText engine.limits.maxNesting text = .error x) :
    engine.evaluateFormula g text = .error x.toCellError := by
  rw [evaluateFormula, runFormula, h]
  rfl

theorem evaluateCell_eq (engine : Engine) (g : Grid) (a : Address) :
    engine.evaluateCell g a = (Session.cellValue (engine.setting g) a {}).1 := rfl

end Engine

/-! ## A cycle behind an error -/

namespace BlockedCycle

def a1 : Address := ⟨0, 0⟩

def c1 : Address := ⟨0, 2⟩

def d1 : Address := ⟨0, 3⟩

/-- `A1` is the negative of `C1:D1`, where `C1` holds an error and `D1` is `A1` again. -/
def content : Grid := fun a =>
  if a = a1 then some (.formula "=-C1:D1")
  else if a = d1 then some (.formula "=A1")
  else if a = c1 then some (.literal (.error .divZero))
  else some .blank

def setting : Setting :=
  (Engine.standard {}).setting content

/-- The expression in `A1`. -/
def negated : Expr :=
  .unary .negate (.range ⟨⟨c1, false, false⟩, ⟨d1, false, false⟩⟩)

/-- The expression in `D1`. -/
def back : Expr :=
  .cell ⟨a1, false, false⟩

theorem holds_a1 : setting.Holds a1 negated :=
  .of_tokens [⟨.op .minus, "-", 0⟩,
      ⟨.range ⟨c1, false, false⟩ ⟨d1, false, false⟩, "C1:D1", 1⟩, ⟨.eof, "", 6⟩]
    rfl (by decide +kernel) (by decide +kernel) rfl

theorem holds_d1 : setting.Holds d1 back :=
  .of_tokens [⟨.cell ⟨a1, false, false⟩, "A1", 0⟩, ⟨.eof, "", 2⟩]
    rfl (by decide +kernel) (by decide +kernel) rfl

theorem names_d1 : setting.Names a1 d1 :=
  ⟨negated, holds_a1, by decide, holds_d1.isFormula⟩

theorem names_a1 : setting.Names d1 a1 :=
  ⟨back, holds_d1, by decide, holds_a1.isFormula⟩

theorem circular_a1 : setting.Circular a1 :=
  circular_of_transGen (.tail (.single names_d1) names_a1)

theorem negated_value (read : Address → Eval Value) (s : Session) : negated.value setting read s =
    (UnaryOp.negate.apply (.array [(read c1 s).1, (read d1 (read c1 s).2).1]),
      (read d1 (read c1 s).2).2) := rfl

theorem back_value (read : Address → Eval Value) (s : Session) :
    back.value setting read s = read a1 s := rfl

theorem value_c1 (room : Nat) (s : Session) :
    Cell.value setting room c1 s = (.error .divZero, s.looked c1) :=
  Cell.value_of_not_isFormula room (fun ⟨_, h⟩ => nomatch h) fun _ => .empty

end BlockedCycle

/-! ## The standard engine and cycles -/

/-- A cyclic dependency never gives a number, a text, a truth value or nothing: not for a cell on a
cycle or upstream of one, whatever was asked before, and not for a formula that names such a
cell. -/
theorem cyclic_dependency_is_error (limits : Limits) (g : Grid) :
    let w := (Engine.standard limits).setting g
    (∀ a, w.Circular a → ∀ steps,
      ∃ x, (Session.cellValue w a (Session.after w steps)).1 = .error x) ∧
    ∀ text e b, Expr.ofText limits.maxNesting text = .ok e → b ∈ e.cells → w.Circular b →
      ∃ x, (Engine.standard limits).evaluateFormula g text = .error x := by
  intro w
  have hw : w.functions.Strict := Engine.standard_strict limits g
  refine ⟨fun a ha steps => cellValue_of_circular hw ha steps, fun text e b he hb hcirc => ?_⟩
  rw [Engine.evaluateFormula_of_ok _ g he]
  exact evaluateRoot_of_circular hw hb hcirc []

open BlockedCycle in
/-- The error of `A1` hides the cycle, and is an error all the same. -/
theorem cyclic_dependency_is_error_blocked :
    setting.Circular a1 ∧
      (∃ x, (Session.cellValue setting a1 (Session.after setting [])).1 = .error x) ∧
      ∃ x, (Engine.standard {}).evaluateFormula content "=A1" = .error x := by
  obtain ⟨hcell, hformula⟩ := cyclic_dependency_is_error {} content
  refine ⟨circular_a1, hcell a1 circular_a1 [], ?_⟩
  obtain ⟨source, hg, he⟩ := holds_d1
  obtain rfl : "=A1" = source := Content.formula.inj (Option.some.inj hg)
  exact hformula "=A1" back a1 he (by decide) circular_a1

/-- The answers of a used session and of a fresh one to the same question are the same, unless one
of them holds the error of a limit, or the question can reach a cycle, one of them holds that
cycle's error and both hold errors. The same is true of everything that is remembered. -/
theorem history_seen_only_on_cycles (limits : Limits) (g : Grid) (steps : List Step) :
    let w := (Engine.standard limits).setting g
    (∀ q : Question, (q.ask w (Session.after w steps)).1 = (q.ask w {}).1 ∨
      q.MayDiffer w (q.ask w (Session.after w steps)).1 (q.ask w {}).1) ∧
    ∀ a v, (Session.after w steps).memo[a]? = some v → v = (Session.cellValue w a {}).1 ∨
      (Question.cell a).MayDiffer w v (Session.cellValue w a {}).1 := by
  intro w
  have hw : w.functions.Strict := Engine.standard_strict limits g
  have hused : w.SoundAt [] (Session.after w steps) := soundAt_after hw steps
  have hfresh : w.SoundAt [] {} := ⟨sound_empty, rfl⟩
  constructor
  · intro q
    exact (q.ask_ensures hw _ hused).2.eq_or_mayDiffer hw (q.ask_ensures hw _ hfresh).2
  · intro a v hv
    exact (hused.1.answer hv).question.eq_or_mayDiffer hw
      ((Question.cell a).ask_ensures hw _ hfresh).2

open BlockedCycle in
/-- Answers do differ, also away from the limits: `D1` is finished while `A1` is on the way and is
remembered as a cycle, but on its own it is worth the error that `A1` meets first. -/
theorem cycle_error_is_remembered :
    (Session.cellValue setting d1 (Session.after setting [.question (.cell a1)])).1 =
        .error .cycle ∧
      (Session.cellValue setting d1 {}).1 = .error .divZero := by
  constructor
  · show (Cell.value setting _ d1 (Cell.value setting 100 a1 {}).2).1 = _
    rw [Cell.value_succ_of_holds 99 holds_a1 (by simp) (by simp) (by decide), negated_value,
      value_c1, Cell.value_succ_of_holds 98 holds_d1 (by simp) (by decide) (by decide),
      back_value, Cell.value_of_mem_visiting 98 holds_a1.isFormula (by simp) (by decide),
      Cell.value_of_remembered _ holds_d1.isFormula]
    show (Std.HashMap.insert (Std.HashMap.insert _ _ _) _ _)[d1]? = _
    rw [Std.HashMap.getElem?_insert, if_neg (by decide), Std.HashMap.getElem?_insert_self]
    rfl
  · show (Cell.value setting 100 d1 {}).1 = _
    rw [Cell.value_succ_of_holds 99 holds_d1 (by simp) (by simp) (by decide), back_value,
      Cell.value_succ_of_holds 98 holds_a1 (by simp) (by decide) (by decide), negated_value,
      value_c1]
    rfl

end Spreadsheet
