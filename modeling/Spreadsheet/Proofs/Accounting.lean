import Mathlib.Data.List.Perm.Subperm
import Spreadsheet.Proofs.Alarms
import Spreadsheet.Proofs.CleanCalls

/-!
# What an answer costs

An answer without errors has one price, whatever the order in which the cells are met. No guard
stops any cell, nothing is left out that an expression names, and every formula cell is computed
where it is first met and remembered from then on. So each of the formula cells that can be reached
is entered once, and the grid is looked at for each cell that is asked for and for each cell that
one of their formulas names, as often as it names it.

Results:
1. `Charged.append`, `Charged.enter`: costs add up, and a cell adds itself and what it names;
2. `Charged.mem_iff`: what a fresh session enters is what can be reached;
3. `Call.Enters.charged`: what a tree of calls without errors costs;
4. `clean_answers_cost_what_they_reach`: what an answer costs.
-/

namespace Spreadsheet

open Value Formula

variable {w : Setting} {s s' s'' : Session} {a : Address}

/-! ## What calls cost -/

namespace Session

@[simp] theorem leave_lookups : (s.leave a).lookups = s.lookups := rfl

@[simp] theorem remember_lookups {v : Value} : (s.remember a v).lookups = s.lookups := by
  by_cases h : Lasting v
  · rw [remember_of_lasting h]
  · rw [remember_of_not_lasting h]

theorem count_looked (b : Address) :
    (s.looked a).lookups.count b = s.lookups.count b + [a].count b := by
  show ([a] ++ s.lookups).count b = _
  rw [List.count_append, Nat.add_comm]

theorem remember_memo_ne_none {b : Address} {v : Value} (h : Lasting v) :
    (s.remember a v).memo[b]? ≠ none ↔ s.memo[b]? ≠ none ∨ b = a := by
  rw [remember_of_lasting h, Std.HashMap.getElem?_insert]
  by_cases hab : a = b
  · simp [hab]
  · have hne : b ≠ a := fun h => hab h.symm
    simp [hab, hne]

end Session

namespace Setting

/-- The cells that the formula of a cell names, as often as it names them. -/
def named (w : Setting) (a : Address) : List Address :=
  match w.grid a with
  | some (.formula source) =>
    match Expr.ofText w.limits.maxNesting source with
    | .ok e => e.cells
    | .error _ => []
  | _ => []

theorem named_of_holds {e : Expr} (h : w.Holds a e) : w.named a = e.cells := by
  obtain ⟨source, hg, he⟩ := h
  simp only [named, hg, he]

theorem Names.mem_named {b : Address} (h : w.Names a b) : b ∈ w.named a := by
  obtain ⟨e, he, hb, -⟩ := h
  rw [named_of_holds he]
  exact hb

theorem FormulaFrom.isFormula_start {start : Address} (h : w.FormulaFrom start a) :
    w.IsFormula start := by
  obtain ⟨hform, hreach⟩ := h
  rcases Relation.ReflTransGen.cases_head hreach with rfl | ⟨b, hnames, -⟩
  · exact hform
  · exact hnames.isFormula

/-- What is reached from the cells that a formula names is reached from its cell. -/
theorem FormulaFromAny.of_holds {e : Expr} {b : Address} (he : w.Holds a e)
    (h : w.FormulaFromAny e.cells b) : w.FormulaFrom a b := by
  obtain ⟨r, hr, hfrom⟩ := h
  exact ⟨hfrom.1, hfrom.2.head ⟨e, he, hr, hfrom.isFormula_start⟩⟩

end Setting

open Setting

/-- From one session to the next one the cells of `reads` were asked for and the formula cells of
`cells` were entered, none of them twice: the grid was looked at for the former and for all that the
latter name, and the latter are what is remembered in addition. -/
structure Charged (w : Setting) (reads cells : List Address) (s s' : Session) : Prop where
  visiting : s'.visiting = s.visiting
  lookups : ∀ a, s'.lookups.count a =
    s.lookups.count a + reads.count a + (cells.flatMap w.named).count a
  memo : ∀ a : Address, s'.memo[a]? ≠ none ↔ s.memo[a]? ≠ none ∨ a ∈ cells
  nodup : cells.Nodup
  fresh : ∀ a ∈ cells, s.memo[a]? = none ∧ a ∉ s.visiting
  reached : ∀ a ∈ cells, w.FormulaFromAny reads a
  read : ∀ a ∈ reads, w.IsFormula a → s'.memo[a]? ≠ none
  named : ∀ a ∈ cells, ∀ b ∈ w.named a, w.IsFormula b → s'.memo[b]? ≠ none

namespace Charged

variable {reads reads' cells cells' : List Address}

theorem refl (w : Setting) (s : Session) : Charged w [] [] s s where
  visiting := rfl
  lookups _ := rfl
  memo a := by simp
  nodup := List.nodup_nil
  fresh := nofun
  reached := nofun
  read := nofun
  named := nofun

/-- A cell is looked at that need not be entered. -/
theorem looked (h : w.IsFormula a → s.memo[a]? ≠ none) : Charged w [a] [] s (s.looked a) where
  visiting := rfl
  lookups := Session.count_looked
  memo b := by simp
  nodup := List.nodup_nil
  fresh := nofun
  reached := nofun
  read := List.forall_mem_singleton.mpr h
  named := nofun

/-- What is entered later was not remembered before. -/
theorem append (h : Charged w reads cells s s') (h' : Charged w reads' cells' s' s'') :
    Charged w (reads ++ reads') (cells ++ cells') s s'' where
  visiting := h'.visiting.trans h.visiting
  lookups a := by
    rw [h'.lookups a, h.lookups a, List.flatMap_append, List.count_append, List.count_append]
    omega
  memo a := by rw [h'.memo a, h.memo a, List.mem_append, or_assoc]
  nodup := by
    refine List.nodup_append.mpr ⟨h.nodup, h'.nodup, ?_⟩
    rintro a ha _ ha' rfl
    exact (h.memo a).mpr (.inr ha) (h'.fresh a ha').1
  fresh a ha := by
    rcases List.mem_append.mp ha with ha | ha
    · exact h.fresh a ha
    · obtain ⟨hm, hv⟩ := h'.fresh a ha
      refine ⟨?_, h.visiting ▸ hv⟩
      by_contra hne
      exact (h.memo a).mpr (.inl hne) hm
  reached a ha := by
    rcases List.mem_append.mp ha with ha | ha
    · obtain ⟨r, hr, hfrom⟩ := h.reached a ha
      exact ⟨r, List.mem_append_left _ hr, hfrom⟩
    · obtain ⟨r, hr, hfrom⟩ := h'.reached a ha
      exact ⟨r, List.mem_append_right _ hr, hfrom⟩
  read a ha hform := by
    rcases List.mem_append.mp ha with ha | ha
    · exact (h'.memo a).mpr (.inl (h.read a ha hform))
    · exact h'.read a ha hform
  named a ha b hb hform := by
    rcases List.mem_append.mp ha with ha | ha
    · exact (h'.memo b).mpr (.inl (h.named a ha b hb hform))
    · exact h'.named a ha b hb hform

/-- A cell is entered, all that its formula names is read, and the cell is remembered. -/
theorem enter {e : Expr} {v : Value} (he : w.Holds a e) (hm : s.memo[a]? = none)
    (hv : a ∉ s.visiting) (h : Charged w e.cells cells ((s.looked a).enter a) s')
    (hlast : Session.Lasting v) :
    Charged w [a] (a :: cells) s ((s'.leave a).remember a v) where
  visiting := by
    rw [Session.remember_visiting, Session.leave_visiting, h.visiting, Session.enter_visiting,
      List.erase_cons_head, Session.looked_visiting]
  lookups b := by
    have hlooked : ((s.looked a).enter a).lookups.count b = s.lookups.count b + [a].count b :=
      Session.count_looked b
    rw [Session.remember_lookups, Session.leave_lookups, h.lookups b, hlooked, List.flatMap_cons,
      List.count_append, named_of_holds he]
    omega
  memo b := by
    rw [Session.remember_memo_ne_none hlast, Session.leave_memo, h.memo b, Session.enter_memo,
      Session.looked_memo, List.mem_cons]
    tauto
  nodup := by
    refine List.nodup_cons.mpr ⟨fun hmem => ?_, h.nodup⟩
    exact (h.fresh a hmem).2 List.mem_cons_self
  fresh := by
    refine List.forall_mem_cons.mpr ⟨⟨hm, hv⟩, fun b hb => ?_⟩
    obtain ⟨hmb, hvb⟩ := h.fresh b hb
    exact ⟨hmb, fun hmem => hvb (List.mem_cons_of_mem a hmem)⟩
  reached := by
    refine List.forall_mem_cons.mpr ⟨⟨a, List.mem_cons_self, he.isFormula, .refl⟩, fun b hb => ?_⟩
    exact ⟨a, List.mem_cons_self, (h.reached b hb).of_holds he⟩
  read := by
    refine List.forall_mem_singleton.mpr fun _ => ?_
    exact (Session.remember_memo_ne_none hlast).mpr (.inr rfl)
  named := by
    have hkept : ∀ b, s'.memo[b]? ≠ none → ((s'.leave a).remember a v).memo[b]? ≠ none :=
      fun b hb => (Session.remember_memo_ne_none hlast).mpr (.inl hb)
    refine List.forall_mem_cons.mpr ⟨fun b hb hform => ?_, fun c hc b hb hform => ?_⟩
    · rw [named_of_holds he] at hb
      exact hkept b (h.read b hb hform)
    · exact hkept b (h.named c hc b hb hform)

/-- A fresh session enters all formula cells that can be reached, and no others. -/
theorem mem_iff (h : Charged w reads cells {} s') : a ∈ cells ↔ w.FormulaFromAny reads a := by
  have hmemo : ∀ b : Address, s'.memo[b]? ≠ none → b ∈ cells := by
    intro b hb
    exact ((h.memo b).mp hb).resolve_left (by simp)
  refine ⟨h.reached a, ?_⟩
  rintro ⟨r, hr, hfrom⟩
  have hstart := hmemo r (h.read r hr hfrom.isFormula_start)
  obtain ⟨-, hreach⟩ := hfrom
  induction hreach with
  | refl => exact hstart
  | tail _ hnames ih => exact hmemo _ (h.named _ ih _ hnames.mem_named hnames.isFormula_right)

end Charged

namespace Call

/-- What a call without errors costs: its own entry and what the calls that it makes cost. -/
theorem charged_run (hw : w.functions.Strict) {c : Call} {within : List Address} (h : s.Valid w)
    (hclean : c.Clean w s) (hmade : Enters w (made w (c, s)) within)
    (hcalls : (c.inner s).Valid w → (∀ q ∈ made w (c, s), q.1.Clean w q.2) →
      Charged w ((c.calls w s).flatMap reads) within (c.inner s)
        (runAll w (c.calls w s) (c.inner s))) :
    Charged w c.reads (entry w (c, s) ++ within) s (c.run w s) := by
  cases c with
  | evaluate e =>
    obtain ⟨hall, hreads⟩ := evaluate_clean hw h hclean
    have hcharged : Charged w ((e.calls w s).flatMap reads) within s (runAll w (e.calls w s) s) :=
      hcalls h hall
    rw [hreads] at hcharged
    rw [evaluate_run_eq_runAll h]
    exact hcharged
  | range maxCells first last =>
    obtain ⟨hall, hreads⟩ := range_clean h hclean
    have hcharged := hcalls h hall
    rw [hreads] at hcharged
    rw [range_run_eq_runAll h]
    exact hcharged
  | cell a =>
    by_cases hadmits : w.IsFormula a ∧ s.Admits w a
    · obtain ⟨hform, hadmits⟩ := hadmits
      obtain ⟨e, v, he, hlast, hinner, hcall, hrun⟩ := cell_clean_of_admits hform hadmits hclean
      have hall : ∀ q ∈ made w (cell a, s), q.1.Clean w q.2 := by
        rw [made, hcall]
        exact List.forall_mem_singleton.mpr hinner
      have hcharged := hcalls (h.enter_of_admits hadmits) hall
      rw [hcall, List.flatMap_singleton] at hcharged
      rw [hrun, entry_of_admits hform hadmits]
      exact .enter he (Option.isNone_iff_eq_none.mp hadmits.1) hadmits.2.1 hcharged hlast
    · rw [not_and] at hadmits
      rw [made_of_not_admits hadmits] at hmade
      cases hmade
      rw [cell_run_of_not_admits hadmits, entry_of_not_admits hadmits]
      exact .looked fun hform => cell_clean_of_not_admits hform (hadmits hform) hclean

/-- Calls without errors cost what they enter and ask for. -/
theorem Enters.charged (hw : w.functions.Strict) {cs : List Call} {cells : List Address}
    (h : s.Valid w) (henters : Enters w (inTurn w cs s) cells)
    (hclean : ∀ q ∈ inTurn w cs s, q.1.Clean w q.2) :
    Charged w (cs.flatMap reads) cells s (runAll w cs s) := by
  refine Enters.inTurn_induction (P := fun cs s cells => (∀ q ∈ inTurn w cs s, q.1.Clean w q.2) →
    Charged w (cs.flatMap reads) cells s (runAll w cs s)) (fun s _ => .refl w s) ?_ h henters hclean
  intro c cs s within behind hs hmade hcalls hrest hclean
  obtain ⟨hfirst, hothers⟩ := List.forall_mem_cons.mp hclean
  exact (charged_run hw hs hfirst hmade hcalls).append (hrest hothers)

end Call

/-! ## What an answer costs -/

namespace Question

/-- The call that a question is. -/
def call : Question → Call
  | .cell a => .cell a
  | .expression e => .evaluate e

theorem ask_session (w : Setting) (q : Question) : (q.ask w s).2 = q.call.run w s := by
  cases q <;> rfl

theorem reads_call (q : Question) : q.call.reads = q.cells := by
  cases q <;> rfl

theorem call_clean {q : Question} (h : (q.ask w s).1.fault? = none) : q.call.Clean w s := by
  cases q <;> exact h

/-- An answer without errors costs what it enters and asks for. -/
theorem charged (hw : w.functions.Strict) {q : Question} (h : (q.ask w {}).1.fault? = none) :
    ∃ cells, Call.Enters w [(q.call, {})] cells ∧ Charged w q.cells cells {} (q.ask w {}).2 ∧
      (q.ask w {}).2.evaluations = cells.length := by
  have hstart : ({} : Session).Valid w := Session.valid_reset w {}
  obtain ⟨cells, henters⟩ := Call.exists_enters q.call hstart
  have hinTurn : Call.Enters w (Call.inTurn w [q.call] {}) cells := henters
  have hcharged := hinTurn.charged hw hstart (List.forall_mem_singleton.mpr (call_clean h))
  rw [List.flatMap_singleton, reads_call] at hcharged
  have hcount := hinTurn.evaluations_eq hstart
  rw [ask_session]
  exact ⟨cells, henters, hcharged, hcount.trans (Nat.zero_add _)⟩

end Question

/-- What a question costs that a fresh session answers without an error. The formula cells that are
entered are those that can be reached, each once, and so many evaluations are counted. The grid is
looked at for the cells that are asked for and for those that the formulas of the former cells name,
as often as each formula names them. So where more formula cells can be reached than may be
evaluated, the answer has an error. -/
theorem clean_answers_cost_what_they_reach (limits : Limits) (g : Grid) (q : Question) :
    let w := (Engine.standard limits).setting g
    let s := (q.ask w {}).2
    ((q.ask w {}).1.fault? = none → ∃ cells : List Address,
      Call.Enters w [(q.call, {})] cells ∧ cells.Nodup ∧
      (∀ a, a ∈ cells ↔ w.FormulaFromAny q.cells a) ∧ s.evaluations = cells.length ∧
      s.lookups.Perm (q.cells ++ cells.flatMap w.named) ∧
      s.lookups.length = q.cells.length + (cells.map fun a => (w.named a).length).sum) ∧
    ∀ cells : List Address, cells.Nodup → (∀ a ∈ cells, w.FormulaFromAny q.cells a) →
      limits.maxEvaluations < cells.length → (q.ask w {}).1.fault? ≠ none := by
  intro w s
  have hw : w.functions.Strict := Engine.standard_strict limits g
  refine ⟨fun hclean => ?_, fun cells hnodup hcells hmany hclean => ?_⟩
  · obtain ⟨cells, henters, hcharged, hcount⟩ := q.charged hw hclean
    have hperm : s.lookups.Perm (q.cells ++ cells.flatMap w.named) := by
      refine List.perm_iff_count.mpr fun a => ?_
      rw [hcharged.lookups a, List.count_append]
      simp
    refine ⟨cells, henters, hcharged.nodup, fun a => hcharged.mem_iff, hcount, hperm, ?_⟩
    rw [hperm.length_eq, List.length_append, List.length_flatMap]
  · obtain ⟨entered, -, hcharged, hcount⟩ := q.charged hw hclean
    have hsubset : cells ⊆ entered := fun a ha => hcharged.mem_iff.mpr (hcells a ha)
    have hlength : cells.length ≤ entered.length := (hnodup.subperm hsubset).length_le
    have hbudget : (q.ask w {}).2.evaluations ≤ limits.maxEvaluations := by
      rw [Question.ask_session]
      exact (Call.run_keeps (Session.valid_reset w {}) q.call).1.evaluations_le
    omega

namespace OneFormula

def a1 : Address := ⟨0, 0⟩

def b1 : Address := ⟨0, 1⟩

/-- `A1` is the negative of `B1`, and there is no other formula. -/
def content : Grid := fun a =>
  if a = a1 then some (.formula "=-B1")
  else if a = b1 then some (.literal (.int 5))
  else some .blank

/-- One formula cell may be on the way, and one may be evaluated. -/
def limits : Limits :=
  { maxDepth := 1, maxEvaluations := 1 }

def setting : Setting :=
  (Engine.standard limits).setting content

def negated : Expr :=
  .unary .negate (.cell ⟨b1, false, false⟩)

theorem holds_a1 : setting.Holds a1 negated :=
  .of_tokens [⟨.op .minus, "-", 0⟩, ⟨.cell ⟨b1, false, false⟩, "B1", 1⟩, ⟨.eof, "", 3⟩]
    rfl (by decide +kernel) (by decide +kernel) rfl

theorem eq_a1_of_isFormula {a : Address} (h : setting.IsFormula a) : a = a1 := by
  obtain ⟨source, h⟩ := h
  by_contra hne
  have hcontent : content a = some (.literal (.int 5)) ∨ content a = some .blank := by
    unfold content
    rw [if_neg hne]
    split
    · exact .inl rfl
    · exact .inr rfl
  rcases hcontent with hc | hc <;> exact nomatch hc.symm.trans h

/-- `A1+A1`: the formula of `A1` is met twice. -/
def twice : Expr :=
  .binary .add (.cell ⟨a1, false, false⟩) (.cell ⟨a1, false, false⟩)

/-- The session behind the first look at `A1`. -/
def once : Session :=
  ((Session.looked b1 ((Session.looked a1 {}).enter a1)).leave a1).remember a1 (.int (-5))

theorem value_a1 : Cell.value setting 1 a1 {} = (.int (-5), once) := by
  have hb1 : ∀ s, Cell.value setting 0 b1 s = (.int 5, s.looked b1) := fun s =>
    Cell.value_of_not_isFormula 0 (fun ⟨_, h⟩ => nomatch h) fun _ => .empty
  have hnegated : ∀ s, negated.value setting (Cell.value setting 0) s =
      (.int (-5), s.looked b1) := by
    intro s
    rw [negated, Expr.value_unary]
    show (UnaryOp.negate.apply (Cell.value setting 0 b1 s).1, (Cell.value setting 0 b1 s).2) = _
    rw [hb1]
    rfl
  rw [Cell.value_succ_of_holds 0 holds_a1 (by simp) (by simp) (by decide), hnegated]
  rfl

theorem ask_twice : ((Question.expression twice).ask setting {}).1.fault? = none := by
  have hmemo : once.memo[a1]? = some (.int (-5)) := by
    rw [once, Session.remember_of_lasting (Session.lasting_of_fault?_eq_none rfl)]
    exact Std.HashMap.getElem?_insert_self
  have hagain : Cell.value setting 1 a1 once = (.int (-5), once.looked a1) :=
    Cell.value_of_remembered 1 holds_a1.isFormula hmemo
  show (twice.value setting (Cell.value setting 1) {}).1.fault? = none
  rw [twice, Expr.value_binary]
  show (Expr.afterLeft setting .add (Cell.value setting 1 a1 {}).1 (Cell.value setting 1 a1)
    (Cell.value setting 1 a1 {}).2).1.fault? = none
  rw [value_a1]
  show (BinaryOp.add.apply limits (.int (-5)) (Cell.value setting 1 a1 once).1).fault? = none
  rw [hagain]
  rfl

end OneFormula

open OneFormula in
/-- A formula that is met twice is entered once, and only its cell is looked at again. Where no
evaluation is allowed, the answer has an error. -/
theorem clean_answers_cost_what_they_reach_one_formula :
    let q := Question.expression twice
    (q.ask setting {}).1.fault? = none ∧ (q.ask setting {}).2.evaluations = 1 ∧
      (q.ask setting {}).2.lookups.Perm [a1, a1, b1] ∧
      (q.ask ((Engine.standard { maxEvaluations := 0 }).setting content) {}).1.fault? ≠ none := by
  intro q
  have hfrom : ∀ w : Setting, w.IsFormula a1 → w.FormulaFromAny q.cells a1 := fun w hform =>
    ⟨a1, List.mem_cons_self, hform, .refl⟩
  obtain ⟨hclean, -⟩ := clean_answers_cost_what_they_reach limits content q
  obtain ⟨-, hmany⟩ := clean_answers_cost_what_they_reach { maxEvaluations := 0 } content q
  obtain ⟨cells, -, hnodup, hcells, hcount, hlookups, -⟩ := hclean ask_twice
  have hperm : cells.Perm [a1] := by
    refine (List.perm_ext_iff_of_nodup hnodup (List.nodup_singleton a1)).mpr fun a => ?_
    rw [hcells a, List.mem_singleton]
    constructor
    · rintro ⟨_, _, hform, _⟩
      exact eq_a1_of_isFormula hform
    · rintro rfl
      exact hfrom setting holds_a1.isFormula
  obtain rfl := List.perm_singleton.mp hperm
  have hnamed : ((Engine.standard limits).setting content).named a1 = [b1] :=
    named_of_holds holds_a1
  rw [List.flatMap_singleton, hnamed] at hlookups
  refine ⟨ask_twice, hcount, hlookups, hmany [a1] (List.nodup_singleton a1) ?_ Nat.zero_lt_one⟩
  exact List.forall_mem_singleton.mpr (hfrom _ ⟨"=-B1", rfl⟩)

end Spreadsheet
