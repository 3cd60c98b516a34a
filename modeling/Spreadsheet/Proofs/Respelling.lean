import Spreadsheet.Proofs.Accepting
import Spreadsheet.Proofs.Areas
import Spreadsheet.Proofs.Folding

/-!
# Two spellings of one expression

An expression keeps more of its text than its value depends on: the marks of pinned rows and
columns, the case of the letters of function names, and which two opposite corners of a range were
written, in which order. Two expressions that differ in nothing else are respellings of each other.
They ask for the same cells in the same order and do the same with them.

The grammar does not look at the case of letters either, so tokens that differ only in the case of
their names are phrases of the same shape, with expressions that are respellings.

Results:
1. `RangeRef.area_eq_iff`: the pairs of opposite corners are the ways to write a rectangle;
2. `Expr.Respelled.value_eq`: respellings have the same value, however cells are read;
3. `Phrase.exists_recased`: names in another case leave a phrase one of the same shape;
4. `Expr.exists_respelled_of_ofTokens`: so what is read is a respelling, under the same limit.
-/

namespace Spreadsheet

open Text

/-! ## Corners -/

/-- The second two words are the first two, in either order. -/
def EitherOrder (a b a' b' : UInt32) : Prop :=
  a' = a ∧ b' = b ∨ a' = b ∧ b' = a

theorem eitherOrder_iff {a b a' b' : UInt32} : EitherOrder a b a' b' ↔
    min a'.toNat b'.toNat = min a.toNat b.toNat ∧ max a'.toNat b'.toNat = max a.toNat b.toNat := by
  unfold EitherOrder
  simp only [← UInt32.toNat_inj]
  omega

/-- The second range is written with opposite corners of the same rectangle: with the same two or
with the other two, in either order, whatever is pinned. -/
structure RangeRef.Opposite (r q : RangeRef) : Prop where
  rows : EitherOrder r.first.address.row r.last.address.row q.first.address.row q.last.address.row
  cols : EitherOrder r.first.address.col r.last.address.col q.first.address.col q.last.address.col

/-- Opposite corners are all the ways to write a rectangle. -/
theorem RangeRef.area_eq_iff {r q : RangeRef} : q.area = r.area ↔ r.Opposite q := by
  constructor
  · intro h
    have hrow := congrArg (fun area => (area.first.row.toNat, area.last.row.toNat)) h
    have hcol := congrArg (fun area => (area.first.col.toNat, area.last.col.toNat)) h
    simp only [RangeRef.area, Area.top_ofCorners, Area.bottom_ofCorners, Prod.mk.injEq] at hrow
    simp only [RangeRef.area, Area.left_ofCorners, Area.right_ofCorners, Prod.mk.injEq] at hcol
    exact ⟨eitherOrder_iff.mpr hrow, eitherOrder_iff.mpr hcol⟩
  · rintro ⟨hrows, hcols⟩
    obtain ⟨htop, hbottom⟩ := eitherOrder_iff.mp hrows
    obtain ⟨hleft, hright⟩ := eitherOrder_iff.mp hcols
    apply Area.eq_of_corners <;> apply Address.eq_of_toNat
    · rwa [area, area, Area.top_ofCorners, Area.top_ofCorners]
    · rwa [area, area, Area.left_ofCorners, Area.left_ofCorners]
    · rwa [area, area, Area.bottom_ofCorners, Area.bottom_ofCorners]
    · rwa [area, area, Area.right_ofCorners, Area.right_ofCorners]

/-! ## Names -/

/-- ASCII letters in another case are the same letters in upper case. -/
theorem Text.toUpper_eq_of_sameKeyword {s s' : String} (h : sameKeyword s s' = true) :
    toUpper s = toUpper s' := by
  have hfolded (t : String) : toUpper t = String.ofList ((folded t.toList).flatMap upperChar) := by
    rw [toUpper, folded, List.flatMap_map]
    exact congrArg _ (List.flatMap_congr fun c _ => (upperChar_toUpper c).symm)
  have hsame : folded s.toList = folded s'.toList := beq_iff_eq.mp h
  rw [hfolded, hfolded, hsame]

theorem Registry.find?_eq_of_sameKeyword {name name' : String} (h : sameKeyword name name' = true)
    (table : Registry) : table.find? name = table.find? name' := by
  rw [find?, find?, toUpper_eq_of_sameKeyword h]

namespace Formula

open Formula.Parser

/-! ## Expressions -/

mutual

/-- The second expression is the first one with other marks of pinned rows and columns, function
names in another case, and other opposite corners of the rectangles of its ranges. -/
inductive Expr.Respelled : Expr → Expr → Prop where
  | literal (v : Value) : Respelled (.literal v) (.literal v)
  | cell {r q : Reference} (h : q.address = r.address) : Respelled (.cell r) (.cell q)
  | range {r q : RangeRef} (h : r.Opposite q) : Respelled (.range r) (.range q)
  | unary (op : UnaryOp) {e e' : Expr} (h : Respelled e e') :
      Respelled (.unary op e) (.unary op e')
  | binary (op : BinaryOp) {l l' r r' : Expr} (hl : Respelled l l') (hr : Respelled r r') :
      Respelled (.binary op l r) (.binary op l' r')
  | call {name name' : String} (hname : sameKeyword name name' = true) {args args' : List Expr}
      (hargs : RespelledArgs args args') : Respelled (.call name args) (.call name' args')

/-- Each of the second arguments is a respelling of the first one in its place. -/
inductive Expr.RespelledArgs : List Expr → List Expr → Prop where
  | nil : RespelledArgs [] []
  | cons {e e' : Expr} {es es' : List Expr} (he : Respelled e e') (hes : RespelledArgs es es') :
      RespelledArgs (e :: es) (e' :: es')

end

namespace Expr

mutual

/-- An expression is a respelling of itself. -/
theorem Respelled.refl : (e : Expr) → e.Respelled e
  | .literal v => .literal v
  | .cell _ => .cell rfl
  | .range _ => .range (RangeRef.area_eq_iff.mp rfl)
  | .unary op e => .unary op (.refl e)
  | .binary op l r => .binary op (.refl l) (.refl r)
  | .call _ args => .call (beq_self_eq_true _) (.refl args)

theorem RespelledArgs.refl : (es : List Expr) → RespelledArgs es es
  | [] => .nil
  | e :: es => .cons (.refl e) (.refl es)

end

theorem RespelledArgs.length_eq {es es' : List Expr} :
    RespelledArgs es es' → es'.length = es.length
  | .nil => rfl
  | .cons _ hes => congrArg (· + 1) hes.length_eq

mutual

theorem Respelled.height_eq {e e' : Expr} : e.Respelled e' → e'.height = e.height
  | .literal _ | .cell _ | .range _ => rfl
  | .unary _ h => congrArg (· + 1) h.height_eq
  | .binary _ hl hr => by rw [height, height, hl.height_eq, hr.height_eq]
  | .call _ hargs => congrArg (· + 1) hargs.heightOf_eq

theorem RespelledArgs.heightOf_eq {es es' : List Expr} :
    RespelledArgs es es' → heightOf es' = heightOf es
  | .nil => rfl
  | .cons he hes => by rw [heightOf, heightOf, he.height_eq, hes.heightOf_eq]

end

section

variable {m : Type → Type} [Monad m] (w : Setting) (read : Address → m Value)

mutual

/-- Respellings have the same value: they ask for the same cells in the same order. -/
theorem Respelled.value_eq {e e' : Expr} : e.Respelled e' → e'.value w read = e.value w read
  | .literal _ => rfl
  | .cell h => by rw [value, value, h]
  | .range h => by
    have harea := RangeRef.area_eq_iff.mpr h
    unfold RangeRef.area at harea
    rw [value, value, resolve, resolve, harea]
  | .unary _ h => by rw [value, value, h.value_eq]
  | .binary _ hl hr => by
    rw [value, value, hl.value_eq]
    simp only [hr.value_eq]
  | .call hname hargs => by
    rw [value, value, Registry.find?_eq_of_sameKeyword hname, unknownFunction, unknownFunction,
      toUpper_eq_of_sameKeyword hname, hargs.length_eq, hargs.values_eq]

theorem RespelledArgs.values_eq {es es' : List Expr} :
    RespelledArgs es es' → values w read es' = values w read es
  | .nil => rfl
  | .cons he hes => by rw [values, values, he.value_eq, hes.values_eq]

end

end

end Expr

/-! ## Phrases -/

namespace TokenKind

variable {kind k : TokenKind}

/-- Only names have a case. -/
theorem eq_of_folded_eq (h : k.folded = kind.folded) (hname : ∀ s, kind ≠ .name s) : k = kind := by
  cases kind with
  | name s => exact absurd rfl (hname s)
  | _ => cases k <;> first | exact h | cases h

theorem exists_of_folded_eq_name {s : String} (h : k.folded = (TokenKind.name s).folded) :
    ∃ s', k = .name s' ∧ sameKeyword s s' = true := by
  cases k with
  | name s' =>
    have hsame := String.ofList_injective (TokenKind.name.inj h)
    exact ⟨s', rfl, beq_iff_eq.mpr hsame.symm⟩
  | _ => cases h

end TokenKind

/-- The tokens of a text with the names in another case. -/
def KindsRecased (kinds kinds' : List TokenKind) : Prop :=
  kinds'.map TokenKind.folded = kinds.map TokenKind.folded

namespace KindsRecased

variable {kind : TokenKind} {kinds more ks : List TokenKind}

theorem symm (h : KindsRecased kinds ks) : KindsRecased ks kinds :=
  Eq.symm h

theorem cons {k : TokenKind} (hk : k.folded = kind.folded) (h : KindsRecased kinds ks) :
    KindsRecased (kind :: kinds) (k :: ks) := by
  rw [KindsRecased, List.map_cons, List.map_cons, hk, h]

theorem exists_of_append (h : KindsRecased (kinds ++ more) ks) :
    ∃ front back, ks = front ++ back ∧ KindsRecased kinds front ∧ KindsRecased more back := by
  unfold KindsRecased at h
  rw [List.map_append] at h
  exact List.map_eq_append_iff.mp h

theorem exists_of_cons (h : KindsRecased (kind :: kinds) ks) (hname : ∀ s, kind ≠ .name s) :
    ∃ back, ks = kind :: back ∧ KindsRecased kinds back := by
  obtain ⟨k, back, rfl, hk, hback⟩ := List.map_eq_cons_iff.mp h
  exact ⟨back, by rw [TokenKind.eq_of_folded_eq hk hname], hback⟩

theorem exists_of_name_cons {s : String} (h : KindsRecased (.name s :: kinds) ks) :
    ∃ s' back, ks = .name s' :: back ∧ sameKeyword s s' = true ∧ KindsRecased kinds back := by
  obtain ⟨k, back, rfl, hk, hback⟩ := List.map_eq_cons_iff.mp h
  obtain ⟨s', rfl, hsame⟩ := TokenKind.exists_of_folded_eq_name hk
  exact ⟨s', back, rfl, hsame, hback⟩

theorem eq_nil (h : KindsRecased [] ks) : ks = [] :=
  List.map_eq_nil_iff.mp h

/-- Without a name there is nothing that could be in another case. -/
theorem eq_singleton (h : KindsRecased [kind] ks) (hname : ∀ s, kind ≠ .name s) : ks = [kind] := by
  obtain ⟨back, rfl, hback⟩ := h.exists_of_cons hname
  rw [hback.eq_nil]

end KindsRecased

/-- A phrase of one token is one still with the token in another case. -/
theorem Leaf.exists_recased {kind : TokenKind} {e : Expr} {ks : List TokenKind}
    (hleaf : Leaf kind e) (h : KindsRecased [kind] ks) : ∃ k, ks = [k] ∧ Leaf k e := by
  by_cases hname : ∃ s, kind = .name s
  · obtain ⟨s, rfl⟩ := hname
    obtain ⟨s', back, rfl, hsame, hback⟩ := h.exists_of_name_cons
    obtain rfl := hback.eq_nil
    have hupper := (toUpper_eq_of_sameKeyword hsame).symm
    cases hleaf with
    | isTrue htrue => exact ⟨_, rfl, .isTrue (hupper.trans htrue)⟩
    | isFalse hfalse => exact ⟨_, rfl, .isFalse (hupper.trans hfalse)⟩
  · exact ⟨kind, h.eq_singleton fun s hs => hname ⟨s, hs⟩, hleaf⟩

/-- Expressions of a chain that begin with respellings are respellings. -/
def Links.Respelled {c : Chain} (l l' : Links c) : Prop :=
  ∀ left left' : Expr, left.Respelled left' → (l.expr left).Respelled (l'.expr left')

mutual

/-- The same tokens with the names in another case are a phrase of the same shape. -/
theorem Phrase.exists_recased {b : Binding} : (d : Phrase b) → (ks : List TokenKind) →
    KindsRecased d.kinds ks →
      ∃ d' : Phrase b, d'.kinds = ks ∧ d.expr.Respelled d'.expr ∧ d'.opens = d.opens
  | .chain first more, ks, h => by
    rw [Phrase.kinds] at h
    obtain ⟨front, back, rfl, hfront, hback⟩ := h.exists_of_append
    obtain ⟨first', rfl, hfirst, hopens⟩ := first.exists_recased front hfront
    obtain ⟨more', rfl, hmore, hmoreOpens⟩ := more.exists_recased back hback
    refine ⟨.chain first' more', rfl, hmore _ _ hfirst, ?_⟩
    rw [Phrase.opens, Phrase.opens, hopens, hmoreOpens]
  | .base p, ks, h => by
    obtain ⟨p', rfl, hp, hopens⟩ := p.exists_recased ks h
    exact ⟨.base p', rfl, hp, hopens⟩
  | .power base exponent, ks, h => by
    rw [Phrase.kinds] at h
    obtain ⟨front, _, rfl, hfront, hrest⟩ := h.exists_of_append
    obtain ⟨back, rfl, hback⟩ := hrest.exists_of_cons (by simp)
    obtain ⟨base', rfl, hbase, hopens⟩ := base.exists_recased front hfront
    obtain ⟨exponent', rfl, hexponent, hexponentOpens⟩ := exponent.exists_recased back hback
    refine ⟨.power base' exponent', rfl, .binary .power hbase hexponent, ?_⟩
    rw [Phrase.opens, Phrase.opens, hopens, hexponentOpens]
  | .sign o op ho operand, ks, h => by
    rw [Phrase.kinds] at h
    obtain ⟨back, rfl, hback⟩ := h.exists_of_cons (by simp)
    obtain ⟨operand', rfl, hoperand, hopens⟩ := operand.exists_recased back hback
    exact ⟨.sign o op ho operand', rfl, .unary op hoperand, congrArg (· + 1) hopens⟩
  | .plain p, ks, h => by
    obtain ⟨p', rfl, hp, hopens⟩ := p.exists_recased ks h
    exact ⟨.plain p', rfl, hp, hopens⟩
  | .leaf kind e hleaf, ks, h => by
    obtain ⟨k, rfl, hk⟩ := hleaf.exists_recased h
    exact ⟨.leaf k e hk, rfl, .refl e, rfl⟩
  | .constant name, ks, h => by
    obtain ⟨name', _, rfl, hname, hcalled⟩ := h.exists_of_name_cons
    obtain ⟨_, rfl, hclosed⟩ := hcalled.exists_of_cons (by simp)
    obtain rfl := hclosed.eq_singleton (by simp)
    exact ⟨.constant name', rfl, .call hname .nil, rfl⟩
  | .call name first more, ks, h => by
    rw [Phrase.kinds] at h
    obtain ⟨name', _, rfl, hname, hcalled⟩ := h.exists_of_name_cons
    obtain ⟨_, rfl, hargs⟩ := hcalled.exists_of_cons (by simp)
    obtain ⟨front, _, rfl, hfront, hrest⟩ := hargs.exists_of_append
    obtain ⟨back, _, rfl, hback, hclosed⟩ := hrest.exists_of_append
    obtain rfl := hclosed.eq_singleton (by simp)
    obtain ⟨first', rfl, hfirst, hopens⟩ := first.exists_recased front hfront
    obtain ⟨more', rfl, hmore, hmoreOpens⟩ := more.exists_recased back hback
    refine ⟨.call name' first' more', rfl, .call hname (.cons hfirst hmore), ?_⟩
    rw [Phrase.opens, Phrase.opens, hopens, hmoreOpens]
  | .group inner, ks, h => by
    rw [Phrase.kinds] at h
    obtain ⟨_, rfl, hrest⟩ := h.exists_of_cons (by simp)
    obtain ⟨front, _, rfl, hfront, hclosed⟩ := hrest.exists_of_append
    obtain rfl := hclosed.eq_singleton (by simp)
    obtain ⟨inner', rfl, hinner, hopens⟩ := inner.exists_recased front hfront
    exact ⟨.group inner', rfl, hinner, congrArg (· + 1) hopens⟩

theorem Links.exists_recased {c : Chain} : (l : Links c) → (ks : List TokenKind) →
    KindsRecased l.kinds ks → ∃ l' : Links c, l'.kinds = ks ∧ l.Respelled l' ∧ l'.opens = l.opens
  | .done, ks, h => ⟨.done, h.eq_nil.symm, fun _ _ => id, rfl⟩
  | .link o op ho operand more, ks, h => by
    rw [Links.kinds] at h
    obtain ⟨_, rfl, hrest⟩ := h.exists_of_cons (by simp)
    obtain ⟨front, back, rfl, hfront, hback⟩ := hrest.exists_of_append
    obtain ⟨operand', rfl, hoperand, hopens⟩ := operand.exists_recased front hfront
    obtain ⟨more', rfl, hmore, hmoreOpens⟩ := more.exists_recased back hback
    refine ⟨.link o op ho operand' more', rfl, fun left left' hleft => ?_, ?_⟩
    · exact hmore _ _ (.binary op hleft hoperand)
    · rw [Links.opens, Links.opens, hopens, hmoreOpens]

theorem Arguments.exists_recased : (a : Arguments) → (ks : List TokenKind) →
    KindsRecased a.kinds ks →
      ∃ a' : Arguments, a'.kinds = ks ∧ Expr.RespelledArgs a.exprs a'.exprs ∧ a'.opens = a.opens
  | .done, ks, h => ⟨.done, h.eq_nil.symm, .nil, rfl⟩
  | .next argument more, ks, h => by
    rw [Arguments.kinds] at h
    obtain ⟨_, rfl, hrest⟩ := h.exists_of_cons (by simp)
    obtain ⟨front, back, rfl, hfront, hback⟩ := hrest.exists_of_append
    obtain ⟨argument', rfl, hargument, hopens⟩ := argument.exists_recased front hfront
    obtain ⟨more', rfl, hmore, hmoreOpens⟩ := more.exists_recased back hback
    refine ⟨.next argument' more', rfl, .cons hargument hmore, ?_⟩
    rw [Arguments.opens, Arguments.opens, hopens, hmoreOpens]

end

/-- Tokens with the names in another case are read as a respelling, under the same limit. -/
theorem Expr.exists_respelled_of_ofTokens {limit : Nat} {ts ts' : List Token} {e : Expr}
    (hended : Ended ts) (hkinds : KindsRecased (ts.map Token.kind) (ts'.map Token.kind))
    (h : ofTokens limit ts = .ok e) : ∃ e', ofTokens limit ts' = .ok e' ∧ e.Respelled e' := by
  obtain ⟨d, hd⟩ := derives_of_ofTokens hended h
  rw [hd.kinds] at hkinds
  obtain ⟨front, back, hcut, hfront, hback⟩ := hkinds.exists_of_append
  obtain rfl := hback.eq_singleton (by simp)
  obtain ⟨d', rfl, hrespelled, hopens⟩ := d.exists_recased front hfront
  have hderives : Derives limit d' ts' d'.expr :=
    { kinds := hcut
      namesApart := d'.namesApart .eof
      expr := rfl
      opens := hopens.trans_le hd.opens
      height := by
        rw [hrespelled.height_eq, hd.expr]
        exact hd.height }
  exact ⟨d'.expr, ofTokens_of_derives hderives, hd.expr ▸ hrespelled⟩

end Formula

end Spreadsheet
