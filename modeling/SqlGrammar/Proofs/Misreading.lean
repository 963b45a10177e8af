import SqlGrammar.Proofs.Canonical

/-!
# Operands that are drawn into something else

A prefix operator is written without parentheses wherever it stands on the right. Two trees are read
as others for that. Behind `IS`, a `NOT` that begins the right operand turns the comparison into one
by `IS NOT`, which then takes no more than the first operand of what was negated
(`Expr.comparison_readAs`). And a pattern that ends in a match without an escape, behind a `NOT`,
takes the escape that was written behind it (`Expr.escape_readAs`). All other comparisons and
escapes are read as what they were. In both theorems the operands are well formed, which includes
that no type in them has a scale without a length (`TypeName.WellMade`): such a scale is not
written, whatever it stands in.
-/

set_option autoImplicit false

namespace SqlGrammar

open Lexer

/-! ## Trees that are written alike -/

namespace Expr

variable {e e' : Expr} {least : Nat}

/-- A tree that is written like an unambiguous one is read as that one. -/
theorem readAs_of_pieces (hpieces : e.pieces = e'.pieces) (h : e'.WellFormed Phrase.Unambiguous) :
    Rule.ReadAs .expr (Rule.toSql .expr e) (e'.regroup .written) := by
  have htext : Rule.toSql .expr e = Rule.toSql .expr e' :=
    congrArg Dialect.sqlite.render hpieces
  rw [htext]
  exact parseRule_toSql (r := .expr) h

/-- With the parentheses it is written with, an unambiguous tree is one that a text is read as. -/
theorem WellFormed.regroup (h : e.WellFormed Phrase.Unambiguous) :
    (e.regroup .written).WellFormed Phrase.Parsed := by
  obtain ⟨need, hread⟩ := parseRule_toSql (r := .expr) h
  exact wellFormed_of_parseRule (r := .expr) (hread need (Nat.le_refl need))

theorem regroup_regroup (h : e.WellFormed Phrase.Unambiguous) :
    (e.regroup .written).regroup .written = e.regroup .written := by
  have hagain : Rule.ReadAs .expr (Rule.toSql .expr e) ((e.regroup .written).regroup .written) :=
    readAs_of_pieces e.pieces_regroup.symm (h.regroup.mono fun _ hp => hp.1)
  exact hagain.unique (parseRule_toSql (r := .expr) h)

/-! A right operand with the parentheses it is written with. -/

theorem regroupRight_of_fits (h : e.fitsRight least = true) :
    e.regroupRight .written least = e.regroup .written := by
  rw [regroupRight, Grouping.written_right, h]
  rfl

theorem regroupRight_of_not_fits (h : e.fitsRight least = false) :
    e.regroupRight .written least = .paren (e.regroup .written) := by
  rw [regroupRight, Grouping.written_right, h]
  rfl

theorem pieces_regroupRight (e : Expr) (least : Nat) :
    (e.regroupRight .written least).pieces = e.rightPieces least := by
  unfold rightPieces
  cases hfit : e.fitsRight least with
  | true =>
    rw [regroupRight_of_fits hfit, pieces_regroup]
    rfl
  | false =>
    rw [regroupRight_of_not_fits hfit, pieces, pieces_regroup]
    rfl

theorem fitsRight_regroupRight (e : Expr) (hleast : least ≤ atomPower) :
    (e.regroupRight .written least).fitsRight least = true := by
  cases hfit : e.fitsRight least with
  | true => rw [regroupRight_of_fits hfit, fitsRight_regroup, hfit]
  | false =>
    rw [regroupRight_of_not_fits hfit]
    exact decide_eq_true hleast

theorem WellFormed.regroupRight (h : e.WellFormed Phrase.Unambiguous) (least : Nat) :
    (e.regroupRight .written least).WellFormed Phrase.Parsed := by
  cases hfit : e.fitsRight least with
  | true =>
    rw [regroupRight_of_fits hfit]
    exact h.regroup
  | false =>
    rw [regroupRight_of_not_fits hfit]
    exact .single trivial ⟨trivial, trivial⟩ rfl h.regroup

theorem regroupRight_regroupRight (h : e.WellFormed Phrase.Unambiguous)
    (hleast : least ≤ atomPower) :
    (e.regroupRight .written least).regroupRight .written least =
      e.regroupRight .written least := by
  rw [regroupRight_of_fits (fitsRight_regroupRight e hleast)]
  cases hfit : e.fitsRight least with
  | true => rw [regroupRight_of_fits hfit, regroup_regroup h]
  | false =>
    rw [regroupRight_of_not_fits hfit, regroup, regroup_regroup h]

end Expr

/-- A phrase stays well formed when one of its parts is replaced. -/
theorem Phrase.WellFormed.replacePart {P : Phrase → Prop} {p p' part part' : Phrase}
    (before after : List Phrase) (h : p.WellFormed P) (hparts : p.parts = before ++ part :: after)
    (hparts' : p'.parts = before ++ part' :: after) (hself : p'.WellMade ∧ P p')
    (hpart : part'.WellFormed P) : p'.WellFormed P := by
  refine .intro hself fun q hq => ?_
  rw [hparts', List.mem_append, List.mem_cons] at hq
  rcases hq with hq | rfl | hq
  · exact h.part (hparts ▸ List.mem_append_left _ hq)
  · exact hpart
  · exact h.part (hparts ▸ List.mem_append_right _ (List.mem_cons_of_mem part hq))

/-! ## Comparisons -/

/-- An operator that binds no more weakly than a `NOT`, and is no comparison, binds more strongly
than those. -/
theorem BinaryOp.succ_equalityPower_le {op : BinaryOp} (hle : negationPower ≤ op.power)
    (hne : op.power ≠ equalityPower) : equalityPower + 1 ≤ op.power := by
  cases op <;> revert hle hne <;> decide

namespace Expr

/-- What is read where `IS NOT` stands between a left operand and an expression: the comparison
takes no more than the first operand of whatever binds as strongly as itself. -/
def isNot (left : Expr) : Expr → Expr
  | literal .null => isNull left true
  | binary first op right =>
    if op.power = equalityPower then binary (left.isNot first) op right
    else binary left .isNot (binary first op right)
  | like subject op pattern escape negated => like (left.isNot subject) op pattern escape negated
  | isNull subject negated => isNull (left.isNot subject) negated
  | between subject low high negated => between (left.isNot subject) low high negated
  | within subject set negated => within (left.isNot subject) set negated
  | e => binary left .isNot e

section IsNot

variable {left e : Expr}

theorem power_isNot : (left.isNot e).power = equalityPower := by
  fun_cases isNot left e with
  | case2 first op right hop => exact hop
  | _ => rfl

theorem tailPower_isNot (h : equalityPower < e.tailPower) :
    equalityPower < (left.isNot e).tailPower := by
  fun_cases isNot left e with
  | case1 => exact (by decide : equalityPower < atomPower)
  | case4 subject op pattern escape negated => cases escape <;> exact h
  | _ => exact h

/-- The comparison can stand where the expression itself can, to the left of another comparison. -/
theorem fitsLeft_isNot (h : e.fitsLeft equalityPower = true) :
    (left.isNot e).fitsLeft equalityPower = true := by
  simp only [fitsLeft, Bool.and_eq_true, decide_eq_true_eq] at h ⊢
  exact ⟨Nat.le_of_eq power_isNot.symm, tailPower_isNot h.2⟩

/-! Before `IS NOT`, an operand of another comparison stands where it stood before. -/

theorem fitsLeft_of_leads (h : e.leads equalityPower = true) :
    e.fitsLeft equalityPower = true := by
  have hguard := guard_left_of_leads h (by decide)
  simpa using hguard

theorem fitsRight_of_leads (h : e.leads equalityPower = true) :
    e.fitsRight negationPower = true := by
  have hle : negationPower ≤ equalityPower := by decide
  have hfits := fitsLeft_of_leads h
  simp only [fitsLeft, fitsRight, Bool.and_eq_true, Bool.or_eq_true, decide_eq_true_eq]
    at hfits ⊢
  exact .inr (Nat.le_trans hle hfits.1)

theorem leftPieces_isNot {ps : List Piece} (h : e.leads equalityPower = true)
    (hpieces : e.fitsRight negationPower = true → (left.isNot e).pieces = ps ++ e.pieces) :
    (left.isNot e).leftPieces equalityPower = ps ++ e.leftPieces equalityPower := by
  have hfits := fitsLeft_of_leads h
  rw [leftPieces, leftPieces, hfits, fitsLeft_isNot hfits]
  exact hpieces (fitsRight_of_leads h)

/-- The pieces are those of `IS NOT` between the two. -/
theorem pieces_isNot (hwf : e.WellFormed Phrase.Parsed) (hfit : e.fitsRight negationPower = true) :
    (left.isNot e).pieces =
      left.leftPieces equalityPower ++ [.keyword .IS, .keyword .NOT] ++ e.pieces := by
  have hbehind : ∀ {x : Expr}, x.fitsRight (equalityPower + 1) = true →
      (binary left .isNot x).pieces =
        left.leftPieces equalityPower ++ [.keyword .IS, .keyword .NOT] ++ x.pieces := by
    intro x hfits
    rw [pieces_binary, rightPieces, show BinaryOp.isNot.power = equalityPower from rfl, hfits]
    rfl
  fun_induction isNot left e with
  | case1 =>
    rw [pieces_isNull]
    simp only [List.append_assoc]
    rfl
  | case2 first op right hop ih =>
    have hleads : first.leads equalityPower = true := hop ▸ hwf.self.2.2.1
    rw [pieces_binary, pieces_binary, hop,
      leftPieces_isNot hleads (ih (hwf.part List.mem_cons_self))]
    simp only [List.append_assoc]
  | case3 first op right hop =>
    have hpower : equalityPower + 1 ≤ op.power :=
      BinaryOp.succ_equalityPower_le (of_decide_eq_true hfit) hop
    exact hbehind (decide_eq_true hpower)
  | case4 subject op pattern escape negated ih =>
    have hleads : subject.leads equalityPower = true := hwf.self.2.2.1
    rw [pieces_like, pieces_like, leftPieces_isNot hleads (ih (hwf.part List.mem_cons_self))]
    simp only [List.append_assoc]
  | case5 subject negated ih =>
    have hleads : subject.leads equalityPower = true := hwf.self.2.2
    rw [pieces_isNull, pieces_isNull, leftPieces_isNot hleads (ih (hwf.part List.mem_cons_self))]
    simp only [List.append_assoc]
  | case6 subject low high negated ih =>
    have hleads : subject.leads equalityPower = true := hwf.self.2.2.1
    rw [pieces_between, pieces_between, leftPieces_isNot hleads (ih (hwf.part List.mem_cons_self))]
    simp only [List.append_assoc]
  | case7 subject set negated ih =>
    have hleads : subject.leads equalityPower = true := hwf.self.2.2
    rw [pieces_within, pieces_within, leftPieces_isNot hleads (ih (hwf.part List.mem_cons_self))]
    simp only [List.append_assoc]
  | case8 e hnull hbinary hlike hisNull hbetween hwithin =>
    -- a prefix operator may stand anywhere, and what is left binds more strongly
    refine hbehind ?_
    cases e with
    | binary first op right => exact absurd rfl (hbinary first op right)
    | like subject op pattern escape negated =>
      exact absurd rfl (hlike subject op pattern escape negated)
    | isNull subject negated => exact absurd rfl (hisNull subject negated)
    | between subject low high negated => exact absurd rfl (hbetween subject low high negated)
    | within subject set negated => exact absurd rfl (hwithin subject set negated)
    | _ => rfl

theorem wellFormed_isNot (hleft : left.WellFormed Phrase.Unambiguous)
    (he : e.WellFormed Phrase.Unambiguous) : (left.isNot e).WellFormed Phrase.Unambiguous := by
  have hbehind : ∀ {x : Expr}, x ≠ literal .null → x.WellFormed Phrase.Unambiguous →
      (binary left .isNot x).WellFormed Phrase.Unambiguous :=
    fun hnull hx => .intro ⟨trivial, hnull⟩ (List.forall_mem_cons.2 ⟨hleft,
      List.forall_mem_singleton.2 hx⟩)
  fun_induction isNot left e with
  | case1 => exact .single trivial trivial rfl hleft
  | case2 first op right hop ih =>
    have hself : (Phrase.expr (binary (left.isNot first) op right)).Unambiguous := by
      have := he.self.2
      cases op <;> exact this
    exact Phrase.WellFormed.replacePart [] _ he rfl rfl ⟨trivial, hself⟩
      (ih (he.part List.mem_cons_self))
  | case3 first op right hop => exact hbehind nofun he
  | case4 subject op pattern escape negated ih =>
    have hself : (Phrase.expr (like (left.isNot subject) op pattern escape negated)).Unambiguous :=
      by
      have := he.self.2
      cases escape <;> exact this
    exact Phrase.WellFormed.replacePart [] _ he rfl rfl ⟨trivial, hself⟩
      (ih (he.part List.mem_cons_self))
  | case5 subject negated ih | case6 subject low high negated ih | case7 subject set negated ih =>
    exact Phrase.WellFormed.replacePart [] _ he rfl rfl ⟨trivial, trivial⟩
      (ih (he.part List.mem_cons_self))
  | case8 e hnull => exact hbehind hnull he

/-- Nothing that is not a comparison by `IS` becomes one. -/
theorem isNot_ne_is (h : ∀ first right, e ≠ binary first .is right) (first right : Expr) :
    left.isNot e ≠ binary first .is right := by
  fun_cases isNot left e with
  | case2 first' op right' hop =>
    rintro ⟨⟩
    exact h first' right rfl
  | _ => exact nofun

end IsNot

/-- Parentheses around operands make no operation of anything else. -/
theorem eq_binary_of_regroup {g : Grouping} {e first right : Expr} {op : BinaryOp}
    (h : e.regroup g = binary first op right) : ∃ first' right', e = binary first' op right' := by
  cases e with
  | binary first' op' right' =>
    cases h
    exact ⟨first', right', rfl⟩
  | _ => cases h

theorem eq_binary_of_regroupRight {e first right : Expr} {op : BinaryOp} {least : Nat}
    (h : e.regroupRight .written least = binary first op right) :
    ∃ first' right', e = binary first' op right' := by
  cases hfit : e.fitsRight least with
  | true => exact eq_binary_of_regroup (regroupRight_of_fits hfit ▸ h)
  | false =>
    rw [regroupRight_of_not_fits hfit] at h
    cases h

/-- A comparison by `IS`, or by `IS NOT`. -/
def comparison (left : Expr) (negated : Bool) (right : Expr) : Expr :=
  binary left (if negated then .isNot else .is) right

/-- How `left.comparison negated right` is read, of operands that are well formed, hold no such
comparison and no escape themselves, and have a scale in a type only with a length
(`Phrase.WellMade`). A bare `NULL` on the right makes an `isNull` of it. Behind `IS`, a `NOT` that
begins `right` makes `left.isNot operand` of it, with `operand` as what was negated; it is then
never read as a comparison by `IS`. Everything else is read as what it was. -/
theorem comparison_readAs {left right : Expr} (hleft : left.WellFormed Phrase.Plain)
    (hright : right.WellFormed Phrase.Plain) (negated : Bool) :
    (right = .literal .null →
      Rule.ReadAs .expr (Rule.toSql .expr (left.comparison negated right))
        ((isNull left negated).regroup .written)) ∧
    (right ≠ .literal .null → (negated = true ∨ right.isNegated = false) →
      Rule.ReadAs .expr (Rule.toSql .expr (left.comparison negated right))
        ((left.comparison negated right).regroup .written)) ∧
    ∀ operand, right = unary .not operand → negated = false →
      Rule.ReadAs .expr (Rule.toSql .expr (left.comparison negated right))
        ((left.isNot (operand.regroupRight .written negationPower)).regroup .written) ∧
      ∀ left' right', ¬ Rule.ReadAs .expr (Rule.toSql .expr (left.comparison negated right))
        (binary left' .is right') := by
  have hleft' := hleft.mono fun _ hp => hp.unambiguous
  have hright' := hright.mono fun _ hp => hp.unambiguous
  refine ⟨?_, ?_, ?_⟩
  · rintro rfl
    refine readAs_of_pieces ?_ (.single trivial trivial rfl hleft')
    rw [pieces_isNull, comparison, pieces_binary]
    cases negated <;> simp only [List.append_assoc] <;> rfl
  · intro hnull hnot
    have hself : (Phrase.expr (left.comparison negated right)).Unambiguous := by
      cases negated with
      | true => exact hnull
      | false => exact ⟨hnull, hnot.resolve_left nofun⟩
    exact parseRule_toSql (r := .expr) (.intro ⟨trivial, hself⟩ (List.forall_mem_cons.2 ⟨hleft',
      List.forall_mem_singleton.2 hright'⟩))
  · rintro operand rfl rfl
    have hoperand : operand.WellFormed Phrase.Unambiguous := hright'.part List.mem_cons_self
    have hwf := hoperand.regroupRight negationPower
    have hpieces : (left.comparison false (unary .not operand)).pieces =
        (left.isNot (operand.regroupRight .written negationPower)).pieces := by
      rw [pieces_isNot hwf (fitsRight_regroupRight operand (by decide)), pieces_regroupRight,
        comparison, pieces_binary, rightPieces]
      simp only [List.append_assoc]
      rfl
    have hread := readAs_of_pieces hpieces (wellFormed_isNot hleft' (hwf.mono fun _ hp => hp.1))
    refine ⟨hread, fun left' right' his => ?_⟩
    -- the tree that is read has an `IS` at its root only if the negated expression has one
    obtain ⟨first, second, hroot⟩ := eq_binary_of_regroup (hread.unique his)
    refine isNot_ne_is (fun first right h => ?_) first second hroot
    obtain ⟨first', right', rfl⟩ := eq_binary_of_regroupRight h
    exact (hright.part List.mem_cons_self).self.2.1 rfl

theorem wellFormed_column (name : String) : (column none none name).WellFormed Phrase.Plain :=
  .leaf nofun trivial rfl

/-- `a IS (NOT b = c)` is written without the parentheses, and read as `(a IS NOT b) = c`. -/
theorem comparison_readAs_negated_equation :
    (column none none "a").WellFormed Phrase.Plain ∧
      (unary .not (.binary (.column none none "b") .eq (.column none none "c"))).WellFormed
        Phrase.Plain ∧
      Rule.ReadAs .expr "a IS NOT b = c"
        (.binary (.binary (.column none none "a") .isNot (.column none none "b")) .eq
          (.column none none "c")) := by
  have hequation : (binary (column none none "b") .eq (column none none "c")).WellFormed
      Phrase.Plain :=
    .intro ⟨trivial, nofun, nofun⟩ (List.forall_mem_cons.2 ⟨wellFormed_column "b",
      List.forall_mem_singleton.2 (wellFormed_column "c")⟩)
  have hnot : (unary .not (binary (column none none "b") .eq (column none none "c"))).WellFormed
      Phrase.Plain :=
    .single trivial trivial rfl hequation
  have hread := ((comparison_readAs (wellFormed_column "a") hnot false).2.2 _ rfl rfl).1
  have htext : Rule.toSql .expr ((column none none "a").comparison false
      (unary .not (binary (column none none "b") .eq (column none none "c")))) =
        "a IS NOT b = c" := by decide
  rw [htext] at hread
  exact ⟨wellFormed_column "a", hnot, hread⟩

/-- `a IS (NOT b)` is not read as a comparison by `IS`: it is written as `a IS NOT b` is. -/
theorem negation_not_compared :
    (column none none "a").WellFormed Phrase.Plain ∧
      (unary .not (.column none none "b")).WellFormed Phrase.Plain ∧
      Rule.toSql .expr ((column none none "a").comparison false
        (unary .not (column none none "b"))) = "a IS NOT b" ∧
      Rule.ReadAs .expr "a IS NOT b"
        (.binary (.column none none "a") .isNot (.column none none "b")) ∧
      ∀ left right, ¬ Rule.ReadAs .expr "a IS NOT b" (.binary left .is right) := by
  have hplain : ∀ name, (column none none name).WellFormed Phrase.Unambiguous :=
    fun name => (wellFormed_column name).mono fun _ hp => hp.unambiguous
  have hisNot : ((column none none "a").comparison true (column none none "b")).WellFormed
      Phrase.Unambiguous :=
    .intro ⟨trivial, nofun⟩ (List.forall_mem_cons.2 ⟨hplain "a",
      List.forall_mem_singleton.2 (hplain "b")⟩)
  have hread := parseRule_toSql (r := .expr) hisNot
  have htext : Rule.toSql .expr ((column none none "a").comparison true
      (column none none "b")) = "a IS NOT b" := by decide
  rw [htext] at hread
  refine ⟨wellFormed_column "a", .single trivial trivial rfl (wellFormed_column "b"),
    by decide, hread, fun left right his => ?_⟩
  cases Rule.ReadAs.unique hread his

end Expr

/-! ## Escapes -/

namespace Expr

/-- What is read where an escape stands behind the expression: it becomes that of the last pattern
that has none, at the end of the expression. -/
def withEscape (escape : Expr) : Expr → Expr
  | unary op operand => unary op (escape.withEscape operand)
  | binary left op right => binary left op (escape.withEscape right)
  | like subject op pattern none negated =>
    if pattern.opensEscape then like subject op (escape.withEscape pattern) none negated
    else like subject op pattern (some escape) negated
  | like subject op pattern (some own) negated =>
    like subject op pattern (some (escape.withEscape own)) negated
  | between subject low high negated => between subject low (escape.withEscape high) negated
  | e => e

section WithEscape

variable {escape e : Expr}

@[simp] theorem power_withEscape : (escape.withEscape e).power = e.power := by
  fun_cases withEscape escape e <;> rfl

@[simp] theorem isPrefixed_withEscape : (escape.withEscape e).isPrefixed = e.isPrefixed := by
  fun_cases withEscape escape e <;> rfl

@[simp] theorem isNegation_withEscape : (escape.withEscape e).isNegation = e.isNegation := by
  fun_cases withEscape escape e with
  | case1 op operand => cases op <;> rfl
  | _ => rfl

@[simp] theorem isNegated_withEscape : (escape.withEscape e).isNegated = e.isNegated := by
  fun_cases withEscape escape e with
  | case1 op operand => cases op <;> rfl
  | _ => rfl

theorem fitsRight_withEscape (least : Nat) :
    (escape.withEscape e).fitsRight least = e.fitsRight least := by
  rw [fitsRight, fitsRight, isPrefixed_withEscape, power_withEscape]

theorem withEscape_ne_null (h : e ≠ literal .null) : escape.withEscape e ≠ literal .null := by
  fun_cases withEscape escape e with
  | case7 => exact h
  | _ => exact nofun

/-- The pieces of an escape behind a pattern. -/
def escapePieces (escape : Expr) : List Piece :=
  .keyword .ESCAPE :: escape.rightPieces (equalityPower + 1)

theorem rightPieces_withEscape {least : Nat} {ps : List Piece} (hfits : e.fitsRight least = true)
    (h : (escape.withEscape e).pieces = e.pieces ++ ps) :
    (escape.withEscape e).rightPieces least = e.rightPieces least ++ ps := by
  rw [rightPieces, rightPieces, fitsRight_withEscape, hfits]
  exact h

/-- The pieces of what is read are those of the expression and, behind it, those of the escape. -/
theorem pieces_withEscape (hwf : e.WellFormed Phrase.Parsed) (hopen : e.opensEscape = true) :
    (escape.withEscape e).pieces = e.pieces ++ escape.escapePieces := by
  fun_induction withEscape escape e with
  | case1 op operand ih =>
    have hoperand := ih (hwf.part List.mem_cons_self) hopen
    rw [pieces_unary, pieces_unary, rightPieces_withEscape hwf.self.2.2 hoperand,
      op.pieces_congr isNegation_withEscape, List.append_assoc]
  | case2 left op right ih =>
    have hright := ih (hwf.part (by simp [Phrase.parts])) hopen
    rw [pieces_binary, pieces_binary, rightPieces_withEscape hwf.self.2.2.2 hright]
    simp only [List.append_assoc]
  | case3 subject op pattern negated hpattern ih =>
    have hinner := ih (hwf.part (by simp [Phrase.parts])) hpattern
    rw [pieces_like, pieces_like, rightPieces_withEscape hwf.self.2.2.2.1 hinner]
    simp [Pieces.clause]
  | case4 subject op pattern negated hpattern =>
    rw [pieces_like, pieces_like]
    simp [Pieces.clause, Pieces.keywords, escapePieces]
  | case5 subject op pattern own negated ih =>
    have hown := ih (hwf.part (by simp [Phrase.parts])) hopen
    rw [pieces_like, pieces_like, Option.map_some, Option.map_some,
      rightPieces_withEscape (hwf.self.2.2.2.2 own rfl) hown]
    simp [Pieces.clause]
  | case6 subject low high negated ih =>
    have hhigh := ih (hwf.part (by simp [Phrase.parts])) hopen
    rw [pieces_between, pieces_between, rightPieces_withEscape hwf.self.2.2.2.2 hhigh]
    simp only [List.append_assoc]
  | case7 e hunary hbinary hlike hescaped hbetween =>
    cases e with
    | unary op operand => exact absurd rfl (hunary op operand)
    | binary left op right => exact absurd rfl (hbinary left op right)
    | like subject op pattern own negated =>
      cases own with
      | none => exact absurd rfl (hlike subject op pattern negated)
      | some own => exact absurd rfl (hescaped subject op pattern own negated)
    | between subject low high negated => exact absurd rfl (hbetween subject low high negated)
    | _ => cases hopen

theorem wellFormed_withEscape (hescape : escape.WellFormed Phrase.Unambiguous)
    (he : e.WellFormed Phrase.Unambiguous) :
    (escape.withEscape e).WellFormed Phrase.Unambiguous := by
  fun_induction withEscape escape e with
  | case1 op operand ih =>
    exact Phrase.WellFormed.replacePart [] [] he rfl rfl ⟨trivial, trivial⟩
      (ih (he.part List.mem_cons_self))
  | case2 left op right ih =>
    have hself : (Phrase.expr (binary left op (escape.withEscape right))).Unambiguous := by
      have hright := he.self.2
      cases op with
      | is => exact ⟨withEscape_ne_null hright.1, isNegated_withEscape.trans hright.2⟩
      | isNot => exact withEscape_ne_null hright
      | _ => trivial
    exact Phrase.WellFormed.replacePart [.expr left] [] he rfl rfl ⟨trivial, hself⟩
      (ih (he.part (by simp [Phrase.parts])))
  | case3 subject op pattern negated hpattern ih =>
    exact Phrase.WellFormed.replacePart [.expr subject] [] he rfl rfl ⟨trivial, trivial⟩
      (ih (he.part (by simp [Phrase.parts])))
  | case4 subject op pattern negated hpattern =>
    exact .intro ⟨trivial, eq_false_of_ne_true hpattern⟩ (List.forall_mem_append.2
      ⟨fun q hq => he.part (List.mem_append_left _ hq), List.forall_mem_singleton.2 hescape⟩)
  | case5 subject op pattern own negated ih =>
    exact Phrase.WellFormed.replacePart [.expr subject, .expr pattern] [] he rfl rfl
      ⟨trivial, he.self.2⟩ (ih (he.part (by simp [Phrase.parts])))
  | case6 subject low high negated ih =>
    exact Phrase.WellFormed.replacePart [.expr subject, .expr low] [] he rfl rfl
      ⟨trivial, trivial⟩ (ih (he.part (by simp [Phrase.parts])))
  | case7 => exact he

end WithEscape

/-- The expression as the pattern of a match, with the parentheses it is written with there. -/
def asPattern (pattern : Expr) : Expr := pattern.regroupRight .written (equalityPower + 1)

theorem rightPieces_asPattern (pattern : Expr) :
    pattern.asPattern.rightPieces (equalityPower + 1) = pattern.rightPieces (equalityPower + 1) :=
  pattern.rightPieces_regroup (by decide) pattern.pieces_regroup

/-- How a match with an escape is read, of operands that are well formed, hold no escape and no
comparison by `IS` themselves, and have a scale in a type only with a length (`Phrase.WellMade`). If
`pattern.asPattern`, the pattern with the parentheses it is written with, ends in a match of its
own, the escape becomes part of that (`withEscape`); what is read has then no escape itself.
Otherwise it is read as what it was. -/
theorem escape_readAs {subject pattern escape : Expr} (hsubject : subject.WellFormed Phrase.Plain)
    (hpattern : pattern.WellFormed Phrase.Plain) (hescape : escape.WellFormed Phrase.Plain)
    (op : LikeOp) (negated : Bool) :
    (pattern.asPattern.opensEscape = false →
      Rule.ReadAs .expr (Rule.toSql .expr (like subject op pattern (some escape) negated))
        ((like subject op pattern (some escape) negated).regroup .written)) ∧
    (pattern.asPattern.opensEscape = true →
      Rule.ReadAs .expr (Rule.toSql .expr (like subject op pattern (some escape) negated))
        ((like subject op (escape.withEscape pattern.asPattern) none negated).regroup .written) ∧
      ∀ subject' op' pattern' escape' negated',
        ¬ Rule.ReadAs .expr (Rule.toSql .expr (like subject op pattern (some escape) negated))
          (like subject' op' pattern' (some escape') negated')) := by
  have hsubject' := hsubject.mono fun _ hp => hp.unambiguous
  have hpattern' := hpattern.mono fun _ hp => hp.unambiguous
  have hescape' := hescape.mono fun _ hp => hp.unambiguous
  have hparsed := hpattern'.regroupRight (equalityPower + 1)
  have hwritten : pattern.asPattern.WellFormed Phrase.Unambiguous := hparsed.mono fun _ hp => hp.1
  constructor
  · intro hclosed
    -- in its parentheses the pattern is one that is read unambiguously
    have hpieces : (like subject op pattern (some escape) negated).pieces =
        (like subject op pattern.asPattern (some escape) negated).pieces := by
      rw [pieces_like, pieces_like, rightPieces_asPattern]
    have hread := readAs_of_pieces hpieces (.intro ⟨trivial, hclosed⟩ (List.forall_mem_cons.2
      ⟨hsubject', List.forall_mem_cons.2 ⟨hwritten, List.forall_mem_singleton.2 hescape'⟩⟩))
    have hsame : pattern.asPattern.regroupRight .written (equalityPower + 1) = pattern.asPattern :=
      regroupRight_regroupRight hpattern' (by decide)
    rw [regroup_like, hsame] at hread
    rw [regroup_like]
    exact hread
  · intro hopen
    have hfits : pattern.asPattern.fitsRight (equalityPower + 1) = true :=
      fitsRight_regroupRight pattern (by decide)
    have hpieces : (like subject op pattern (some escape) negated).pieces =
        (like subject op (escape.withEscape pattern.asPattern) none negated).pieces := by
      rw [pieces_like, pieces_like,
        rightPieces_withEscape hfits (pieces_withEscape hparsed hopen), rightPieces_asPattern]
      simp [Pieces.clause, Pieces.keywords, escapePieces]
    have hread := readAs_of_pieces hpieces (.intro ⟨trivial, trivial⟩ (List.forall_mem_cons.2
      ⟨hsubject', List.forall_mem_singleton.2 (wellFormed_withEscape hescape' hwritten)⟩))
    refine ⟨hread, fun subject' op' pattern' escape' negated' h => ?_⟩
    rw [regroup_like] at hread
    cases hread.unique h

/-- A match by `LIKE` of columns, without an escape. -/
theorem wellFormed_like (subject pattern : String) :
    (like (column none none subject) .like (column none none pattern) none false).WellFormed
      Phrase.Plain :=
  .intro ⟨trivial, rfl⟩ (List.forall_mem_cons.2 ⟨wellFormed_column subject,
    List.forall_mem_singleton.2 (wellFormed_column pattern)⟩)

/-- The escape of `a LIKE (b + (NOT c LIKE d)) ESCAPE e`, which is written without parentheses, is
read as that of `c LIKE d`. -/
theorem escape_readAs_sum :
    (binary (.column none none "b") .add (.unary .not (.like (.column none none "c") .like
        (.column none none "d") none false))).WellFormed Phrase.Plain ∧
      Rule.ReadAs .expr "a LIKE b + NOT c LIKE d ESCAPE e"
        (.like (.column none none "a") .like
          (.binary (.column none none "b") .add (.unary .not (.like (.column none none "c") .like
            (.column none none "d") (some (.column none none "e")) false))) none false) := by
  have hnot : (unary .not (.like (.column none none "c") .like (.column none none "d") none
      false)).WellFormed Phrase.Plain :=
    .single trivial trivial rfl (wellFormed_like "c" "d")
  have hpattern : (binary (.column none none "b") .add (.unary .not (.like (.column none none "c")
      .like (.column none none "d") none false))).WellFormed Phrase.Plain :=
    .intro ⟨trivial, nofun, nofun⟩ (List.forall_mem_cons.2 ⟨wellFormed_column "b",
      List.forall_mem_singleton.2 hnot⟩)
  have hread := ((escape_readAs (wellFormed_column "a") hpattern (wellFormed_column "e") .like
    false).2 rfl).1
  have htext : Rule.toSql .expr (like (column none none "a") .like (.binary (.column none none "b")
      .add (.unary .not (.like (.column none none "c") .like (.column none none "d") none false)))
      (some (column none none "e")) false) = "a LIKE b + NOT c LIKE d ESCAPE e" := by
    decide
  rw [htext] at hread
  exact ⟨hpattern, hread⟩

/-- The escape of `a LIKE (NOT b LIKE c) ESCAPE d` is read as that of `b LIKE c`, so that nothing is
left of it outside. -/
theorem escape_not_kept :
    (unary .not (.like (.column none none "b") .like (.column none none "c") none
        false)).WellFormed Phrase.Plain ∧
      Rule.toSql .expr (.like (.column none none "a") .like
        (.unary .not (.like (.column none none "b") .like (.column none none "c") none false))
        (some (.column none none "d")) false) = "a LIKE NOT b LIKE c ESCAPE d" ∧
      Rule.ReadAs .expr "a LIKE NOT b LIKE c ESCAPE d" (.like (.column none none "a") .like
        (.unary .not (.like (.column none none "b") .like (.column none none "c")
          (some (.column none none "d")) false)) none false) ∧
      ∀ subject op pattern escape negated,
        ¬ Rule.ReadAs .expr "a LIKE NOT b LIKE c ESCAPE d"
          (.like subject op pattern (some escape) negated) := by
  have hplain : ∀ name, (column none none name).WellFormed Phrase.Unambiguous :=
    fun name => (wellFormed_column name).mono fun _ hp => hp.unambiguous
  have hinner : (like (column none none "b") .like (column none none "c")
      (some (column none none "d")) false).WellFormed Phrase.Unambiguous :=
    .intro ⟨trivial, rfl⟩ (List.forall_mem_cons.2 ⟨hplain "b", List.forall_mem_cons.2 ⟨hplain "c",
      List.forall_mem_singleton.2 (hplain "d")⟩⟩)
  have hescaped : (like (column none none "a") .like (.unary .not (.like (.column none none "b")
      .like (.column none none "c") (some (.column none none "d")) false)) none false).WellFormed
        Phrase.Unambiguous :=
    .intro ⟨trivial, trivial⟩ (List.forall_mem_cons.2 ⟨hplain "a", List.forall_mem_singleton.2
      (Phrase.WellFormed.single trivial trivial rfl hinner)⟩)
  have hread := parseRule_toSql (r := .expr) hescaped
  have htext : Rule.toSql .expr (.like (.column none none "a") .like
      (.unary .not (.like (.column none none "b") .like (.column none none "c")
        (some (.column none none "d")) false)) none false) = "a LIKE NOT b LIKE c ESCAPE d" := by
    decide
  rw [htext] at hread
  refine ⟨.single trivial trivial rfl (wellFormed_like "b" "c"), by decide, hread,
    fun subject op pattern escape negated h => ?_⟩
  cases Rule.ReadAs.unique hread h

end Expr

end SqlGrammar
