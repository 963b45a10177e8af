import SqlGrammar.Proofs.Tree.Regroup

/-!
# Written parentheses are canonical

A tree and the same tree with the parentheses that it is written with are written alike
(`Phrase.pieces_regroup`): once the parentheses are nodes of the tree, no operand needs more of
them.
-/

set_option autoImplicit false

namespace SqlGrammar

/-! ## Lists of pieces -/

/-- `exprsPieces` is `List.map`, spelled out for the recursion. So are those below. -/
@[simp] theorem exprsPieces_eq (es : List Expr) : exprsPieces es = es.map Expr.pieces := by
  induction es with
  | nil => rfl
  | cons e es ih => rw [exprsPieces, ih, List.map_cons]

@[simp] theorem exprPieces?_eq (e : Option Expr) : exprPieces? e = e.map Expr.pieces := by
  cases e <;> rfl

@[simp] theorem rightPieces?_eq (e : Option Expr) :
    rightPieces? e =
      e.map fun x => parensUnless (x.fitsRight (equalityPower + 1)) x.pieces := by
  cases e <;> rfl

@[simp] theorem branchesPieces_eq (bs : List WhenBranch) :
    branchesPieces bs = bs.flatMap WhenBranch.pieces := by
  induction bs with
  | nil => rfl
  | cons b bs ih => rw [branchesPieces, ih, List.flatMap_cons]

@[simp] theorem columnsPieces_eq (cs : List ResultColumn) :
    columnsPieces cs = cs.map ResultColumn.pieces := by
  induction cs with
  | nil => rfl
  | cons c cs ih => rw [columnsPieces, ih, List.map_cons]

@[simp] theorem termsPieces_eq (ts : List OrderingTerm) :
    termsPieces ts = ts.map OrderingTerm.pieces := by
  induction ts with
  | nil => rfl
  | cons t ts ih => rw [termsPieces, ih, List.map_cons]

@[simp] theorem limitPieces?_eq (l : Option LimitClause) :
    limitPieces? l = l.map LimitClause.pieces := by
  cases l <;> rfl

/-! ## The outside of a regrouped expression -/

namespace Expr

section Outside

variable (g : Grouping) (e : Expr)

/-- `regroup` changes operands only, and so nothing that is seen of the expression from outside. -/
@[simp] theorem power_regroup : (e.regroup g).power = e.power := by
  cases e <;> rfl

@[simp] theorem isPrefixed_regroup : (e.regroup g).isPrefixed = e.isPrefixed := by
  cases e <;> rfl

@[simp] theorem isNegation_regroup : (e.regroup g).isNegation = e.isNegation := by
  cases e <;> try rfl
  next op operand => cases op <;> rfl

@[simp] theorem fitsRight_regroup (least : Nat) :
    (e.regroup g).fitsRight least = e.fitsRight least := by
  simp [fitsRight]

/-- No `tailPower` is above `atomPower`. -/
theorem tailPower_le_atomPower : e.tailPower ≤ atomPower := by
  fun_induction tailPower e with
  | case1 operand ih => exact Nat.le_trans (Nat.min_le_right _ _) ih
  | _ => first | assumption | exact Nat.le_refl _

/-- More parentheses leave less of an expression open at its end. -/
theorem tailPower_le_enclose (needed : Bool) {e e' : Expr} (h : e.tailPower ≤ e'.tailPower) :
    e.tailPower ≤ (e'.enclose needed).tailPower := by
  cases needed with
  | false => exact h
  | true => exact e.tailPower_le_atomPower

/-- Parentheses can only raise the `tailPower`, as they close what they enclose. -/
theorem tailPower_le_regroup : e.tailPower ≤ (e.regroup g).tailPower := by
  fun_induction tailPower e with
  -- a negation is open up to its own power, whatever its operand is
  | case1 operand ih =>
    have := tailPower_le_enclose (g.right operand (UnaryOp.power .not)) ih
    simp only [regroup, tailPower]
    omega
  | case2 operand ih | case3 operand ih | case4 operand ih => exact tailPower_le_enclose _ ih
  | case5 left op right ih => exact tailPower_le_enclose _ ih
  | case6 subject op pattern escape negated ih => exact tailPower_le_enclose _ ih
  | case7 subject op pattern negated ih => exact tailPower_le_enclose _ ih
  | case8 subject low high negated ih => exact tailPower_le_enclose _ ih
  | _ => exact Nat.le_refl _

/-- The pieces of a left operand of an operator of a power. -/
def leftPieces (power : Nat) : List Piece := parensUnless (e.fitsLeft power) e.pieces

/-- The pieces of an operand where a power is demanded. -/
def rightPieces (least : Nat) : List Piece := parensUnless (e.fitsRight least) e.pieces

/-- A right operand with the parentheses it is written with needs no more of them. -/
theorem rightPieces_regroup {least : Nat} (hleast : least ≤ atomPower)
    (h : (e.regroup .written).pieces = e.pieces) :
    (e.regroupRight .written least).rightPieces least = e.rightPieces least := by
  unfold rightPieces regroupRight
  cases hfit : e.fitsRight least with
  | true => simp [hfit, h]
  | false =>
    -- what has got parentheses fits everywhere
    have hparen : (paren (e.regroup .written)).fitsRight least = true := by
      simp [fitsRight, isPrefixed, power, hleast]
    simp [hfit, hparen, parensUnless, pieces, h]

/-- A left operand with the parentheses it is written with needs no more of them. -/
theorem leftPieces_regroup {power : Nat} (hpower : power < atomPower)
    (h : (e.regroup .written).pieces = e.pieces) :
    (e.regroupLeft .written power).leftPieces power = e.leftPieces power := by
  unfold leftPieces regroupLeft
  cases hfit : e.fitsLeft power with
  | true =>
    -- inside, the operand may have become less open, and fits all the more
    have htail := e.tailPower_le_regroup .written
    have hfit' : (e.regroup .written).fitsLeft power = true := by
      simp only [fitsLeft, power_regroup, Bool.and_eq_true, decide_eq_true_eq] at hfit ⊢
      omega
    simp [hfit, hfit', parensUnless, h]
  | false =>
    have hparen : (paren (e.regroup .written)).fitsLeft power = true := by
      simp [fitsLeft, Expr.power, tailPower, hpower, Nat.le_of_lt hpower]
    simp [hfit, hparen, parensUnless, pieces, h]

/-- Only an operand that stands by itself can be a negation. -/
theorem isNegation_regroupRight (least : Nat) :
    (e.regroupRight .written least).isNegation = e.isNegation := by
  unfold regroupRight
  cases hfit : e.fitsRight least with
  | true => simp [hfit]
  | false =>
    -- a negation fits as a right operand wherever it stands
    have hneg : e.isNegation = false := by
      cases e <;> simp_all [fitsRight, isPrefixed, isNegation]
    rw [hneg, Grouping.written_right, hfit]
    rfl

end Outside

/-! ## The pieces of operators and their operands -/

/-- The pieces of each form of an expression with operands, with these as `leftPieces` and
`rightPieces`. -/
theorem pieces_unary (op : UnaryOp) (operand : Expr) :
    (unary op operand).pieces = op.pieces operand ++ operand.rightPieces op.power := rfl

theorem pieces_binary (left : Expr) (op : BinaryOp) (right : Expr) :
    (binary left op right).pieces =
      left.leftPieces op.power ++ op.pieces ++ right.rightPieces (op.power + 1) := rfl

theorem pieces_like (subject : Expr) (op : LikeOp) (pattern : Expr) (escape : Option Expr)
    (negated : Bool) :
    (like subject op pattern escape negated).pieces =
      subject.leftPieces equalityPower ++ Pieces.flag [.NOT] negated ++ [.keyword op.keyword] ++
        pattern.rightPieces (equalityPower + 1) ++
        Pieces.clause [.ESCAPE] (escape.map fun x => x.rightPieces (equalityPower + 1)) := by
  rw [pieces, rightPieces?_eq]
  rfl

theorem pieces_isNull (subject : Expr) (negated : Bool) :
    (isNull subject negated).pieces =
      subject.leftPieces equalityPower ++ [.keyword .IS] ++ Pieces.flag [.NOT] negated ++
        [.keyword .NULL] := rfl

theorem pieces_between (subject low high : Expr) (negated : Bool) :
    (between subject low high negated).pieces =
      subject.leftPieces equalityPower ++ Pieces.flag [.NOT] negated ++ [.keyword .BETWEEN] ++
        low.rightPieces (equalityPower + 1) ++ [.keyword .AND] ++
        high.rightPieces (equalityPower + 1) := rfl

theorem pieces_within (subject : Expr) (set : InSet) (negated : Bool) :
    (within subject set negated).pieces =
      subject.leftPieces equalityPower ++ Pieces.flag [.NOT] negated ++ [.keyword .IN] ++
        Pieces.inParens set.pieces := rfl

theorem pieces_collate (subject : Expr) (collation : String) :
    (collate subject collation).pieces =
      subject.leftPieces collatePower ++ [.keyword .COLLATE, .name collation] := rfl

end Expr

/-- A prefix operator depends on its operand only by `isNegation`. -/
theorem UnaryOp.pieces_congr (op : UnaryOp) {x y : Expr} (h : x.isNegation = y.isNegation) :
    op.pieces x = op.pieces y := by
  cases op <;> simp [UnaryOp.pieces, h]

/-- No prefix operator binds more strongly than `atomPower`. -/
theorem UnaryOp.power_le (op : UnaryOp) : op.power ≤ atomPower := by
  cases op <;> decide

/-- The power demanded of a right operand is less than `atomPower`. -/
theorem BinaryOp.succ_power_lt (op : BinaryOp) : op.power + 1 < atomPower := by
  cases op <;> decide

theorem BinaryOp.power_lt_atomPower (op : BinaryOp) : op.power < atomPower :=
  Nat.lt_of_succ_lt op.succ_power_lt

/-! ## All phrases -/

namespace Phrase

/-- The phrase with the parentheses of a grouping. -/
def regroup (g : Grouping) : Phrase → Phrase
  | expr e => expr (e.regroup g)
  | call c => call (c.regroup g)
  | args a => args (a.regroup g)
  | set s => set (s.regroup g)
  | branch b => branch (b.regroup g)
  | column c => column (c.regroup g)
  | term t => term (t.regroup g)
  | limit l => limit (l.regroup g)
  | query q => query (q.regroup g)

/-- The pieces of a phrase. -/
def pieces : Phrase → List Piece
  | expr e => e.pieces
  | call c => c.pieces
  | args a => a.pieces
  | set s => s.pieces
  | branch b => b.pieces
  | column c => c.pieces
  | term t => t.pieces
  | limit l => l.pieces
  | query q => q.pieces

/-- Members of a list that are written as before make up a list that is written as before. -/
theorem map_pieces_congr {α β : Type} {f : α → α} {write : α → β} {as : List α}
    (h : ∀ a ∈ as, write (f a) = write a) : (as.map f).map write = as.map write := by
  rw [List.map_map]
  exact List.map_congr_left h

/-- What is written of what there may be does not change if it does not where there is some. -/
theorem optionMap_pieces_congr {α β : Type} {f : α → α} {write : α → β} {o : Option α}
    (h : ∀ a, o = some a → write (f a) = write a) : (o.map f).map write = o.map write := by
  cases o with
  | none => rfl
  | some a => exact congrArg some (h a rfl)

/-- An expression is written as before if its parts are. The operands of an operator have their own
parentheses from `Expr.leftPieces_regroup` and `Expr.rightPieces_regroup`. -/
theorem pieces_regroup_expr {e : Expr}
    (ih : ∀ q ∈ (expr e).parts, (q.regroup .written).pieces = q.pieces) :
    (e.regroup .written).pieces = e.pieces := by
  have hleft : ∀ {x : Expr} {power : Nat}, expr x ∈ (expr e).parts → power < atomPower →
      (x.regroupLeft .written power).leftPieces power = x.leftPieces power :=
    fun hx hp => Expr.leftPieces_regroup _ hp (ih _ hx)
  have hright : ∀ {x : Expr} {least : Nat}, expr x ∈ (expr e).parts → least ≤ atomPower →
      (x.regroupRight .written least).rightPieces least = x.rightPieces least :=
    fun hx hp => Expr.rightPieces_regroup _ hp (ih _ hx)
  -- the operands of operators by their place, all other parts as they are
  cases e with
  | literal | parameter | column => rfl
  | unary op operand =>
    rw [Expr.regroup_unary, Expr.pieces_unary, Expr.pieces_unary,
      hright (by simp [parts]) op.power_le,
      op.pieces_congr (operand.isNegation_regroupRight op.power)]
  | binary left op right =>
    have := op.succ_power_lt
    rw [Expr.regroup_binary, Expr.pieces_binary, Expr.pieces_binary,
      hleft (by simp [parts]) (by omega), hright (by simp [parts]) (by omega)]
  | like subject op pattern escape negated =>
    have hescape : (escape.map (Expr.regroupRight .written (equalityPower + 1))).map
        (fun x => x.rightPieces (equalityPower + 1)) =
        escape.map fun x => x.rightPieces (equalityPower + 1) :=
      optionMap_pieces_congr fun x hx => hright (by simp [parts, hx]) (by decide)
    rw [Expr.regroup_like, Expr.pieces_like, Expr.pieces_like,
      hleft (by simp [parts]) (by decide), hright (by simp [parts]) (by decide), hescape]
  | isNull subject negated =>
    rw [Expr.regroup_isNull, Expr.pieces_isNull, Expr.pieces_isNull,
      hleft (by simp [parts]) (by decide)]
  | between subject low high negated =>
    rw [Expr.regroup_between, Expr.pieces_between,
      Expr.pieces_between, hleft (by simp [parts]) (by decide),
      hright (by simp [parts]) (by decide), hright (by simp [parts]) (by decide)]
  | within subject s negated =>
    have hset : (s.regroup .written).pieces = s.pieces := ih (.set s) (by simp [parts])
    rw [Expr.regroup_within, Expr.pieces_within, Expr.pieces_within,
      hleft (by simp [parts]) (by decide), hset]
  | collate subject collation =>
    rw [Expr.regroup_collate, Expr.pieces_collate,
      Expr.pieces_collate, hleft (by simp [parts]) (by decide)]
  | call c => exact ih (.call c) (by simp [parts])
  | cast subject type =>
    have hsubject : (subject.regroup .written).pieces = subject.pieces :=
      ih (.expr subject) (by simp [parts])
    simp only [Expr.regroup, Expr.pieces, hsubject]
  | caseWhen operand branches otherwise =>
    have hoperand : (operand.map (Expr.regroup .written)).map Expr.pieces =
        operand.map Expr.pieces :=
      optionMap_pieces_congr fun x hx => ih (.expr x) (by simp [parts, hx])
    have hotherwise : (otherwise.map (Expr.regroup .written)).map Expr.pieces =
        otherwise.map Expr.pieces :=
      optionMap_pieces_congr fun x hx => ih (.expr x) (by simp [parts, hx])
    have hbranches : (branches.map (WhenBranch.regroup .written)).flatMap WhenBranch.pieces =
        branches.flatMap WhenBranch.pieces := by
      rw [List.flatMap_def, List.flatMap_def]
      exact congrArg List.flatten
        (map_pieces_congr fun b hb => ih (.branch b) (by simp [parts, hb]))
    simp only [Expr.regroup, Expr.pieces, regroupExpr?_eq, regroupBranches_eq,
      exprPieces?_eq, branchesPieces_eq, hoperand, hbranches, hotherwise]
  | existsRow q =>
    have hq : (q.regroup .written).pieces = q.pieces := ih (.query q) (by simp [parts])
    simp only [Expr.regroup, Expr.pieces, hq]
  | subquery q =>
    have hq : (q.regroup .written).pieces = q.pieces := ih (.query q) (by simp [parts])
    simp only [Expr.regroup, Expr.pieces, hq]
  | paren inner =>
    have hinner : (inner.regroup .written).pieces = inner.pieces :=
      ih (.expr inner) (by simp [parts])
    simp only [Expr.regroup, Expr.pieces, hinner]

/-- A query is written as before if its parts are. -/
theorem pieces_regroup_query {q : Select}
    (ih : ∀ p ∈ (query q).parts, (p.regroup .written).pieces = p.pieces) :
    (q.regroup .written).pieces = q.pieces := by
  obtain ⟨distinct, columns, sources, filter, groupBy, having, orderBy, bound⟩ := q
  have hcolumns : (columns.map (ResultColumn.regroup .written)).map ResultColumn.pieces =
      columns.map ResultColumn.pieces :=
    map_pieces_congr fun c hc => ih (.column c) (by simp [parts, hc])
  have hoption : ∀ o : Option Expr, (∀ x, o = some x → .expr x ∈ parts (.query
      ⟨distinct, columns, sources, filter, groupBy, having, orderBy, bound⟩)) →
      (o.map (Expr.regroup .written)).map Expr.pieces = o.map Expr.pieces :=
    fun o ho => optionMap_pieces_congr fun x hx => ih (.expr x) (ho x hx)
  have hgroupBy : (groupBy.map (Expr.regroup .written)).map Expr.pieces =
      groupBy.map Expr.pieces :=
    map_pieces_congr fun e he => ih (.expr e) (by simp [parts, he])
  have horderBy : (orderBy.map (OrderingTerm.regroup .written)).map OrderingTerm.pieces =
      orderBy.map OrderingTerm.pieces :=
    map_pieces_congr fun t ht => ih (.term t) (by simp [parts, ht])
  have hbound : (bound.map (LimitClause.regroup .written)).map LimitClause.pieces =
      bound.map LimitClause.pieces :=
    optionMap_pieces_congr fun l hl => ih (.limit l) (by simp [parts, hl])
  simp only [Select.regroup, Select.pieces, regroupColumns_eq,
    regroupExpr?_eq, regroupExprs_eq, regroupTerms_eq, regroupLimit?_eq, columnsPieces_eq,
    exprPieces?_eq, exprsPieces_eq, termsPieces_eq, limitPieces?_eq, List.isEmpty_map,
    hcolumns, hgroupBy, horderBy, hbound, hoption filter (by simp +contextual [parts]),
    hoption having (by simp +contextual [parts])]

/-- A phrase with the parentheses it is written with is written like the phrase itself. -/
theorem pieces_regroup (p : Phrase) : (p.regroup .written).pieces = p.pieces := by
  induction p using Phrase.induction with
  | step p ih =>
    cases p with
    | expr e => exact pieces_regroup_expr ih
    | call c =>
      obtain ⟨name, a⟩ := c
      have ha : (a.regroup .written).pieces = a.pieces := ih (.args a) (by simp [parts])
      simp only [regroup, FunctionCall.regroup, pieces, FunctionCall.pieces, ha]
    | args a =>
      cases a with
      | star => rfl
      | list distinct es =>
        have hes : (es.map (Expr.regroup .written)).map Expr.pieces = es.map Expr.pieces :=
          map_pieces_congr fun e he => ih (.expr e) (by simp [parts, he])
        simp only [regroup, CallArgs.regroup, pieces, CallArgs.pieces, regroupExprs_eq,
          exprsPieces_eq, hes]
    | set s =>
      cases s with
      | values es =>
        have hes : (es.map (Expr.regroup .written)).map Expr.pieces = es.map Expr.pieces :=
          map_pieces_congr fun e he => ih (.expr e) (by simp [parts, he])
        simp only [regroup, InSet.regroup, pieces, InSet.pieces, regroupExprs_eq, exprsPieces_eq,
          hes]
      | query q => exact ih (.query q) (by simp [parts])
    | branch b =>
      obtain ⟨condition, result⟩ := b
      have hcondition : (condition.regroup .written).pieces = condition.pieces :=
        ih (.expr condition) (by simp [parts])
      have hresult : (result.regroup .written).pieces = result.pieces :=
        ih (.expr result) (by simp [parts])
      simp only [regroup, WhenBranch.regroup, pieces, WhenBranch.pieces, hcondition, hresult]
    | column c =>
      cases c with
      | all | allOf => rfl
      | expr e name =>
        have he : (e.regroup .written).pieces = e.pieces := ih (.expr e) (by simp [parts])
        simp only [regroup, ResultColumn.regroup, pieces, ResultColumn.pieces, he]
    | term t =>
      obtain ⟨key, direction⟩ := t
      have hkey : (key.regroup .written).pieces = key.pieces := ih (.expr key) (by simp [parts])
      simp only [regroup, OrderingTerm.regroup, pieces, OrderingTerm.pieces, hkey]
    | limit l =>
      obtain ⟨bound, offset⟩ := l
      have hbound : (bound.regroup .written).pieces = bound.pieces :=
        ih (.expr bound) (by simp [parts])
      have hoffset : (offset.map (Expr.regroup .written)).map Expr.pieces =
          offset.map Expr.pieces :=
        optionMap_pieces_congr fun x hx => ih (.expr x) (by simp [parts, hx])
      simp only [regroup, LimitClause.regroup, pieces, LimitClause.pieces, regroupExpr?_eq,
        exprPieces?_eq, hbound, hoffset]
    | query q => exact pieces_regroup_query ih

end Phrase

end SqlGrammar
