import SqlGrammar.Proofs.Tree.Phrase
import SqlGrammar.Tree.Statement
import SqlGrammar.Writing.Expression

/-!
# Parentheses around operands

A tree that is written and read again can only differ in this, that some operands have got
parentheses of their own. A `Grouping` says which; `regroup` puts the parentheses in, and changes
nothing else. Two groupings matter: the one in which a tree is written (`Grouping.written`), and the
one that is left of it when the tree itself came from a text (`Grouping.guard`).
-/

set_option autoImplicit false

namespace SqlGrammar

/-- Which operands get parentheses: on the left of an operator of a power, and where a power is
demanded on the right. -/
structure Grouping where
  left : Expr → Nat → Bool
  right : Expr → Nat → Bool

/-- The expression in parentheses, if they are needed. -/
def Expr.enclose (needed : Bool) (e : Expr) : Expr := if needed then .paren e else e

/-- Whether the expression is a test that ends with its operator: for null, or with `IN`. -/
def Expr.isTest : Expr → Bool
  | isNull .. | within .. => true
  | _ => false

namespace Grouping

/-- The parentheses that a tree is written with. -/
def written : Grouping where
  left e power := !e.fitsLeft power
  right e least := !e.fitsRight least

/-- Parentheses around each test that stands before an operator which binds more strongly. -/
def guard : Grouping where
  left e power := e.isTest && equalityPower < power
  right _ _ := false

/-- A left operand is written in parentheses unless `Expr.fitsLeft`. -/
@[simp] theorem written_left (e : Expr) (power : Nat) :
    written.left e power = !e.fitsLeft power := rfl

/-- A right operand is written in parentheses unless `Expr.fitsRight`. -/
@[simp] theorem written_right (e : Expr) (least : Nat) :
    written.right e least = !e.fitsRight least := rfl

/-- Of left operands, `guard` encloses those with `Expr.isTest` before a tighter operator. -/
@[simp] theorem guard_left (e : Expr) (power : Nat) :
    guard.left e power = (e.isTest && equalityPower < power) := rfl

/-- No right operand is enclosed by `guard`. -/
@[simp] theorem guard_right (e : Expr) (least : Nat) : guard.right e least = false := rfl

end Grouping

@[simp] theorem Expr.enclose_true (e : Expr) : e.enclose true = .paren e := rfl

@[simp] theorem Expr.enclose_false (e : Expr) : e.enclose false = e := rfl

/-! ## Expressions and queries -/

mutual

/-- The expression with the parentheses of a grouping. -/
def Expr.regroup (g : Grouping) : Expr → Expr
  | .literal value => .literal value
  | .parameter text => .parameter text
  | .column schema table name => .column schema table name
  | .unary op operand => .unary op ((operand.regroup g).enclose (g.right operand op.power))
  | .binary left op right =>
    .binary ((left.regroup g).enclose (g.left left op.power)) op
      ((right.regroup g).enclose (g.right right (op.power + 1)))
  | .like subject op pattern escape negated =>
    .like ((subject.regroup g).enclose (g.left subject equalityPower)) op
      ((pattern.regroup g).enclose (g.right pattern (equalityPower + 1))) (regroupRight? g escape)
      negated
  | .isNull subject negated =>
    .isNull ((subject.regroup g).enclose (g.left subject equalityPower)) negated
  | .between subject low high negated =>
    .between ((subject.regroup g).enclose (g.left subject equalityPower))
      ((low.regroup g).enclose (g.right low (equalityPower + 1)))
      ((high.regroup g).enclose (g.right high (equalityPower + 1))) negated
  | .within subject set negated =>
    .within ((subject.regroup g).enclose (g.left subject equalityPower)) (set.regroup g) negated
  | .call call => .call (call.regroup g)
  | .cast subject type => .cast (subject.regroup g) type
  | .caseWhen operand branches otherwise =>
    .caseWhen (regroupExpr? g operand) (regroupBranches g branches) (regroupExpr? g otherwise)
  | .collate subject collation =>
    .collate ((subject.regroup g).enclose (g.left subject collatePower)) collation
  | .existsRow query => .existsRow (query.regroup g)
  | .subquery query => .subquery (query.regroup g)
  | .paren inner => .paren (inner.regroup g)
termination_by structural e => e

/-- The call with the parentheses of a grouping. -/
def FunctionCall.regroup (g : Grouping) : FunctionCall → FunctionCall
  | ⟨name, args⟩ => ⟨name, args.regroup g⟩
termination_by structural c => c

/-- The arguments with the parentheses of a grouping. -/
def CallArgs.regroup (g : Grouping) : CallArgs → CallArgs
  | .star => .star
  | .list distinct args => .list distinct (regroupExprs g args)
termination_by structural a => a

/-- The set with the parentheses of a grouping. -/
def InSet.regroup (g : Grouping) : InSet → InSet
  | .values items => .values (regroupExprs g items)
  | .query query => .query (query.regroup g)
termination_by structural s => s

/-- The branch with the parentheses of a grouping. -/
def WhenBranch.regroup (g : Grouping) : WhenBranch → WhenBranch
  | ⟨condition, result⟩ => ⟨condition.regroup g, result.regroup g⟩
termination_by structural b => b

/-- The result column with the parentheses of a grouping. -/
def ResultColumn.regroup (g : Grouping) : ResultColumn → ResultColumn
  | .all => .all
  | .allOf table => .allOf table
  | .expr value aliasName => .expr (value.regroup g) aliasName
termination_by structural c => c

/-- The ordering term with the parentheses of a grouping. -/
def OrderingTerm.regroup (g : Grouping) : OrderingTerm → OrderingTerm
  | ⟨key, direction⟩ => ⟨key.regroup g, direction⟩
termination_by structural t => t

/-- The bound with the parentheses of a grouping. -/
def LimitClause.regroup (g : Grouping) : LimitClause → LimitClause
  | ⟨limit, offset⟩ => ⟨limit.regroup g, regroupExpr? g offset⟩
termination_by structural l => l

/-- The query with the parentheses of a grouping. -/
def Select.regroup (g : Grouping) : Select → Select
  | ⟨distinct, columns, sources, filter, groupBy, having, orderBy, limit⟩ =>
    ⟨distinct, regroupColumns g columns, sources, regroupExpr? g filter, regroupExprs g groupBy,
      regroupExpr? g having, regroupTerms g orderBy, regroupLimit? g limit⟩
termination_by structural q => q

/-- Each expression of a list with the parentheses of a grouping. -/
def regroupExprs (g : Grouping) : List Expr → List Expr
  | [] => []
  | e :: es => e.regroup g :: regroupExprs g es
termination_by structural es => es

/-- An expression with the parentheses of a grouping, if there is one. -/
def regroupExpr? (g : Grouping) : Option Expr → Option Expr
  | none => none
  | some e => some (e.regroup g)
termination_by structural e => e

/-- The escape of a pattern with the parentheses of a grouping, if there is one. -/
def regroupRight? (g : Grouping) : Option Expr → Option Expr
  | none => none
  | some e => some ((e.regroup g).enclose (g.right e (equalityPower + 1)))
termination_by structural e => e

/-- Each branch of a list with the parentheses of a grouping. -/
def regroupBranches (g : Grouping) : List WhenBranch → List WhenBranch
  | [] => []
  | b :: bs => b.regroup g :: regroupBranches g bs
termination_by structural bs => bs

/-- Each result column of a list with the parentheses of a grouping. -/
def regroupColumns (g : Grouping) : List ResultColumn → List ResultColumn
  | [] => []
  | c :: cs => c.regroup g :: regroupColumns g cs
termination_by structural cs => cs

/-- Each ordering term of a list with the parentheses of a grouping. -/
def regroupTerms (g : Grouping) : List OrderingTerm → List OrderingTerm
  | [] => []
  | t :: ts => t.regroup g :: regroupTerms g ts
termination_by structural ts => ts

/-- A bound with the parentheses of a grouping, if there is one. -/
def regroupLimit? (g : Grouping) : Option LimitClause → Option LimitClause
  | none => none
  | some l => some (l.regroup g)
termination_by structural l => l

end

section Lists

variable (g : Grouping)

/-- `regroupExprs` is `List.map`, spelled out for the recursion. So are those below. -/
@[simp] theorem regroupExprs_eq (es : List Expr) :
    regroupExprs g es = es.map (Expr.regroup g) := by
  induction es with
  | nil => rfl
  | cons e es ih => rw [regroupExprs, ih, List.map_cons]

@[simp] theorem regroupExpr?_eq (e : Option Expr) :
    regroupExpr? g e = e.map (Expr.regroup g) := by
  cases e <;> rfl

@[simp] theorem regroupRight?_eq (e : Option Expr) :
    regroupRight? g e =
      e.map fun x => (x.regroup g).enclose (g.right x (equalityPower + 1)) := by
  cases e <;> rfl

@[simp] theorem regroupBranches_eq (bs : List WhenBranch) :
    regroupBranches g bs = bs.map (WhenBranch.regroup g) := by
  induction bs with
  | nil => rfl
  | cons b bs ih => rw [regroupBranches, ih, List.map_cons]

@[simp] theorem regroupColumns_eq (cs : List ResultColumn) :
    regroupColumns g cs = cs.map (ResultColumn.regroup g) := by
  induction cs with
  | nil => rfl
  | cons c cs ih => rw [regroupColumns, ih, List.map_cons]

@[simp] theorem regroupTerms_eq (ts : List OrderingTerm) :
    regroupTerms g ts = ts.map (OrderingTerm.regroup g) := by
  induction ts with
  | nil => rfl
  | cons t ts ih => rw [regroupTerms, ih, List.map_cons]

@[simp] theorem regroupLimit?_eq (l : Option LimitClause) :
    regroupLimit? g l = l.map (LimitClause.regroup g) := by
  cases l <;> rfl

/-- Of a query, `regroup` goes into all parts with expressions, and keeps the others. -/
theorem Select.regroup_eq (q : Select) : q.regroup g =
    { q with
      columns := q.columns.map (ResultColumn.regroup g)
      filter := q.filter.map (Expr.regroup g)
      groupBy := q.groupBy.map (Expr.regroup g)
      having := q.having.map (Expr.regroup g)
      orderBy := q.orderBy.map (OrderingTerm.regroup g)
      limit := q.limit.map (LimitClause.regroup g) } := by
  obtain ⟨distinct, columns, sources, filter, groupBy, having, orderBy, limit⟩ := q
  simp [regroup]

end Lists

/-! ## Operands -/

namespace Expr

variable (g : Grouping)

/-- The expression as the left operand of an operator of a power. -/
def regroupLeft (power : Nat) (e : Expr) : Expr := (e.regroup g).enclose (g.left e power)

/-- The expression as an operand where a power is demanded. -/
def regroupRight (least : Nat) (e : Expr) : Expr := (e.regroup g).enclose (g.right e least)

/-- `regroup` of a prefix operator, with its operand as `regroupRight`. -/
theorem regroup_unary (op : UnaryOp) (operand : Expr) :
    (unary op operand).regroup g = unary op (operand.regroupRight g op.power) := rfl

/-- The right operand must bind more tightly than the operator, the left one as tightly. -/
theorem regroup_binary (left : Expr) (op : BinaryOp) (right : Expr) :
    (binary left op right).regroup g =
      binary (left.regroupLeft g op.power) op (right.regroupRight g (op.power + 1)) := rfl

/-- The pattern and the escape are both right operands, at the power above `equalityPower`. -/
theorem regroup_like (subject : Expr) (op : LikeOp) (pattern : Expr) (escape : Option Expr)
    (negated : Bool) :
    (like subject op pattern escape negated).regroup g =
      like (subject.regroupLeft g equalityPower) op (pattern.regroupRight g (equalityPower + 1))
        (escape.map (regroupRight g (equalityPower + 1))) negated := by
  rw [regroup, regroupRight?_eq]
  rfl

/-- The subject of a test is a left operand at `equalityPower`. -/
theorem regroup_isNull (subject : Expr) (negated : Bool) :
    (isNull subject negated).regroup g = isNull (subject.regroupLeft g equalityPower) negated := rfl

/-- Both bounds are right operands, at the power above `equalityPower`. -/
theorem regroup_between (subject low high : Expr) (negated : Bool) :
    (between subject low high negated).regroup g =
      between (subject.regroupLeft g equalityPower) (low.regroupRight g (equalityPower + 1))
        (high.regroupRight g (equalityPower + 1)) negated := rfl

/-- What `IN` looks into is regrouped on its own. -/
theorem regroup_within (subject : Expr) (set : InSet) (negated : Bool) :
    (within subject set negated).regroup g =
      within (subject.regroupLeft g equalityPower) (set.regroup g) negated := rfl

/-- The subject of `COLLATE` is a left operand at `collatePower`. -/
theorem regroup_collate (subject : Expr) (collation : String) :
    (collate subject collation).regroup g =
      collate (subject.regroupLeft g collatePower) collation := rfl

end Expr

end SqlGrammar
