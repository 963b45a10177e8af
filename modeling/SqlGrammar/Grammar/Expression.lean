import SqlGrammar.Grammar.Goal
import SqlGrammar.Grammar.Power

/-!
# The grammar of expressions

An operand is a prefix operator with its operand, or a primary expression, followed by as many
infix operators as bind at least as strongly as the place demands. Every operand costs a level.
-/

set_option autoImplicit false

namespace SqlGrammar.Grammar

open SqlGrammar.Parser Keyword

/-! ## Primary expressions -/

/-- A literal. -/
def literal : Production Literal := do
  match Literal.ofKind? (← kind) with
  | some value =>
    advance
    return value
  | none => unexpected ["literal value"]

/-- The arguments of a call, without the parentheses. -/
def callArgs : Production CallArgs := do
  if ← accept Operator.star then
    return .star
  else if ← isAt Operator.rightParen then
    return .list false []
  else
    let distinct ← accept DISTINCT
    return .list distinct (← commaSeparated Rule.expr.parse)

/-- A call of a function. -/
def functionCall : Production FunctionCall := do
  match ← callee with
  | some name =>
    advance
    return ⟨name, ← parenthesized callArgs⟩
  | none => unexpected ["function name"]

/-- A column, with a table and a schema or without. -/
def columnName : Production Expr := do
  let first ← identifier
  if ← accept Operator.dot then
    let second ← identifier
    if ← accept Operator.dot then
      return .column (some first) (some second) (← identifier)
    else
      return .column none (some first) second
  else
    return .column none none first

/-- The inside of a cast. -/
def castBody : Production Expr := do
  let subject ← Rule.expr.parse
  expect AS
  return .cast subject (← Rule.typeName.parse)

/-- A branch of a case, its `WHEN` having been read. -/
def whenBranch : Production WhenBranch := do
  let condition ← Rule.expr.parse
  expect THEN
  return ⟨condition, ← Rule.expr.parse⟩

/-- A case. -/
def caseExpr : Production Expr := do
  expect CASE
  let operand ← if ← isAt WHEN then pure none else some <$> Rule.expr.parse
  expect WHEN
  let first ← whenBranch
  let others ← many (behind? WHEN whenBranch)
  let otherwise ← behind? ELSE Rule.expr.parse
  expect END
  return .caseWhen operand (first :: others) otherwise

/-- Whether a query is under the cursor, and not an expression. -/
def startsQuery : Production Bool := do
  if ← isAt SELECT then return true else isAt WITH

/-- What is in parentheses where an expression may stand. -/
def parenBody : Production Expr := do
  if ← startsQuery then
    return .subquery (← Rule.select.parse)
  else
    return .paren (← Rule.expr.parse)

/-- Whether a token of this kind, before an opening parenthesis, calls a function. -/
def startsCall : TokenKind → Bool
  | .identifier _ => true
  | .keyword word => word.namesFunction
  | _ => false

/-- An expression without an operator outside of parentheses. -/
def primary : Production Expr := do
  let now ← kind
  match Literal.ofKind? now with
  | some value =>
    advance
    return .literal value
  | none =>
    -- ahead of the columns, which start with a name too
    if startsCall now && (← isNext Operator.leftParen) then
      return .call (← Rule.functionCall.parse)
    else
      match now with
      | .parameter text =>
        advance
        return .parameter text
      | .identifier _ => columnName
      | .keyword .CAST =>
        advance
        parenthesized castBody
      | .keyword .CASE => caseExpr
      | .keyword .EXISTS =>
        advance
        return .existsRow (← parenthesized Rule.select.parse)
      | .operator .leftParen => parenthesized parenBody
      | _ => unexpected ["expression"]

/-! ## Operators -/

/-- An operand in which only operators of a least power are taken. -/
def operandOf (least : Nat) : Production Expr := Parser.goal (Goal.operand least)

/-- The start of an operand: a prefix operator with its own operand, or a primary expression. -/
def operandHead : Production Expr := do
  match UnaryOp.ofKind? (← kind) with
  | some op =>
    advance
    return .unary op (← operandOf op.power)
  | none => primary

/-- The forms an expression can take behind its first operand. -/
inductive InfixForm where
  | like (op : LikeOp)
  | is
  | isNull
  | notNull
  | within
  | between
  | collate
  | binary (op : BinaryOp)
  deriving DecidableEq, Repr

/-- The form that a token starts. -/
def InfixForm.ofKind? (kind : TokenKind) : Option InfixForm :=
  match LikeOp.ofKind? kind with
  | some op => some (like op)
  | none =>
    match kind with
    | .keyword .IS => some is
    | .keyword .ISNULL => some isNull
    | .keyword .NOTNULL => some notNull
    | .keyword .NULL => some notNull
    | .keyword .IN => some within
    | .keyword .BETWEEN => some between
    | .keyword .COLLATE => some collate
    | kind => (BinaryOp.ofKind? kind).map binary

/-- What `IN` looks into, without the parentheses. -/
def inSet : Production InSet := do
  if ← startsQuery then
    return .query (← Rule.select.parse)
  else if ← isAt Operator.rightParen then
    return .values []
  else
    return .values (← commaSeparated Rule.expr.parse)

/-- The rest of an infix form whose first token has been read. The operands on the right are held
with the power `right`. A comparison by `IS` with a bare `NULL` is the test for null. -/
def infixRest (left : Expr) (negated : Bool) (right : Nat) : InfixForm → Production Expr
  | .like op => do
    let pattern ← operandOf right
    let escape ← behind? ESCAPE (operandOf right)
    return .like left op pattern escape negated
  | .is => do
    let isNot ← accept NOT
    match ← operandOf right with
    | .literal .null => return .isNull left isNot
    | value => return .binary left (if isNot then .isNot else .is) value
  | .isNull => return .isNull left false
  | .notNull => return .isNull left true
  | .within => do
    return .within left (← parenthesized inSet) negated
  | .between => do
    let low ← operandOf right
    expect AND
    return .between left low (← operandOf right) negated
  | .collate => do
    return .collate left (← identifier)
  | .binary op => do
    return .binary left op (← operandOf right)

/-- An infix form behind its first operand, with a `NOT` before it or without. The operator is
looked at before it is taken; where `extend` goes on, taking it first would give the same reply
(`infixTaken_of_infixHere`). -/
def infixForm (left : Expr) (right : Nat) : Production Expr := do
  let negated ← accept NOT
  match InfixForm.ofKind? (← kind) with
  | some form =>
    advance
    infixRest left negated right form
  | none => unexpected ["operator"]

/-- The power of the infix operator that starts here and binds at least as strongly as demanded.
A `NOT` counts only where it belongs to an operator. -/
def infixHere? (least : Nat) (now next : TokenKind) : Option Nat :=
  match infixPower? now with
  | some power =>
    if power < least then none
    else if now == .keyword .NOT && !followsInfixNot next then none
    else some power
  | none => none

/-- The expression extended by the operator under the cursor, if there is one to be taken. -/
def extend (least : Nat) (left : Expr) : Production (Option Expr) := do
  match infixHere? least (← look 0) (← look 1) with
  | some power => return some (← infixForm left (power + 1))
  | none => return none

/-- An operand in which only operators of a least power are taken. -/
def operand (least : Nat) : Production Expr := do
  iterate (extend least) (← operandHead)

/-- An expression: an operand that takes every operator. -/
def expr : Production Expr := operandOf 0

end SqlGrammar.Grammar
