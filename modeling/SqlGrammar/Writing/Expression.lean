import SqlGrammar.Grammar.Power
import SqlGrammar.Writing.Piece

/-!
# Writing expressions and queries

The pieces of expressions and queries. An operand without parentheses of its own gets some where it
would be read differently without. A left operand needs them if it binds more weakly than the
operator behind it, or ends in a `NOT` that would take the operator in. A right operand needs them
only if it binds more weakly and does not start with a prefix operator.
-/

set_option autoImplicit false

namespace SqlGrammar

open Pieces

/-! ## Leaves -/

/-- The pieces of a literal. -/
def Literal.pieces : Literal → List Piece
  | number text => [.raw text]
  | string value => [.string value]
  | blob bytes => [.blob bytes]
  | null => [.keyword .NULL]
  | currentTime => [.keyword .CURRENT_TIME]
  | currentDate => [.keyword .CURRENT_DATE]
  | currentTimestamp => [.keyword .CURRENT_TIMESTAMP]

/-- The pieces of a number with a sign or without. -/
def SignedNumber.pieces (number : SignedNumber) : List Piece := [.raw number.text]

/-- The pieces of a type. A scale is written only behind a length. -/
def TypeName.pieces (type : TypeName) : List Piece :=
  match type.length, type.scale with
  | none, _ => [.name type.name]
  | some length, none => [.name type.name, .callParen] ++ length.pieces ++ [.closeParen]
  | some length, some scale =>
    [.name type.name, .callParen] ++ length.pieces ++ [.comma] ++ scale.pieces ++ [.closeParen]

/-- The pieces of a name with its schema or without. -/
def QualifiedName.pieces (name : QualifiedName) : List Piece := qualified name.schema name.name

/-- The pieces of what a source says about its index. -/
def IndexHint.pieces : IndexHint → List Piece
  | indexedBy index => keywords [.INDEXED, .BY] ++ [.name index]
  | notIndexed => keywords [.NOT, .INDEXED]

/-- The pieces of another name for what was just written. -/
def aliasPieces (aliasName : Option String) : List Piece :=
  clause [.AS] (aliasName.map fun aliasName => [.name aliasName])

/-- The pieces of a table as a source. -/
def TableSource.pieces (source : TableSource) : List Piece :=
  source.table.pieces ++ aliasPieces source.aliasName ++ (source.hint.map IndexHint.pieces).getD []

/-- The pieces of a source. -/
def SelectSource.pieces : SelectSource → List Piece
  | table source => source.pieces
  | join clause => nomatch clause

/-- The pieces of a sort direction. -/
def directionPieces (direction : Option SortDirection) : List Piece :=
  (direction.map fun d => [Piece.keyword d.keyword]).getD []

/-! ## Operands -/

namespace Expr

/-- Whether the expression is a prefix operator with its operand. -/
def isPrefixed : Expr → Bool
  | unary .. => true
  | _ => false

/-- Whether the expression is a minus sign with its operand. -/
def isNegation : Expr → Bool
  | unary .neg _ => true
  | _ => false

/-- Whether the expression can stand without parentheses before an operator of this power. -/
def fitsLeft (e : Expr) (power : Nat) : Bool := power ≤ e.power && power < e.tailPower

/-- Whether the expression can stand without parentheses where this power is demanded. -/
def fitsRight (e : Expr) (least : Nat) : Bool := e.isPrefixed || least ≤ e.power

end Expr

/-- Pieces, in parentheses unless they fit as they are. -/
def parensUnless (fits : Bool) (inner : List Piece) : List Piece :=
  if fits then inner else inParens inner

/-- The pieces of a prefix operator. The sign of a negation in front of another is no comment
because a space keeps the two apart. -/
def UnaryOp.pieces (op : UnaryOp) (operand : Expr) : List Piece :=
  match op with
  | not => [.keyword .NOT]
  | neg => if operand.isNegation then [.operator neg.text] else [.sign neg.text]
  | pos => [.sign pos.text]
  | bitNot => [.sign bitNot.text]

/-- The pieces of an operator between two operands. -/
def BinaryOp.pieces (op : BinaryOp) : List Piece := op.terminals.map .ofTerminal

/-- The pieces of the name that a call starts with. A keyword that is the name of a function is
written as it is. -/
def calleePieces (name : String) : List Piece :=
  if ((Keyword.ofText? name).map Keyword.namesFunction).getD false then [.raw name]
  else [.name name]

/-! ## Trees -/

mutual

/-- The pieces of an expression. -/
def Expr.pieces : Expr → List Piece
  | .literal value => value.pieces
  | .parameter text => [.raw text]
  | .column schema table name =>
    (schema.map fun s => [Piece.name s, .dot]).getD [] ++
      (table.map fun t => [Piece.name t, .dot]).getD [] ++ [.name name]
  | .unary op operand =>
    op.pieces operand ++ parensUnless (operand.fitsRight op.power) operand.pieces
  | .binary left op right =>
    parensUnless (left.fitsLeft op.power) left.pieces ++ op.pieces ++
      parensUnless (right.fitsRight (op.power + 1)) right.pieces
  | .like subject op pattern escape negated =>
    parensUnless (subject.fitsLeft equalityPower) subject.pieces ++ flag [.NOT] negated ++
      [.keyword op.keyword] ++
      parensUnless (pattern.fitsRight (equalityPower + 1)) pattern.pieces ++
      clause [.ESCAPE] (rightPieces? escape)
  | .isNull subject negated =>
    parensUnless (subject.fitsLeft equalityPower) subject.pieces ++ [.keyword .IS] ++
      flag [.NOT] negated ++ [.keyword .NULL]
  | .between subject low high negated =>
    parensUnless (subject.fitsLeft equalityPower) subject.pieces ++ flag [.NOT] negated ++
      [.keyword .BETWEEN] ++ parensUnless (low.fitsRight (equalityPower + 1)) low.pieces ++
      [.keyword .AND] ++ parensUnless (high.fitsRight (equalityPower + 1)) high.pieces
  | .within subject set negated =>
    parensUnless (subject.fitsLeft equalityPower) subject.pieces ++ flag [.NOT] negated ++
      [.keyword .IN] ++ inParens set.pieces
  | .call call => call.pieces
  | .cast subject type =>
    [.keyword .CAST, .callParen] ++ subject.pieces ++ [.keyword .AS] ++ type.pieces ++
      [.closeParen]
  | .caseWhen operand branches otherwise =>
    [.keyword .CASE] ++ (exprPieces? operand).getD [] ++ branchesPieces branches ++
      clause [.ELSE] (exprPieces? otherwise) ++ [.keyword .END]
  | .collate subject collation =>
    parensUnless (subject.fitsLeft collatePower) subject.pieces ++
      [.keyword .COLLATE, .name collation]
  | .existsRow query => .keyword .EXISTS :: inParens query.pieces
  | .subquery query => inParens query.pieces
  | .paren inner => inParens inner.pieces

/-- The pieces of a call. -/
def FunctionCall.pieces : FunctionCall → List Piece
  | ⟨name, args⟩ => calleePieces name ++ [.callParen] ++ args.pieces ++ [.closeParen]

/-- The pieces of the arguments of a call. -/
def CallArgs.pieces : CallArgs → List Piece
  | .star => [.ofTerminal Operator.star]
  | .list distinct args => flag [.DISTINCT] distinct ++ commaList (exprsPieces args)

/-- The pieces of what `IN` looks into. -/
def InSet.pieces : InSet → List Piece
  | .values items => commaList (exprsPieces items)
  | .query query => query.pieces

/-- The pieces of a branch of a case. -/
def WhenBranch.pieces : WhenBranch → List Piece
  | ⟨condition, result⟩ =>
    [.keyword .WHEN] ++ condition.pieces ++ [.keyword .THEN] ++ result.pieces

/-- The pieces of a result column. -/
def ResultColumn.pieces : ResultColumn → List Piece
  | .all => [.ofTerminal Operator.star]
  | .allOf table => [.name table, .dot, .ofTerminal Operator.star]
  | .expr value aliasName => value.pieces ++ aliasPieces aliasName

/-- The pieces of an entry of the order of a query. -/
def OrderingTerm.pieces : OrderingTerm → List Piece
  | ⟨key, direction⟩ => key.pieces ++ directionPieces direction

/-- The pieces of the bound of a query. -/
def LimitClause.pieces : LimitClause → List Piece
  | ⟨limit, offset⟩ => limit.pieces ++ clause [.OFFSET] (exprPieces? offset)

/-- The pieces of a query. What is demanded of groups is written only if there are groups. -/
def Select.pieces : Select → List Piece
  | ⟨distinct, columns, sources, filter, groupBy, having, orderBy, limit⟩ =>
    [.keyword .SELECT] ++ flag [.DISTINCT] distinct ++ commaList (columnsPieces columns) ++
      listClause [.FROM] (sources.map SelectSource.pieces) ++
      clause [.WHERE] (exprPieces? filter) ++
      listClause [.GROUP, .BY] (exprsPieces groupBy) ++
      (if groupBy.isEmpty then [] else clause [.HAVING] (exprPieces? having)) ++
      listClause [.ORDER, .BY] (termsPieces orderBy) ++
      clause [.LIMIT] (limitPieces? limit)

/-- The pieces of each expression of a list. -/
def exprsPieces : List Expr → List (List Piece)
  | [] => []
  | e :: es => e.pieces :: exprsPieces es

/-- The pieces of an expression, if there is one. -/
def exprPieces? : Option Expr → Option (List Piece)
  | none => none
  | some e => some e.pieces

/-- The pieces of the escape of a pattern, if there is one. -/
def rightPieces? : Option Expr → Option (List Piece)
  | none => none
  | some e => some (parensUnless (e.fitsRight (equalityPower + 1)) e.pieces)

/-- The pieces of the branches of a case. -/
def branchesPieces : List WhenBranch → List Piece
  | [] => []
  | b :: bs => b.pieces ++ branchesPieces bs

/-- The pieces of each result column of a list. -/
def columnsPieces : List ResultColumn → List (List Piece)
  | [] => []
  | c :: cs => c.pieces :: columnsPieces cs

/-- The pieces of each ordering term of a list. -/
def termsPieces : List OrderingTerm → List (List Piece)
  | [] => []
  | t :: ts => t.pieces :: termsPieces ts

/-- The pieces of a bound, if there is one. -/
def limitPieces? : Option LimitClause → Option (List Piece)
  | none => none
  | some l => some l.pieces

end

end SqlGrammar
