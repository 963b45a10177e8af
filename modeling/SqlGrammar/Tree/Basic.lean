import SqlGrammar.Token

/-!
# Leaves of the trees

The values at the leaves of a parsed text: literals, the names of operators, types, conflict
resolutions and sort directions. None of them holds an expression.
-/

set_option autoImplicit false

namespace SqlGrammar

/-! ## Literals -/

/-- A literal value. A number keeps the text it was written with; nothing evaluates it. -/
inductive Literal where
  | number (text : String)
  | string (value : String)
  | blob (bytes : List UInt8)
  | null
  | currentTime
  | currentDate
  | currentTimestamp
  deriving DecidableEq, Repr, Inhabited

/-- The literal that a token of this kind stands for. -/
def Literal.ofKind? : TokenKind → Option Literal
  | .number text => some (.number text)
  | .string value => some (.string value)
  | .blob bytes => some (.blob bytes)
  | .keyword .NULL => some .null
  | .keyword .CURRENT_TIME => some .currentTime
  | .keyword .CURRENT_DATE => some .currentDate
  | .keyword .CURRENT_TIMESTAMP => some .currentTimestamp
  | _ => none

/-- A number with an optional sign, as it is written in a type or as a default. -/
structure SignedNumber where
  text : String
  deriving DecidableEq, Repr, Inhabited

/-! ## Operators -/

/-- An operator in front of its operand. -/
inductive UnaryOp where
  | neg | pos | not | bitNot
  deriving DecidableEq, Repr, Inhabited

namespace UnaryOp

/-- The terminal that writes the operator. -/
def terminal : UnaryOp → Terminal
  | neg => Operator.minus
  | pos => Operator.plus
  | not => Keyword.NOT
  | bitNot => Operator.bitNot

/-- The operator's text. -/
def text (op : UnaryOp) : String := op.terminal.text

/-- The operator that a token in front of an operand stands for. -/
def ofKind? : TokenKind → Option UnaryOp
  | .operator .minus => some neg
  | .operator .plus => some pos
  | .operator .bitNot => some bitNot
  | .keyword .NOT => some not
  | _ => none

end UnaryOp

/-- An operator between two operands. -/
inductive BinaryOp where
  | add | sub | mul | div | mod
  | eq | notEq | lt | le | gt | ge | is | isNot
  | and | or
  | concat
  | bitAnd | bitOr | shiftLeft | shiftRight
  deriving DecidableEq, Repr, Inhabited

namespace BinaryOp

/-- The terminals that write the operator. -/
def terminals : BinaryOp → List Terminal
  | add => [Operator.plus]
  | sub => [Operator.minus]
  | mul => [Operator.star]
  | div => [Operator.slash]
  | mod => [Operator.percent]
  | eq => [Operator.eq]
  | notEq => [Operator.notEq]
  | lt => [Operator.lt]
  | le => [Operator.le]
  | gt => [Operator.gt]
  | ge => [Operator.ge]
  | is => [Keyword.IS]
  | isNot => [Keyword.IS, Keyword.NOT]
  | and => [Keyword.AND]
  | or => [Keyword.OR]
  | concat => [Operator.concat]
  | bitAnd => [Operator.bitAnd]
  | bitOr => [Operator.bitOr]
  | shiftLeft => [Operator.shiftLeft]
  | shiftRight => [Operator.shiftRight]

/-- The operator's text. -/
def text (op : BinaryOp) : String := " ".intercalate (op.terminals.map Terminal.text)

/-- The operator that a single token between two operands stands for. `IS` is not among them: what
it means depends on the tokens behind it. -/
def ofKind? : TokenKind → Option BinaryOp
  | .operator .plus => some add
  | .operator .minus => some sub
  | .operator .star => some mul
  | .operator .slash => some div
  | .operator .percent => some mod
  | .operator .eq => some eq
  | .operator .notEq => some notEq
  | .operator .lt => some lt
  | .operator .le => some le
  | .operator .gt => some gt
  | .operator .ge => some ge
  | .operator .concat => some concat
  | .operator .bitAnd => some bitAnd
  | .operator .bitOr => some bitOr
  | .operator .shiftLeft => some shiftLeft
  | .operator .shiftRight => some shiftRight
  | .keyword .AND => some and
  | .keyword .OR => some or
  | _ => none

end BinaryOp

/-- An operator that matches a value against a pattern. -/
inductive LikeOp where
  | like | glob | regexp | match
  deriving DecidableEq, Repr, Inhabited

namespace LikeOp

/-- The keyword that writes the operator. -/
def keyword : LikeOp → Keyword
  | like => .LIKE
  | glob => .GLOB
  | regexp => .REGEXP
  | «match» => .MATCH

/-- The operator that a token between value and pattern stands for. -/
def ofKind? : TokenKind → Option LikeOp
  | .keyword .LIKE => some like
  | .keyword .GLOB => some glob
  | .keyword .REGEXP => some regexp
  | .keyword .MATCH => some «match»
  | _ => none

end LikeOp

/-! ## Types, conflicts and directions -/

/-- The type of a column or of a cast: a name and up to two numbers in parentheses. -/
structure TypeName where
  name : String
  length : Option SignedNumber
  scale : Option SignedNumber
  deriving DecidableEq, Repr, Inhabited

namespace TypeName

/-- A type without numbers. -/
def named (name : String) : TypeName := ⟨name, none, none⟩

/-- The type with this number as its length. -/
def withLength (t : TypeName) (length : SignedNumber) : TypeName := { t with length := some length }

/-- The type with this number as its scale. -/
def withScale (t : TypeName) (scale : SignedNumber) : TypeName := { t with scale := some scale }

end TypeName

/-- What is done with a row that breaks a constraint. -/
inductive ConflictResolution where
  | rollback | abort | fail | ignore | replace
  deriving DecidableEq, Repr, Inhabited

namespace ConflictResolution

/-- The keyword that writes the resolution. -/
def keyword : ConflictResolution → Keyword
  | rollback => .ROLLBACK
  | abort => .ABORT
  | fail => .FAIL
  | ignore => .IGNORE
  | replace => .REPLACE

/-- The resolution that a keyword stands for. -/
def ofKeyword? : Keyword → Option ConflictResolution
  | .ROLLBACK => some rollback
  | .ABORT => some abort
  | .FAIL => some fail
  | .IGNORE => some ignore
  | .REPLACE => some replace
  | _ => none

end ConflictResolution

/-- The direction of a sort. -/
inductive SortDirection where
  | asc | desc
  deriving DecidableEq, Repr, Inhabited

/-- The keyword that writes the direction. -/
def SortDirection.keyword : SortDirection → Keyword
  | asc => .ASC
  | desc => .DESC

/-! ## Names -/

/-- A name that may be qualified by the schema it belongs to. -/
structure QualifiedName where
  schema : Option String
  name : String
  deriving DecidableEq, Repr, Inhabited

/-- The name without a schema. -/
def QualifiedName.bare (name : String) : QualifiedName := ⟨none, name⟩

/-! ## Sources of a query -/

/-- What a query says about the index to be used for a table. -/
inductive IndexHint where
  | indexedBy (name : String)
  | notIndexed
  deriving DecidableEq, Repr, Inhabited

/-- A table that a query reads. -/
structure TableSource where
  table : QualifiedName
  aliasName : Option String
  hint : Option IndexHint
  deriving DecidableEq, Repr, Inhabited

namespace TableSource

/-- A table under its own name. -/
def named (table : String) : TableSource := ⟨.bare table, none, none⟩

/-- The table under another name. -/
def withAlias (source : TableSource) (aliasName : String) : TableSource :=
  { source with aliasName := some aliasName }

end TableSource

/-- A join of tables. Joins are recognised and refused, so that there is no tree of one. -/
inductive JoinClause where
  deriving DecidableEq, Repr

/-- An entry of the list of sources. -/
inductive SelectSource where
  | table (source : TableSource)
  | join (clause : JoinClause)
  deriving DecidableEq, Repr

end SqlGrammar
