import SqlGrammar.Tree.Basic

/-!
# Expressions and queries

Expressions hold queries and queries hold expressions, so that the two families of trees are
declared together.
-/

set_option autoImplicit false

namespace SqlGrammar

mutual

/-- An expression. Parentheses are kept as nodes of their own. -/
inductive Expr where
  | literal (value : Literal)
  | parameter (text : String)
  | column (schema table : Option String) (name : String)
  | unary (op : UnaryOp) (operand : Expr)
  | binary (left : Expr) (op : BinaryOp) (right : Expr)
  | like (subject : Expr) (op : LikeOp) (pattern : Expr) (escape : Option Expr) (negated : Bool)
  | isNull (subject : Expr) (negated : Bool)
  | between (subject low high : Expr) (negated : Bool)
  | within (subject : Expr) (set : InSet) (negated : Bool)
  | call (call : FunctionCall)
  | cast (subject : Expr) (type : TypeName)
  | caseWhen (operand : Option Expr) (branches : List WhenBranch) (otherwise : Option Expr)
  | collate (subject : Expr) (collation : String)
  | existsRow (query : Select)
  | subquery (query : Select)
  | paren (inner : Expr)

/-- A call of a function. -/
structure FunctionCall where
  name : String
  args : CallArgs

/-- The arguments of a call: a star, or a list that may be restricted to distinct values. -/
inductive CallArgs where
  | star
  | list (distinct : Bool) (args : List Expr)

/-- What `IN` looks into. -/
inductive InSet where
  | values (items : List Expr)
  | query (query : Select)

/-- One `WHEN … THEN …` of a `CASE`. -/
structure WhenBranch where
  condition : Expr
  result : Expr

/-- An entry of the list of columns of a query. -/
inductive ResultColumn where
  | all
  | allOf (table : String)
  | expr (value : Expr) (aliasName : Option String)

/-- An entry of the order of a query. -/
structure OrderingTerm where
  key : Expr
  direction : Option SortDirection

/-- The bound on the number of rows of a query, and the number of rows to skip. -/
structure LimitClause where
  limit : Expr
  offset : Option Expr

/-- A query. -/
structure Select where
  distinct : Bool
  columns : List ResultColumn
  sources : List SelectSource
  filter : Option Expr
  groupBy : List Expr
  having : Option Expr
  orderBy : List OrderingTerm
  limit : Option LimitClause

end

instance : Inhabited Expr := ⟨.literal .null⟩

namespace Select

/-- The query without any clause. -/
def empty : Select := ⟨false, [], [], none, [], none, [], none⟩

instance : Inhabited Select := ⟨empty⟩

end Select

end SqlGrammar
