import SqlGrammar.Tree.Equality

/-!
# Columns, keys and constraints

The parts of a table's definition: columns with their types and constraints, constraints of the
whole table, indexed columns and references to other tables.
-/

set_option autoImplicit false

namespace SqlGrammar

/-! ## References to other tables -/

/-- What happens to a row when the row it refers to goes or changes. -/
inductive ReferenceAction where
  | setNull | setDefault | cascade | restrict | noAction
  deriving DecidableEq, Repr, Inhabited

/-- One rule of a reference. -/
inductive ReferenceRule where
  | onDelete (action : ReferenceAction)
  | onUpdate (action : ReferenceAction)
  | matching (name : String)
  deriving DecidableEq, Repr, Inhabited

/-- When a reference is checked first. -/
inductive InitialCheck where
  | deferred | immediate
  deriving DecidableEq, Repr, Inhabited

/-- Whether the check of a reference may wait for the end of the transaction. -/
structure Deferral where
  negated : Bool
  initially : Option InitialCheck
  deriving DecidableEq, Repr, Inhabited

/-- A reference to the rows of another table. -/
structure ForeignKey where
  table : String
  columns : List String
  rules : List ReferenceRule
  deferral : Option Deferral
  deriving DecidableEq, Repr, Inhabited

namespace ForeignKey

/-- A reference to the key of a table. -/
def toTable (table : String) : ForeignKey := ⟨table, [], [], none⟩

/-- The reference with these columns added to those it names. -/
def addColumns (key : ForeignKey) (columns : List String) : ForeignKey :=
  { key with columns := key.columns ++ columns }

/-- The reference with a rule added. -/
def addRule (key : ForeignKey) (rule : ReferenceRule) : ForeignKey :=
  { key with rules := key.rules ++ [rule] }

end ForeignKey

/-! ## Columns -/

/-- A column of an index or a key. -/
structure IndexedColumn where
  name : String
  collation : Option String
  direction : Option SortDirection
  deriving DecidableEq, Repr, Inhabited

/-- The column in its own order. -/
def IndexedColumn.named (name : String) : IndexedColumn := ⟨name, none, none⟩

/-- The value of a column that a new row does not give. -/
inductive DefaultValue where
  | signed (number : SignedNumber)
  | literal (value : Literal)
  | expr (value : Expr)
  deriving DecidableEq

/-- What a constraint of a column demands. -/
inductive ColumnRule where
  | primaryKey (direction : Option SortDirection) (onConflict : Option ConflictResolution)
      (autoincrement : Bool)
  | notNull (onConflict : Option ConflictResolution)
  | unique (onConflict : Option ConflictResolution)
  | check (condition : Expr)
  | default (value : DefaultValue)
  | collate (collation : String)
  | foreignKey (key : ForeignKey)
  deriving DecidableEq

/-- Whether the rule keeps null out of the column. -/
def ColumnRule.forbidsNull : ColumnRule → Bool
  | primaryKey .. | notNull _ => true
  | _ => false

/-- A constraint of a column, which may have a name. -/
structure ColumnConstraint where
  name : Option String
  rule : ColumnRule
  deriving DecidableEq

/-- A column of a table. -/
structure ColumnDefinition where
  name : String
  type : Option TypeName
  constraints : List ColumnConstraint
  deriving DecidableEq

namespace ColumnDefinition

/-- A column of a type, without constraints. -/
def typed (name : String) (type : TypeName) : ColumnDefinition := ⟨name, some type, []⟩

/-- The column with a nameless constraint added. -/
def addRule (column : ColumnDefinition) (rule : ColumnRule) : ColumnDefinition :=
  { column with constraints := column.constraints ++ [⟨none, rule⟩] }

/-- The column that must not be null. -/
def notNull (column : ColumnDefinition) : ColumnDefinition := column.addRule (.notNull none)

/-- The column as the key of its table. -/
def primaryKey (column : ColumnDefinition) : ColumnDefinition :=
  column.addRule (.primaryKey none none false)

/-- The column without equal values in two rows. -/
def unique (column : ColumnDefinition) : ColumnDefinition := column.addRule (.unique none)

/-- The column with the value of an expression as its default. -/
def defaultExpr (column : ColumnDefinition) (value : Expr) : ColumnDefinition :=
  column.addRule (.default (.expr value))

/-- Whether some constraint keeps null out of the column. -/
def isNotNull (column : ColumnDefinition) : Bool :=
  column.constraints.any fun constraint => constraint.rule.forbidsNull

end ColumnDefinition

/-! ## Constraints of a table -/

/-- The two kinds of constraints that build an index. -/
inductive KeyKind where
  | primaryKey | unique
  deriving DecidableEq, Repr, Inhabited

/-- What a constraint of a table demands. -/
inductive TableRule where
  | key (kind : KeyKind) (columns : List IndexedColumn) (onConflict : Option ConflictResolution)
  | check (condition : Expr)
  | foreignKey (columns : List String) (key : ForeignKey)
  deriving DecidableEq

/-- A constraint of a table, which may have a name. -/
structure TableConstraint where
  name : Option String
  rule : TableRule
  deriving DecidableEq

/-- The nameless constraint that makes columns the key of a table. -/
def TableConstraint.primaryKey (columns : List String) : TableConstraint :=
  ⟨none, .key .primaryKey (columns.map .named) none⟩

end SqlGrammar
