import SqlGrammar.Tree.Definition
import SqlGrammar.Writing.Expression

/-!
# Writing table definitions

The pieces of columns, keys, references and constraints.
-/

set_option autoImplicit false

namespace SqlGrammar

open Pieces

/-! ## References -/

/-- The pieces of what is done about a conflict with a constraint. -/
def ConflictResolution.clausePieces (resolution : ConflictResolution) : List Piece :=
  keywords [.ON, .CONFLICT, resolution.keyword]

/-- The pieces of what is done about a conflict, if something is said. -/
def conflictPieces (resolution : Option ConflictResolution) : List Piece :=
  (resolution.map ConflictResolution.clausePieces).getD []

/-- The keywords of what happens to a row when the row it refers to goes or changes. -/
def ReferenceAction.keywords : ReferenceAction → List Keyword
  | setNull => [.SET, .NULL]
  | setDefault => [.SET, .DEFAULT]
  | cascade => [.CASCADE]
  | restrict => [.RESTRICT]
  | noAction => [.NO, .ACTION]

/-- The pieces of a rule of a reference. -/
def ReferenceRule.pieces : ReferenceRule → List Piece
  | onDelete action => Pieces.keywords ([.ON, .DELETE] ++ action.keywords)
  | onUpdate action => Pieces.keywords ([.ON, .UPDATE] ++ action.keywords)
  | matching name => [.keyword .MATCH, .name name]

/-- The keywords of when a reference is checked first. -/
def InitialCheck.keywords : InitialCheck → List Keyword
  | deferred => [.INITIALLY, .DEFERRED]
  | immediate => [.INITIALLY, .IMMEDIATE]

/-- The pieces of whether the check of a reference may wait. -/
def Deferral.pieces (deferral : Deferral) : List Piece :=
  flag [.NOT] deferral.negated ++ [.keyword .DEFERRABLE] ++
    Pieces.keywords ((deferral.initially.map InitialCheck.keywords).getD [])

/-- The pieces of names in parentheses, unless there are none. -/
def namesInParens (columns : List String) : List Piece :=
  if columns.isEmpty then [] else inParens (names columns)

/-- The pieces of a reference to another table. -/
def ForeignKey.pieces (key : ForeignKey) : List Piece :=
  [.keyword .REFERENCES, .name key.table] ++ namesInParens key.columns ++
    key.rules.flatMap ReferenceRule.pieces ++ (key.deferral.map Deferral.pieces).getD []

/-! ## Columns -/

/-- The pieces of a column of an index or a key. -/
def IndexedColumn.pieces (column : IndexedColumn) : List Piece :=
  [.name column.name] ++ clause [.COLLATE] (column.collation.map fun c => [.name c]) ++
    directionPieces column.direction

/-- The pieces of the value of a default. -/
def DefaultValue.pieces : DefaultValue → List Piece
  | signed number => number.pieces
  | literal value => value.pieces
  | expr value => inParens value.pieces

/-- The pieces of the name of a constraint, if it has one. -/
def constraintNamePieces (name : Option String) : List Piece :=
  clause [.CONSTRAINT] (name.map fun n => [.name n])

/-- The pieces of what a constraint of a column demands. -/
def ColumnRule.pieces : ColumnRule → List Piece
  | primaryKey direction onConflict autoincrement =>
    keywords [.PRIMARY, .KEY] ++ directionPieces direction ++ conflictPieces onConflict ++
      flag [.AUTOINCREMENT] autoincrement
  | notNull onConflict => keywords [.NOT, .NULL] ++ conflictPieces onConflict
  | unique onConflict => [.keyword .UNIQUE] ++ conflictPieces onConflict
  | check condition => .keyword .CHECK :: inParens condition.pieces
  | default value => .keyword .DEFAULT :: value.pieces
  | collate collation => [.keyword .COLLATE, .name collation]
  | foreignKey reference => reference.pieces

/-- The pieces of a constraint of a column. -/
def ColumnConstraint.pieces (constraint : ColumnConstraint) : List Piece :=
  constraintNamePieces constraint.name ++ constraint.rule.pieces

/-- The pieces of a column. -/
def ColumnDefinition.pieces (column : ColumnDefinition) : List Piece :=
  [.name column.name] ++ (column.type.map TypeName.pieces).getD [] ++
    column.constraints.flatMap ColumnConstraint.pieces

/-! ## Constraints of a table -/

/-- The keywords of the two kinds of keys. -/
def KeyKind.keywords : KeyKind → List Keyword
  | primaryKey => [.PRIMARY, .KEY]
  | unique => [.UNIQUE]

/-- The pieces of what a constraint of a table demands. -/
def TableRule.pieces : TableRule → List Piece
  | key kind columns onConflict =>
    Pieces.keywords kind.keywords ++ inParens (commaList (columns.map IndexedColumn.pieces)) ++
      conflictPieces onConflict
  | check condition => .keyword .CHECK :: inParens condition.pieces
  | foreignKey columns reference =>
    Pieces.keywords [.FOREIGN, .KEY] ++ inParens (names columns) ++ reference.pieces

/-- The pieces of a constraint of a table. -/
def TableConstraint.pieces (constraint : TableConstraint) : List Piece :=
  constraintNamePieces constraint.name ++ constraint.rule.pieces

end SqlGrammar
