import SqlGrammar.Grammar.Goal
import SqlGrammar.Writing.Definition
import SqlGrammar.Writing.Writer

/-!
# Writing statements

The pieces of the ten kinds of statements, and the text of a tree of any rule.
-/

set_option autoImplicit false

namespace SqlGrammar

open Pieces

/-! ## Data -/

/-- The keywords of an insertion's verb. -/
def InsertVerb.keywords : InsertVerb → List Keyword
  | insert => [.INSERT]
  | replace => [.REPLACE]
  | insertOr resolution => [.INSERT, .OR, resolution.keyword]

/-- The pieces of where inserted rows come from. -/
def InsertSource.pieces : InsertSource → List Piece
  | values rows =>
    .keyword .VALUES :: commaList (rows.map fun row => inParens (commaList (exprsPieces row)))
  | query select => select.pieces
  | defaults => Pieces.keywords [.DEFAULT, .VALUES]

/-- The pieces of an insertion. -/
def Insert.pieces (statement : Insert) : List Piece :=
  Pieces.keywords statement.verb.keywords ++ [.keyword .INTO] ++ statement.table.pieces ++
    namesInParens statement.columns ++ statement.source.pieces

/-- The pieces of a new value for a column. -/
def Assignment.pieces (assignment : Assignment) : List Piece :=
  [.name assignment.column, .ofTerminal Operator.eq] ++ assignment.value.pieces

/-- The pieces of the condition that picks rows, if there is one. -/
def filterPieces (filter : Option Expr) : List Piece := clause [.WHERE] (filter.map Expr.pieces)

/-- The pieces of an update. -/
def Update.pieces (statement : Update) : List Piece :=
  [.keyword .UPDATE] ++
    clause [.OR] (statement.orConflict.map fun r => [.keyword r.keyword]) ++
    statement.table.pieces ++ [.keyword .SET] ++
    commaList (statement.assignments.map Assignment.pieces) ++ filterPieces statement.filter

/-- The pieces of a deletion. -/
def Delete.pieces (statement : Delete) : List Piece :=
  keywords [.DELETE, .FROM] ++ statement.table.pieces ++ filterPieces statement.filter

/-! ## Schema -/

/-- The pieces of the start of a creation. -/
def createPieces (temporary : Bool) (object : Keyword) (ifNotExists : Bool) : List Piece :=
  [.keyword .CREATE] ++ flag [.TEMP] temporary ++ [.keyword object] ++
    flag [.IF, .NOT, .EXISTS] ifNotExists

/-- The pieces of what a new table is made of. -/
def TableBody.pieces : TableBody → List Piece
  | columns own constraints withoutRowid =>
    [.openParen] ++ commaList (own.map ColumnDefinition.pieces) ++
      constraints.flatMap (fun c => .comma :: c.pieces) ++ [.closeParen] ++
      if withoutRowid then [.keyword .WITHOUT, .raw "ROWID"] else []
  | asSelect query => .keyword .AS :: query.pieces

/-- The pieces of the creation of a table. -/
def CreateTable.pieces (statement : CreateTable) : List Piece :=
  createPieces statement.temporary .TABLE statement.ifNotExists ++ statement.name.pieces ++
    statement.body.pieces

/-- The pieces of the creation of an index. -/
def CreateIndex.pieces (statement : CreateIndex) : List Piece :=
  [.keyword .CREATE] ++ flag [.UNIQUE] statement.unique ++ [.keyword .INDEX] ++
    flag [.IF, .NOT, .EXISTS] statement.ifNotExists ++ statement.name.pieces ++
    [.keyword .ON, .name statement.table] ++
    inParens (commaList (statement.columns.map IndexedColumn.pieces)) ++
    filterPieces statement.filter

/-- The pieces of the creation of a view. -/
def CreateView.pieces (statement : CreateView) : List Piece :=
  createPieces statement.temporary .VIEW statement.ifNotExists ++ statement.name.pieces ++
    namesInParens statement.columns ++ [.keyword .AS] ++ statement.query.pieces

/-- The keywords of when a trigger runs. -/
def TriggerTiming.keywords : TriggerTiming → List Keyword
  | before => [.BEFORE]
  | after => [.AFTER]
  | insteadOf => [.INSTEAD, .OF]

/-- The pieces of the event that sets a trigger off. -/
def TriggerEvent.pieces : TriggerEvent → List Piece
  | delete => [.keyword .DELETE]
  | insert => [.keyword .INSERT]
  | update columns => .keyword .UPDATE :: listClause [.OF] (columns.map fun c => [.name c])

/-- The pieces of the removal of an object. -/
def Drop.pieces (statement : Drop) : List Piece :=
  keywords [.DROP, statement.kind.keyword] ++ flag [.IF, .EXISTS] statement.ifExists ++
    statement.name.pieces

/-- The pieces of what is changed about a table. -/
def AlterAction.pieces : AlterAction → List Piece
  | renameTo name => keywords [.RENAME, .TO] ++ [.name name]
  | addColumn column => keywords [.ADD, .COLUMN] ++ column.pieces

/-- The pieces of the change of a table. -/
def Alter.pieces (statement : Alter) : List Piece :=
  keywords [.ALTER, .TABLE] ++ statement.table.pieces ++ statement.action.pieces

/-! ## All statements -/

mutual

/-- The pieces of a statement. -/
def Statement.pieces : Statement → List Piece
  | .select statement => statement.pieces
  | .insert statement => statement.pieces
  | .update statement => statement.pieces
  | .delete statement => statement.pieces
  | .createTable statement => statement.pieces
  | .createIndex statement => statement.pieces
  | .createView statement => statement.pieces
  | .createTrigger statement => statement.pieces
  | .drop statement => statement.pieces
  | .alter statement => statement.pieces

/-- The pieces of the creation of a trigger. -/
def CreateTrigger.pieces : CreateTrigger → List Piece
  | ⟨temporary, ifNotExists, name, timing, event, table, forEachRow, condition, body⟩ =>
    createPieces temporary .TRIGGER ifNotExists ++ name.pieces ++
      Pieces.keywords ((timing.map TriggerTiming.keywords).getD []) ++ event.pieces ++
      [.keyword .ON, .name table] ++ flag [.FOR, .EACH, .ROW] forEachRow ++
      clause [.WHEN] (condition.map Expr.pieces) ++ [.keyword .BEGIN] ++ stepsPieces body ++
      [.keyword .END]

/-- The pieces of the statements in the body of a trigger. -/
def stepsPieces : List Statement → List Piece
  | [] => []
  | s :: ss => s.pieces ++ .semicolon :: stepsPieces ss

end

/-! ## All rules -/

/-- The pieces of a tree of a rule. -/
def Rule.pieces : (r : Rule) → r.Tree → List Piece
  | statement, tree => Statement.pieces tree
  | select, tree => Select.pieces tree
  | insert, tree => Insert.pieces tree
  | update, tree => Update.pieces tree
  | delete, tree => Delete.pieces tree
  | createTable, tree => CreateTable.pieces tree
  | createIndex, tree => CreateIndex.pieces tree
  | createView, tree => CreateView.pieces tree
  | createTrigger, tree => CreateTrigger.pieces tree
  | drop, tree => Drop.pieces tree
  | alter, tree => Alter.pieces tree
  | expr, tree => Expr.pieces tree
  | literal, tree => Literal.pieces tree
  | functionCall, tree => FunctionCall.pieces tree
  | resultColumn, tree => ResultColumn.pieces tree
  | selectSource, tree => SelectSource.pieces tree
  | tableSource, tree => TableSource.pieces tree
  | joinClause, tree => nomatch tree
  | orderingTerm, tree => OrderingTerm.pieces tree
  | assignment, tree => Assignment.pieces tree
  | columnDefinition, tree => ColumnDefinition.pieces tree
  | columnConstraint, tree => ColumnConstraint.pieces tree
  | tableConstraint, tree => TableConstraint.pieces tree
  | typeName, tree => TypeName.pieces tree
  | signedNumber, tree => SignedNumber.pieces tree
  | conflictClause, tree => ConflictResolution.clausePieces tree
  | foreignKey, tree => ForeignKey.pieces tree
  | indexedColumn, tree => IndexedColumn.pieces tree

/-- The canonical text of a tree of a rule. -/
def Rule.toSql (r : Rule) (tree : r.Tree) : String := Dialect.sqlite.render (r.pieces tree)

end SqlGrammar
