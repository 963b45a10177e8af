import SqlGrammar.Grammar.Data

/-!
# The grammar of schema statements

The statements that create, drop and alter tables, indexes, views and triggers.
-/

set_option autoImplicit false

namespace SqlGrammar.Grammar

open SqlGrammar.Parser Keyword

/-! ## Creation -/

/-- Takes the words for an object that need not exist yet, and says whether they were there. -/
def ifNotExists : Production Bool := acceptAll [IF, NOT, EXISTS]

/-- Takes the word for an object of the current connection, in either spelling. -/
def temporary : Production Bool := do
  if ← accept TEMP then return true else accept TEMPORARY

/-- The start of a creation: whether the object is temporary, and whether it may exist. -/
def createHead (object : Keyword) : Production (Bool × Bool) := do
  expect CREATE
  let temporary ← temporary
  expect object
  return (temporary, ← ifNotExists)

/-- A further column of a table behind a comma, if none of the table's constraints is there. -/
def furtherColumn? : Production (Option ColumnDefinition) := do
  if (← isAt Operator.comma) && !startsTableConstraint (← look 1) then
    advance
    some <$> Rule.columnDefinition.parse
  else
    return none

/-- The columns and constraints of a table, in parentheses. -/
def tableEntries : Production (List ColumnDefinition × List TableConstraint) :=
  parenthesized do
    let first ← Rule.columnDefinition.parse
    let others ← many furtherColumn?
    let constraints ← listBehind [Operator.comma] Rule.tableConstraint.parse
    return (first :: others, constraints)

/-- What a new table is made of. -/
def tableBody : Production TableBody := do
  if ← accept AS then
    return .asSelect (← Rule.select.parse)
  else
    let (columns, constraints) ← tableEntries
    let withoutRowid ← behind? WITHOUT (expectWord "ROWID")
    return .columns columns constraints withoutRowid.isSome

/-- The creation of a table. -/
def createTable : Production CreateTable := do
  let (temporary, ifNotExists) ← createHead TABLE
  let name ← qualifiedName
  return ⟨temporary, ifNotExists, name, ← tableBody⟩

/-- The creation of an index. -/
def createIndex : Production CreateIndex := do
  expect CREATE
  let unique ← accept UNIQUE
  expect INDEX
  let ifNotExists ← ifNotExists
  let name ← qualifiedName
  expect ON
  let table ← identifier
  let columns ← indexedColumns
  return ⟨unique, ifNotExists, name, table, columns, ← filter?⟩

/-- The creation of a view. -/
def createView : Production CreateView := do
  let (temporary, ifNotExists) ← createHead VIEW
  let name ← qualifiedName
  let columns ← identifierList?
  expect AS
  return ⟨temporary, ifNotExists, name, columns, ← Rule.select.parse⟩

/-! ## Triggers -/

/-- When a trigger runs, if it says so. -/
def triggerTiming? : Production (Option TriggerTiming) := do
  if ← accept BEFORE then return some .before
  else if ← accept AFTER then return some .after
  else if ← accept INSTEAD then
    expect OF
    return some .insteadOf
  else return none

/-- The event that sets a trigger off. -/
def triggerEvent : Production TriggerEvent := do
  match ← kind with
  | .keyword .DELETE =>
    advance
    return .delete
  | .keyword .INSERT =>
    advance
    return .insert
  | .keyword .UPDATE =>
    advance
    return .update (← listBehind [OF] identifier)
  | _ => unexpected ["DELETE", "INSERT", "UPDATE"]

/-- A statement in the body of a trigger. -/
def triggerStep : Production Statement := do
  match ← kind with
  | .keyword .INSERT | .keyword .REPLACE => .insert <$> Rule.insert.parse
  | .keyword .UPDATE => .update <$> Rule.update.parse
  | .keyword .DELETE => .delete <$> Rule.delete.parse
  | .keyword .SELECT => .select <$> Rule.select.parse
  | .keyword .WITH => unsupported "common table expression"
  | _ => unexpected ["INSERT", "REPLACE", "UPDATE", "DELETE", "SELECT"]

/-- A statement in the body of a trigger, one level deeper, and the semicolon behind it. -/
def closedStep : Production Statement := do
  let step ← deeper triggerStep
  expect Operator.semicolon
  return step

/-- The next statement in the body of a trigger, or none behind the `END` of the body. -/
def furtherStep? : Production (Option Statement) := do
  if ← accept END then return none else some <$> closedStep

/-- The body of a trigger, its `BEGIN` having been read. -/
def triggerBody : Production (List Statement) := do
  let first ← closedStep
  let others ← many furtherStep?
  return first :: others

/-- The creation of a trigger. -/
def createTrigger : Production CreateTrigger := do
  let (temporary, ifNotExists) ← createHead TRIGGER
  let name ← qualifiedName
  let timing ← triggerTiming?
  let event ← triggerEvent
  expect ON
  let table ← identifier
  let forEachRow ← acceptAll [FOR, EACH, ROW]
  let condition ← behind? WHEN Rule.expr.parse
  expect BEGIN
  let body ← triggerBody
  return { temporary, ifNotExists, name, timing, event, table, forEachRow, condition, body }

/-! ## Removal and change -/

/-- The kind of object that a keyword names. -/
def objectKind? : TokenKind → Option ObjectKind
  | .keyword .TABLE => some .table
  | .keyword .INDEX => some .index
  | .keyword .VIEW => some .view
  | .keyword .TRIGGER => some .trigger
  | _ => none

/-- The removal of an object. -/
def drop : Production Drop := do
  expect DROP
  match objectKind? (← kind) with
  | some kind =>
    advance
    let ifExists ← acceptAll [IF, EXISTS]
    return ⟨kind, ifExists, ← qualifiedName⟩
  | none => unexpected ["TABLE", "INDEX", "VIEW", "TRIGGER"]

/-- What is changed about a table. -/
def alterAction : Production AlterAction := do
  match ← kind with
  | .keyword .RENAME =>
    expectAll [RENAME, TO]
    return .renameTo (← identifier)
  | .keyword .ADD =>
    advance
    let _ ← accept COLUMN
    return .addColumn (← Rule.columnDefinition.parse)
  | _ => unexpected ["RENAME", "ADD"]

/-- The change of a table. -/
def alter : Production Alter := do
  expectAll [ALTER, TABLE]
  let table ← qualifiedName
  return ⟨table, ← alterAction⟩

end SqlGrammar.Grammar
