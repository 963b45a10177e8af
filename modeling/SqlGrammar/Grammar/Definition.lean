import SqlGrammar.Grammar.Query

/-!
# The grammar of table definitions

Types, columns, keys, references and constraints.
-/

set_option autoImplicit false

namespace SqlGrammar.Grammar

open SqlGrammar.Parser Keyword

/-! ## Types -/

/-- The text of a sign, or no text. A second sign is left for what comes next. -/
def sign : Production String := do
  if ← accept Operator.minus then return "-"
  else if ← accept Operator.plus then return "+"
  else return ""

/-- A number with a sign or without. -/
def signedNumber : Production SignedNumber := do
  let sign ← sign
  match ← kind with
  | .number text =>
    advance
    return ⟨sign ++ text⟩
  | _ => unexpected ["number"]

/-- The numbers of a type, its opening parenthesis having been read. -/
def typeNumbers : Production (SignedNumber × Option SignedNumber) := do
  let length ← Rule.signedNumber.parse
  let scale ← behind? Operator.comma Rule.signedNumber.parse
  expect Operator.rightParen
  return (length, scale)

/-- A type. Of a type of several words only the first is kept. -/
def typeName : Production TypeName := do
  let name ← identifier
  let _ ← many identifier?
  match ← behind? Operator.leftParen typeNumbers with
  | some (length, scale) => return ⟨name, some length, scale⟩
  | none => return .named name

/-! ## Conflicts -/

/-- What is done about a conflict. -/
def conflictResolution : Production ConflictResolution := do
  match (← kind).keyword?.bind ConflictResolution.ofKeyword? with
  | some resolution =>
    advance
    return resolution
  | none => unexpected ["ROLLBACK", "ABORT", "FAIL", "IGNORE", "REPLACE"]

/-- What is done about a conflict with a constraint. -/
def conflictClause : Production ConflictResolution := do
  expectAll [ON, CONFLICT]
  conflictResolution

/-- What is done about a conflict with a constraint, if the constraint says so. -/
def conflictClause? : Production (Option ConflictResolution) := do
  if ← areAhead 0 [ON, CONFLICT] then some <$> Rule.conflictClause.parse else return none

/-! ## References -/

/-- What happens to a row when the row it refers to goes or changes. -/
def referenceAction : Production ReferenceAction := do
  if ← accept SET then
    if ← accept NULL then
      return .setNull
    else
      expect DEFAULT
      return .setDefault
  else if ← accept CASCADE then return .cascade
  else if ← accept RESTRICT then return .restrict
  else if ← acceptAll [NO, ACTION] then return .noAction
  else unexpected ["SET", "CASCADE", "RESTRICT", "NO ACTION"]

/-- One rule of a reference, if one is there. -/
def referenceRule? : Production (Option ReferenceRule) := do
  if ← acceptAll [ON, DELETE] then
    return some (.onDelete (← referenceAction))
  else if ← acceptAll [ON, UPDATE] then
    return some (.onUpdate (← referenceAction))
  else if ← accept MATCH then
    return some (.matching (← identifier))
  else
    return none

/-- When a reference is checked first, `INITIALLY` having been read. -/
def initialCheck : Production InitialCheck := do
  if ← accept DEFERRED then
    return .deferred
  else
    expect IMMEDIATE
    return .immediate

/-- Whether the check of a reference may wait. -/
def deferral : Production Deferral := do
  let negated ← accept NOT
  expect DEFERRABLE
  return ⟨negated, ← behind? INITIALLY initialCheck⟩

/-- Whether the check of a reference may wait, if the reference says so. -/
def deferral? : Production (Option Deferral) := do
  if (← isAt DEFERRABLE) || (← areAhead 0 [NOT, DEFERRABLE]) then
    some <$> deferral
  else
    return none

/-- The names in parentheses, if there is a parenthesis. -/
def identifierList? : Production (List String) := do
  if ← isAt Operator.leftParen then identifierList else return []

/-- A reference to the rows of another table. -/
def foreignKey : Production ForeignKey := do
  expect REFERENCES
  let table ← identifier
  let columns ← identifierList?
  let rules ← many referenceRule?
  return ⟨table, columns, rules, ← deferral?⟩

/-! ## Columns -/

/-- A column of an index or a key. -/
def indexedColumn : Production IndexedColumn := do
  let name ← identifier
  let collation ← behind? COLLATE identifier
  return ⟨name, collation, ← direction?⟩

/-- The columns of an index or a key. -/
def indexedColumns : Production (List IndexedColumn) :=
  parenthesized (commaSeparated Rule.indexedColumn.parse)

/-- The condition of a check. -/
def condition : Production Expr := parenthesized Rule.expr.parse

/-- Whether a signed number is ahead, to judge by the next two kinds. -/
def startsSignedNumber (now next : TokenKind) : Bool :=
  now.isNumber || ((now == .operator .plus || now == .operator .minus) && next.isNumber)

/-- The value of a default. -/
def defaultValue : Production DefaultValue := do
  if startsSignedNumber (← look 0) (← look 1) then
    return .signed (← Rule.signedNumber.parse)
  else if ← isAt Operator.leftParen then
    return .expr (← parenthesized Rule.expr.parse)
  else
    return .literal (← Rule.literal.parse)

/-- The name of a constraint, if it has one. -/
def constraintName? : Production (Option String) := behind? CONSTRAINT identifier

/-- What a constraint of a column demands. -/
def columnRule : Production ColumnRule := do
  match ← kind with
  | .keyword .PRIMARY =>
    expectAll [PRIMARY, KEY]
    let direction ← direction?
    let onConflict ← conflictClause?
    return .primaryKey direction onConflict (← accept AUTOINCREMENT)
  | .keyword .NOT =>
    expectAll [NOT, NULL]
    return .notNull (← conflictClause?)
  | .keyword .UNIQUE =>
    advance
    return .unique (← conflictClause?)
  | .keyword .CHECK =>
    advance
    return .check (← condition)
  | .keyword .DEFAULT =>
    advance
    return .default (← defaultValue)
  | .keyword .COLLATE =>
    advance
    return .collate (← identifier)
  | .keyword .REFERENCES =>
    return .foreignKey (← Rule.foreignKey.parse)
  | _ =>
    unexpected ["PRIMARY", "NOT", "UNIQUE", "CHECK", "DEFAULT", "COLLATE", "REFERENCES"]

/-- A constraint of a column. -/
def columnConstraint : Production ColumnConstraint := do
  let name ← constraintName?
  return ⟨name, ← columnRule⟩

/-- Whether a token of this kind starts a constraint of a column. -/
def startsColumnConstraint : TokenKind → Bool
  | .keyword .CONSTRAINT | .keyword .PRIMARY | .keyword .NOT | .keyword .UNIQUE | .keyword .CHECK
  | .keyword .DEFAULT | .keyword .COLLATE | .keyword .REFERENCES => true
  | _ => false

/-- The next constraint of a column, if one is there. -/
def columnConstraint? : Production (Option ColumnConstraint) := do
  if startsColumnConstraint (← kind) then some <$> Rule.columnConstraint.parse else return none

/-- The type of a column, if it has one. -/
def typeName? : Production (Option TypeName) := do
  if (← kind).isIdentifier then some <$> Rule.typeName.parse else return none

/-- A column of a table. -/
def columnDefinition : Production ColumnDefinition := do
  let name ← identifier
  let type ← typeName?
  return ⟨name, type, ← many columnConstraint?⟩

/-! ## Constraints of a table -/

/-- What a constraint of a table demands. -/
def tableRule : Production TableRule := do
  match ← kind with
  | .keyword .PRIMARY =>
    expectAll [PRIMARY, KEY]
    let columns ← indexedColumns
    return .key .primaryKey columns (← conflictClause?)
  | .keyword .UNIQUE =>
    advance
    let columns ← indexedColumns
    return .key .unique columns (← conflictClause?)
  | .keyword .CHECK =>
    advance
    return .check (← condition)
  | .keyword .FOREIGN =>
    expectAll [FOREIGN, KEY]
    let columns ← identifierList
    return .foreignKey columns (← Rule.foreignKey.parse)
  | _ => unexpected ["PRIMARY", "UNIQUE", "CHECK", "FOREIGN"]

/-- A constraint of a table. -/
def tableConstraint : Production TableConstraint := do
  let name ← constraintName?
  return ⟨name, ← tableRule⟩

/-- Whether a token of this kind starts a constraint of a table. -/
def startsTableConstraint : TokenKind → Bool
  | .keyword .CONSTRAINT | .keyword .PRIMARY | .keyword .UNIQUE | .keyword .CHECK
  | .keyword .FOREIGN => true
  | _ => false

end SqlGrammar.Grammar
