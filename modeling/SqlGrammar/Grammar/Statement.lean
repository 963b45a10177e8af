import SqlGrammar.Grammar.Expression
import SqlGrammar.Grammar.Schema

/-!
# The grammar as a whole

The choice among the ten kinds of statements, and the production of every goal.
-/

set_option autoImplicit false

namespace SqlGrammar

namespace Grammar

open SqlGrammar.Parser Keyword

/-! ## Statements -/

/-- Whether a token of this kind may stand between `CREATE` and the kind of the object. -/
def modifiesCreation : TokenKind → Bool
  | .keyword .TEMP | .keyword .TEMPORARY | .keyword .UNIQUE => true
  | _ => false

/-- The kind of the object that a creation is about, to judge by the tokens behind `CREATE`. -/
def createdKind? (next afterNext : TokenKind) : Option ObjectKind :=
  objectKind? (if modifiesCreation next then afterNext else next)

/-- The creation of an object of no known kind: fails at the word for the kind. -/
def unknownCreation : Production Statement := do
  expect CREATE
  if modifiesCreation (← kind) then advance
  unexpected ["TABLE", "INDEX", "VIEW", "TRIGGER"]

/-- The creation of any object. -/
def creation : Production Statement := do
  match createdKind? (← look 1) (← look 2) with
  | some .table => .createTable <$> Rule.createTable.parse
  | some .index => .createIndex <$> Rule.createIndex.parse
  | some .view => .createView <$> Rule.createView.parse
  | some .trigger => .createTrigger <$> Rule.createTrigger.parse
  | none => unknownCreation

/-- A statement. -/
def statement : Production Statement := do
  match ← kind with
  | .keyword .SELECT => .select <$> Rule.select.parse
  | .keyword .WITH => unsupported "common table expression"
  | .keyword .INSERT | .keyword .REPLACE => .insert <$> Rule.insert.parse
  | .keyword .UPDATE => .update <$> Rule.update.parse
  | .keyword .DELETE => .delete <$> Rule.delete.parse
  | .keyword .CREATE => creation
  | .keyword .DROP => .drop <$> Rule.drop.parse
  | .keyword .ALTER => .alter <$> Rule.alter.parse
  | _ =>
    unexpected ["SELECT", "INSERT", "REPLACE", "UPDATE", "DELETE", "CREATE", "DROP", "ALTER"]

/-! ## All productions -/

/-- The production of a rule. -/
def rule : (r : Rule) → Production r.Tree
  | .statement => statement
  | .select => select
  | .insert => insert
  | .update => update
  | .delete => delete
  | .createTable => createTable
  | .createIndex => createIndex
  | .createView => createView
  | .createTrigger => createTrigger
  | .drop => drop
  | .alter => alter
  | .expr => expr
  | .literal => literal
  | .functionCall => functionCall
  | .resultColumn => resultColumn
  | .selectSource => selectSource
  | .tableSource => tableSource
  | .joinClause => joinClause
  | .orderingTerm => orderingTerm
  | .assignment => assignment
  | .columnDefinition => columnDefinition
  | .columnConstraint => columnConstraint
  | .tableConstraint => tableConstraint
  | .typeName => typeName
  | .signedNumber => signedNumber
  | .conflictClause => conflictClause
  | .foreignKey => foreignKey
  | .indexedColumn => indexedColumn

/-- The production of a goal. -/
def productions : Productions Goal.Tree
  | .rule r => rule r
  | .operand least => operand least

end Grammar

end SqlGrammar
