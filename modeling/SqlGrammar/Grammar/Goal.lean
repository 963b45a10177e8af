import SqlGrammar.Parser.Combinators
import SqlGrammar.Tree.Statement

/-!
# Rules and goals

The named rules of the grammar with the types of their trees, and the goals that cost a level of
nesting: a rule, or an operand of an operator.
-/

set_option autoImplicit false

namespace SqlGrammar

/-- The named rules of the grammar. -/
inductive Rule where
  | statement
  | select | insert | update | delete
  | createTable | createIndex | createView | createTrigger | drop | alter
  | expr | literal | functionCall
  | resultColumn | selectSource | tableSource | joinClause | orderingTerm
  | assignment
  | columnDefinition | columnConstraint | tableConstraint
  | typeName | signedNumber | conflictClause | foreignKey | indexedColumn
  deriving DecidableEq, Repr, Inhabited

/-- The type of the trees of a rule. -/
@[reducible] def Rule.Tree : Rule → Type
  | statement => Statement
  | select => Select
  | insert => Insert
  | update => Update
  | delete => Delete
  | createTable => CreateTable
  | createIndex => CreateIndex
  | createView => CreateView
  | createTrigger => CreateTrigger
  | drop => Drop
  | alter => Alter
  | expr => Expr
  | literal => Literal
  | functionCall => FunctionCall
  | resultColumn => ResultColumn
  | selectSource => SelectSource
  | tableSource => TableSource
  | joinClause => JoinClause
  | orderingTerm => OrderingTerm
  | assignment => Assignment
  | columnDefinition => ColumnDefinition
  | columnConstraint => ColumnConstraint
  | tableConstraint => TableConstraint
  | typeName => TypeName
  | signedNumber => SignedNumber
  | conflictClause => ConflictResolution
  | foreignKey => ForeignKey
  | indexedColumn => IndexedColumn

instance Rule.decEqTree : (r : Rule) → DecidableEq r.Tree
  | statement => inferInstance
  | select => inferInstance
  | insert => inferInstance
  | update => inferInstance
  | delete => inferInstance
  | createTable => inferInstance
  | createIndex => inferInstance
  | createView => inferInstance
  | createTrigger => inferInstance
  | drop => inferInstance
  | alter => inferInstance
  | expr => inferInstance
  | literal => inferInstance
  | functionCall => inferInstance
  | resultColumn => inferInstance
  | selectSource => inferInstance
  | tableSource => inferInstance
  | joinClause => inferInstance
  | orderingTerm => inferInstance
  | assignment => inferInstance
  | columnDefinition => inferInstance
  | columnConstraint => inferInstance
  | tableConstraint => inferInstance
  | typeName => inferInstance
  | signedNumber => inferInstance
  | conflictClause => inferInstance
  | foreignKey => inferInstance
  | indexedColumn => inferInstance

/-- The statement that a tree is, if its rule is that of statements or of one kind of them. -/
def Rule.toStatement? : (r : Rule) → r.Tree → Option Statement
  | statement, tree => some tree
  | select, tree => some (.select tree)
  | insert, tree => some (.insert tree)
  | update, tree => some (.update tree)
  | delete, tree => some (.delete tree)
  | createTable, tree => some (.createTable tree)
  | createIndex, tree => some (.createIndex tree)
  | createView, tree => some (.createView tree)
  | createTrigger, tree => some (.createTrigger tree)
  | drop, tree => some (.drop tree)
  | alter, tree => some (.alter tree)
  | expr, _ | literal, _ | functionCall, _ | resultColumn, _ | selectSource, _ | tableSource, _
  | joinClause, _ | orderingTerm, _ | assignment, _ | columnDefinition, _ | columnConstraint, _
  | tableConstraint, _ | typeName, _ | signedNumber, _ | conflictClause, _ | foreignKey, _
  | indexedColumn, _ => none

/-- What costs a level of nesting: a rule, or an operand in which only operators of a least binding
power are taken. -/
inductive Goal where
  | rule (r : Rule)
  | operand (least : Nat)
  deriving DecidableEq, Repr

/-- The type of the trees of a goal. -/
@[reducible] def Goal.Tree : Goal → Type
  | rule r => r.Tree
  | operand _ => Expr

/-- A parser over the goals of this grammar. -/
abbrev Production (α : Type) := Parser Goal.Tree α

/-- A tree of a rule, one level deeper. -/
def Rule.parse (r : Rule) : Production r.Tree := Parser.goal (Goal.rule r)

end SqlGrammar
