import SqlGrammar.Grammar.Statement
import SqlGrammar.Proofs.Parser.Throughout

/-!
# The loops of the grammar

The productions repeat the steps that `Suits` lists, and no others; and the only thing that they do
a level deeper without a goal is a step of a trigger. Whatever is demanded of these holds throughout
all productions (`throughout_productions`).
-/

set_option autoImplicit false

namespace SqlGrammar.Grammar

open SqlGrammar.Parser Keyword

/-- The loops of the grammar, and what it does a level deeper, are as demanded. -/
structure Suits (Loop : (σ : Type) → (σ → Production (Option σ)) → Prop)
    (Deep : (α : Type) → Production α → Prop) : Prop where
  extend (least : Nat) : Loop _ (extend least)
  behind {α : Type} (t : Terminal) (p : Production α) : Loop _ (collecting (behind? t p))
  identifier : Loop _ (collecting identifier?)
  referenceRule : Loop _ (collecting referenceRule?)
  columnConstraint : Loop _ (collecting columnConstraint?)
  furtherColumn : Loop _ (collecting furtherColumn?)
  furtherStep : Loop _ (collecting furtherStep?)
  triggerStep : Deep _ triggerStep

variable {Loop : (σ : Type) → (σ → Production (Option σ)) → Prop}
  {Deep : (α : Type) → Production α → Prop}

/-! ## Parts without loops -/

/-- A goal is all there is to `operandOf`. -/
@[simp] theorem throughout_operandOf (least : Nat) :
    (operandOf least).Throughout Loop Deep := trivial

@[simp] theorem throughout_literal : literal.Throughout Loop Deep := by
  simp only [literal, throughout_bind, throughout_kind, true_and]
  intro k
  split <;> simp

@[simp] theorem throughout_startsQuery : startsQuery.Throughout Loop Deep := by
  simp [startsQuery]

@[simp] theorem throughout_columnName : columnName.Throughout Loop Deep := by
  simp [columnName]

@[simp] theorem throughout_qualifiedName : qualifiedName.Throughout Loop Deep := by
  simp [qualifiedName]

@[simp] theorem throughout_aliasName? : aliasName?.Throughout Loop Deep := by
  simp [aliasName?]

@[simp] theorem throughout_indexHint? : indexHint?.Throughout Loop Deep := by
  simp [indexHint?]

@[simp] theorem throughout_direction? : direction?.Throughout Loop Deep := by
  simp [direction?]

@[simp] theorem throughout_refuseCompound : refuseCompound.Throughout Loop Deep := by
  simp only [refuseCompound, throughout_bind, throughout_kind, true_and]
  intro k
  split <;> simp

@[simp] theorem throughout_conflictResolution : conflictResolution.Throughout Loop Deep := by
  simp only [conflictResolution, throughout_bind, throughout_kind, true_and]
  intro k
  split <;> simp

@[simp] theorem throughout_conflictClause? : conflictClause?.Throughout Loop Deep := by
  simp [conflictClause?, Rule.parse]

@[simp] theorem throughout_signedNumber : signedNumber.Throughout Loop Deep := by
  simp only [signedNumber, sign, throughout_bind, throughout_accept, throughout_kind, true_and,
    throughout_pure, throughout_ite, implies_true]
  intro sign k
  split <;> simp

@[simp] theorem throughout_referenceAction : referenceAction.Throughout Loop Deep := by
  simp [referenceAction]

@[simp] theorem throughout_deferral? : deferral?.Throughout Loop Deep := by
  simp [deferral?, deferral, initialCheck]

@[simp] theorem throughout_defaultValue : defaultValue.Throughout Loop Deep := by
  simp [defaultValue, Rule.parse]

@[simp] theorem throughout_joinClause : joinClause.Throughout Loop Deep := by
  simp [joinClause]

@[simp] theorem throughout_tableSource : tableSource.Throughout Loop Deep := by
  simp [tableSource]

/-- The two choices of `selectSource` are goals. -/
@[simp] theorem throughout_selectSource : selectSource.Throughout Loop Deep := by
  apply throughout_firstOf
  simp [Rule.parse]

/-- The resolution behind `OR` is part of `insertVerb`. -/
@[simp] theorem throughout_insertVerb : insertVerb.Throughout Loop Deep := by
  simp only [insertVerb, throughout_bind, throughout_accept, throughout_ite, throughout_expect,
    throughout_pure, throughout_behind, throughout_conflictResolution, true_and, implies_true]
  intro replaces _ _ resolution
  split <;> simp

@[simp] theorem throughout_filter? : filter?.Throughout Loop Deep := by
  simp [filter?, Rule.parse]

/-! ## Expressions -/

/-- The arguments of a call are separated by commas. -/
theorem throughout_functionCall (h : Suits Loop Deep) : functionCall.Throughout Loop Deep := by
  simp only [functionCall, throughout_bind, throughout_callee, true_and]
  intro name
  split <;> simp [callArgs, Rule.parse, h.behind]

/-- The loop of `caseExpr` is over the branches behind `WHEN`. -/
theorem throughout_caseExpr (h : Suits Loop Deep) : caseExpr.Throughout Loop Deep := by
  simp [caseExpr, whenBranch, Rule.parse, h.behind]

/-- The only loops of `primary` are those of `caseExpr`. -/
theorem throughout_primary (h : Suits Loop Deep) : primary.Throughout Loop Deep := by
  simp only [primary, throughout_bind, throughout_kind, true_and]
  intro k
  split
  · simp
  · simp only [throughout_bind, throughout_isNext, throughout_ite]
    split <;> simp [throughout_caseExpr h, castBody, parenBody, Rule.parse]

/-- Behind a prefix operator there is a goal, otherwise a `primary`. -/
theorem throughout_operandHead (h : Suits Loop Deep) : operandHead.Throughout Loop Deep := by
  simp only [operandHead, throughout_bind, throughout_kind, true_and]
  intro k
  split <;> simp [throughout_primary h]

/-- Of the forms of an operator only `IN` has a loop, over its items. -/
theorem throughout_infixRest (h : Suits Loop Deep) (left : Expr) (negated : Bool) (right : Nat)
    (form : InfixForm) : (infixRest left negated right form).Throughout Loop Deep := by
  cases form with
  | is =>
    simp only [infixRest, throughout_bind, throughout_accept, throughout_operandOf, true_and]
    intro isNot value
    split <;> simp
  | within => simp [infixRest, inSet, Rule.parse, h.behind]
  | _ => simp [infixRest]

/-- The `NOT` before an operator is taken without a loop. -/
theorem throughout_infixForm (h : Suits Loop Deep) (left : Expr) (right : Nat) :
    (infixForm left right).Throughout Loop Deep := by
  simp only [infixForm, throughout_bind, throughout_accept, throughout_kind, true_and]
  intro negated k
  split <;> simp [throughout_infixRest h]

/-- A round of the loop of `operand` has the loops of `infixForm`. -/
theorem throughout_extend (h : Suits Loop Deep) (least : Nat) (left : Expr) :
    (extend least left).Throughout Loop Deep := by
  simp only [extend, throughout_bind, throughout_look, true_and]
  intro now next
  split <;> simp [throughout_infixForm h]

/-- The loop of `operand` is the one over operators, `Suits.extend`. -/
theorem throughout_operand (h : Suits Loop Deep) (least : Nat) :
    (operand least).Throughout Loop Deep := by
  simp [operand, throughout_operandHead h, throughout_extend h, h.extend]

/-! ## Queries and data -/

theorem throughout_resultColumn : resultColumn.Throughout Loop Deep := by
  simp [resultColumn, Rule.parse]

/-- The sources are separated by commas. -/
theorem throughout_sources (h : Suits Loop Deep) : sources.Throughout Loop Deep := by
  simp [sources, Rule.parse, h.behind]

/-- The items behind terminals are separated by commas. -/
theorem throughout_listBehind (h : Suits Loop Deep) {α : Type} (ts : List Terminal)
    {item : Production α} (hitem : item.Throughout Loop Deep) :
    (listBehind ts item).Throughout Loop Deep := by
  simp [listBehind, hitem, h.behind]

/-- A `select` has a loop for its columns, sources, groups and order. -/
theorem throughout_select (h : Suits Loop Deep) : select.Throughout Loop Deep := by
  simp [select, distinct, grouping, limitClause, Rule.parse, h.behind, throughout_sources h,
    throughout_listBehind h]

/-- The names in parentheses are separated by commas. -/
theorem throughout_identifierList? (h : Suits Loop Deep) :
    identifierList?.Throughout Loop Deep := by
  simp [identifierList?, identifierList, h.behind]

/-- The rows of an `insert` are separated by commas, and so are the values of each row. -/
theorem throughout_insert (h : Suits Loop Deep) : insert.Throughout Loop Deep := by
  simp [insert, insertSource, row, Rule.parse, h.behind, throughout_identifierList? h]

/-- The assignments of an `update` are separated by commas. -/
theorem throughout_update (h : Suits Loop Deep) : update.Throughout Loop Deep := by
  simp [update, Rule.parse, h.behind]

/-! ## Tables -/

/-- The further words of a type are the loop `Suits.identifier`. -/
theorem throughout_typeName (h : Suits Loop Deep) : typeName.Throughout Loop Deep := by
  simp only [typeName, typeNumbers, Rule.parse, throughout_bind, throughout_identifier,
    throughout_many, throughout_identifier?, throughout_behind, throughout_goal, throughout_expect,
    throughout_pure, h.identifier, true_and, implies_true]
  intro name _ numbers
  split <;> simp

theorem throughout_referenceRule? : referenceRule?.Throughout Loop Deep := by
  simp [referenceRule?]

/-- The rules of a `foreignKey` are the loop `Suits.referenceRule`. -/
theorem throughout_foreignKey (h : Suits Loop Deep) : foreignKey.Throughout Loop Deep := by
  simp [foreignKey, throughout_identifierList? h, throughout_referenceRule?, h.referenceRule]

/-- A column constraint has no loop outside its goals. -/
theorem throughout_columnConstraint : columnConstraint.Throughout Loop Deep := by
  simp only [columnConstraint, constraintName?, columnRule, throughout_bind, throughout_behind,
    throughout_identifier, throughout_kind, throughout_pure, true_and, implies_true, and_true]
  intro name k
  split <;> simp [condition, Rule.parse]

theorem throughout_columnConstraint? : columnConstraint?.Throughout Loop Deep := by
  simp [columnConstraint?, Rule.parse]

/-- The constraints of a column are the loop `Suits.columnConstraint`. -/
theorem throughout_columnDefinition (h : Suits Loop Deep) :
    columnDefinition.Throughout Loop Deep := by
  simp [columnDefinition, typeName?, Rule.parse, throughout_columnConstraint?, h.columnConstraint]

/-- The columns that a table constraint names are separated by commas. -/
theorem throughout_tableConstraint (h : Suits Loop Deep) :
    tableConstraint.Throughout Loop Deep := by
  simp only [tableConstraint, constraintName?, tableRule, throughout_bind, throughout_behind,
    throughout_identifier, throughout_kind, throughout_pure, true_and, implies_true, and_true]
  intro name k
  split <;> simp [indexedColumns, condition, identifierList, Rule.parse, h.behind]

/-! ## Schemas -/

theorem throughout_createHead (object : Keyword) :
    (createHead object).Throughout Loop Deep := by
  simp [createHead, temporary, ifNotExists]

theorem throughout_furtherColumn? : furtherColumn?.Throughout Loop Deep := by
  simp [furtherColumn?, Rule.parse]

/-- The columns of a table are the loop `Suits.furtherColumn`; its constraints are separated by
commas. -/
theorem throughout_createTable (h : Suits Loop Deep) : createTable.Throughout Loop Deep := by
  simp [createTable, throughout_createHead, tableBody, tableEntries, Rule.parse,
    throughout_furtherColumn?, h.furtherColumn, throughout_listBehind h]

/-- The columns of an index are separated by commas. -/
theorem throughout_createIndex (h : Suits Loop Deep) : createIndex.Throughout Loop Deep := by
  simp [createIndex, ifNotExists, indexedColumns, Rule.parse, h.behind]

theorem throughout_createView (h : Suits Loop Deep) : createView.Throughout Loop Deep := by
  simp [createView, throughout_createHead, throughout_identifierList? h, Rule.parse]

/-- The columns behind `UPDATE OF` are separated by commas. -/
theorem throughout_triggerEvent (h : Suits Loop Deep) : triggerEvent.Throughout Loop Deep := by
  simp only [triggerEvent, throughout_bind, throughout_kind, true_and]
  intro k
  split <;> simp [throughout_listBehind h]

theorem throughout_triggerStep : triggerStep.Throughout Loop Deep := by
  simp only [triggerStep, throughout_bind, throughout_kind, true_and]
  intro k
  split <;> simp [Rule.parse]

/-- A `closedStep` does its statement a level deeper, as `Suits.triggerStep` demands. -/
theorem throughout_closedStep (h : Suits Loop Deep) : closedStep.Throughout Loop Deep := by
  simp [closedStep, throughout_triggerStep, h.triggerStep]

/-- A further step is a `closedStep`, unless the body ends. -/
theorem throughout_furtherStep? (h : Suits Loop Deep) : furtherStep?.Throughout Loop Deep := by
  simp [furtherStep?, throughout_closedStep h]

/-- The steps of a trigger are the loop `Suits.furtherStep`. -/
theorem throughout_createTrigger (h : Suits Loop Deep) : createTrigger.Throughout Loop Deep := by
  simp [createTrigger, throughout_createHead, triggerTiming?, triggerBody, Rule.parse,
    throughout_triggerEvent h, throughout_closedStep h, throughout_furtherStep? h, h.furtherStep]

theorem throughout_drop : drop.Throughout Loop Deep := by
  simp only [drop, throughout_bind, throughout_expect, throughout_kind, true_and]
  intro _ k
  split <;> simp

theorem throughout_alter : alter.Throughout Loop Deep := by
  simp only [alter, alterAction, throughout_bind, throughout_expectAll, throughout_kind,
    throughout_qualifiedName, throughout_pure, true_and, implies_true, and_true]
  intro _ table k
  split <;> simp [Rule.parse]

/-- What `creation` chooses from are goals. -/
theorem throughout_creation : creation.Throughout Loop Deep := by
  simp only [creation, throughout_bind, throughout_look, true_and]
  intro next afterNext
  split <;> simp [unknownCreation, Rule.parse]

/-- What `statement` chooses from are goals. -/
theorem throughout_statement : statement.Throughout Loop Deep := by
  simp only [statement, throughout_bind, throughout_kind, true_and]
  intro k
  split <;> simp [throughout_creation, Rule.parse]

/-! ## All productions -/

/-- What is demanded of the loops of the grammar holds throughout all productions. -/
theorem throughout_productions (h : Suits Loop Deep) (g : Goal) :
    (productions g).Throughout Loop Deep := by
  cases g with
  | operand least => exact throughout_operand h least
  | rule r =>
    cases r with
    | statement => exact throughout_statement
    | select => exact throughout_select h
    | insert => exact throughout_insert h
    | update => exact throughout_update h
    | delete => simp [productions, rule, delete]
    | createTable => exact throughout_createTable h
    | createIndex => exact throughout_createIndex h
    | createView => exact throughout_createView h
    | createTrigger => exact throughout_createTrigger h
    | drop => exact throughout_drop
    | alter => exact throughout_alter
    | expr => exact throughout_operandOf 0
    | literal => exact throughout_literal
    | functionCall => exact throughout_functionCall h
    | resultColumn => exact throughout_resultColumn
    | selectSource => exact throughout_selectSource
    | tableSource => exact throughout_tableSource
    | joinClause => exact throughout_joinClause
    | orderingTerm => simp [productions, rule, orderingTerm, Rule.parse]
    | assignment => simp [productions, rule, assignment, Rule.parse]
    | columnDefinition => exact throughout_columnDefinition h
    | columnConstraint => exact throughout_columnConstraint
    | tableConstraint => exact throughout_tableConstraint h
    | typeName => exact throughout_typeName h
    | signedNumber => exact throughout_signedNumber
    | conflictClause => simp [productions, rule, conflictClause]
    | foreignKey => exact throughout_foreignKey h
    | indexedColumn => simp [productions, rule, indexedColumn]

end SqlGrammar.Grammar
