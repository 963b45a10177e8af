import SqlGrammar.Grammar.Goal
import SqlGrammar.Grammar.Power
import SqlGrammar.Proofs.Lexer.Spelling
import SqlGrammar.Proofs.Tree.Phrase

/-!
# Well-formed trees

Trees can be put together that no text is read as: a number whose text is no number, a type with a
scale and no length, a call that asks for distinct arguments and has none, a query without columns.
`WellFormed P` excludes these, and demands of every phrase of the tree whatever `P` adds. Two such
additions matter: `Phrase.Unambiguous`, under which no operator is read as a different one when the
tree is written, and the simpler and stronger `Phrase.Plain`.
-/

set_option autoImplicit false

namespace SqlGrammar

open Lexer

/-! ## Leaves -/

/-- The text of a number is read as that number. -/
def Literal.WellMade : Literal → Prop
  | number text => IsToken (.number text) text
  | _ => True

/-- The text is a number behind an optional sign. -/
def SignedNumber.WellMade (number : SignedNumber) : Prop :=
  ∃ sign ∈ ["", "-", "+"], ∃ text, number.text = sign ++ text ∧ IsToken (.number text) text

/-- The numbers of the type are numbers, and there is no scale without a length. -/
structure TypeName.WellMade (type : TypeName) : Prop where
  length : ∀ n ∈ type.length, n.WellMade
  scale : ∀ n ∈ type.scale, n.WellMade ∧ type.length.isSome = true

/-! ## Expressions and queries -/

/-- Whether a pattern at the end of the expression is without an escape, so that an escape behind
the expression would become part of it. -/
def Expr.opensEscape : Expr → Bool
  | unary _ operand => operand.opensEscape
  | binary _ _ right => right.opensEscape
  | like _ _ _ none _ => true
  | like _ _ _ (some escape) _ => escape.opensEscape
  | between _ _ high _ => high.opensEscape
  | _ => false

/-- Whether the expression is a prefix `NOT` with its operand. -/
def Expr.isNegated : Expr → Bool
  | unary .not _ => true
  | _ => false

namespace Phrase

/-- What the grammar demands of a phrase by itself. -/
def WellMade : Phrase → Prop
  | expr (.literal value) => value.WellMade
  | expr (.parameter text) => IsToken (.parameter text) text
  | expr (.column schema table _) => schema.isSome = true → table.isSome = true
  | expr (.cast _ type) => type.WellMade
  | expr (.caseWhen _ branches _) => branches ≠ []
  | args (.list distinct es) => distinct = true → es ≠ []
  | query q => q.columns ≠ [] ∧ (q.having.isSome = true → q.groupBy ≠ [])
  | _ => True

/-- Written and read again, no operator of the phrase turns into another one: nothing that is
compared by `IS` is a bare `NULL` or begins with a `NOT` of its own, and no escape is taken by the
end of its own pattern. -/
def Unambiguous : Phrase → Prop
  | expr (.binary _ .is right) => right ≠ .literal .null ∧ right.isNegated = false
  | expr (.binary _ .isNot right) => right ≠ .literal .null
  | expr (.like _ _ pattern (some _) _) => pattern.opensEscape = false
  | _ => True

/-- The phrase holds no comparison by `IS` and no escape. -/
def Plain : Phrase → Prop
  | expr (.binary _ op _) => op ≠ .is ∧ op ≠ .isNot
  | expr (.like _ _ _ escape _) => escape = none
  | _ => True

/-- What holds neither an `IS` between operands nor an `ESCAPE` has no operator that can turn into
another. -/
theorem Plain.unambiguous {p : Phrase} (h : p.Plain) : p.Unambiguous := by
  unfold Unambiguous
  split
  · exact absurd rfl h.1
  · exact absurd rfl h.2
  · cases h
  · trivial

/-- The phrase and all that is inside it are well made and fulfil a further demand. -/
def WellFormed (P : Phrase → Prop) (p : Phrase) : Prop := p.Every fun q => q.WellMade ∧ P q

/-- A weaker demand holds of what a stronger one holds of, and so for each kind of tree below. -/
theorem WellFormed.mono {P Q : Phrase → Prop} {p : Phrase} (h : p.WellFormed P)
    (himp : ∀ q, P q → Q q) : p.WellFormed Q :=
  Every.mono h fun q hq => ⟨hq.1, himp q hq.2⟩

/-- A phrase without parts is well formed if it is well made. -/
theorem WellFormed.leaf {P : Phrase → Prop} {p : Phrase} (hmade : p.WellMade) (hp : P p)
    (hparts : p.parts = []) : p.WellFormed P := by
  refine .intro ⟨hmade, hp⟩ fun q hq => ?_
  rw [hparts] at hq
  cases hq

/-- A phrase of one part is well formed if the part is. -/
theorem WellFormed.single {P : Phrase → Prop} {p q : Phrase} (hmade : p.WellMade) (hp : P p)
    (hparts : p.parts = [q]) (hq : q.WellFormed P) : p.WellFormed P := by
  refine .intro ⟨hmade, hp⟩ fun q' hq' => ?_
  rw [hparts] at hq'
  cases List.mem_singleton.1 hq'
  exact hq

end Phrase

section Rules

variable (P : Phrase → Prop)

/-- The expression is well formed. -/
def Expr.WellFormed (e : Expr) : Prop := (Phrase.expr e).WellFormed P

/-- The query is well formed. -/
def Select.WellFormed (q : Select) : Prop := (Phrase.query q).WellFormed P

/-! ## Definitions -/

/-- The default is well formed. A bare number is one with a sign or without, not a literal. -/
def DefaultValue.WellFormed : DefaultValue → Prop
  | signed number => number.WellMade
  | literal value => ∀ text, value ≠ .number text
  | expr value => value.WellFormed P

/-- The rule is well formed. -/
def ColumnRule.WellFormed : ColumnRule → Prop
  | check condition => condition.WellFormed P
  | default value => value.WellFormed P
  | _ => True

/-- The column is well formed. -/
structure ColumnDefinition.WellFormed (column : ColumnDefinition) : Prop where
  type : ∀ t ∈ column.type, t.WellMade
  constraints : ∀ c ∈ column.constraints, c.rule.WellFormed P

/-- The rule is well formed. -/
def TableRule.WellFormed : TableRule → Prop
  | key _ columns _ => columns ≠ []
  | check condition => condition.WellFormed P
  | foreignKey columns _ => columns ≠ []

/-! ## Statements -/

/-- The source is well formed. -/
def InsertSource.WellFormed : InsertSource → Prop
  | values rows => rows ≠ [] ∧ ∀ row ∈ rows, row ≠ [] ∧ ∀ e ∈ row, e.WellFormed P
  | query select => select.WellFormed P
  | defaults => True

/-- The insertion is well formed. -/
def Insert.WellFormed (statement : Insert) : Prop := statement.source.WellFormed P

/-- The update is well formed. -/
structure Update.WellFormed (statement : Update) : Prop where
  nonempty : statement.assignments ≠ []
  assignments : ∀ a ∈ statement.assignments, a.value.WellFormed P
  filter : ∀ e ∈ statement.filter, e.WellFormed P

/-- The deletion is well formed. -/
def Delete.WellFormed (statement : Delete) : Prop := ∀ e ∈ statement.filter, e.WellFormed P

/-- The body of a table is well formed. -/
def TableBody.WellFormed : TableBody → Prop
  | columns own constraints _ =>
    own ≠ [] ∧ (∀ c ∈ own, c.WellFormed P) ∧ ∀ c ∈ constraints, c.rule.WellFormed P
  | asSelect query => query.WellFormed P

/-- The index is well formed. -/
structure CreateIndex.WellFormed (statement : CreateIndex) : Prop where
  columns : statement.columns ≠ []
  filter : ∀ e ∈ statement.filter, e.WellFormed P

/-- The change is well formed. -/
def AlterAction.WellFormed : AlterAction → Prop
  | renameTo _ => True
  | addColumn column => column.WellFormed P

/-- The statement may stand in the body of a trigger, and is well formed. -/
def Statement.StepWellFormed : Statement → Prop
  | select statement => statement.WellFormed P
  | insert statement => statement.WellFormed P
  | update statement => statement.WellFormed P
  | delete statement => statement.WellFormed P
  | _ => False

/-- The trigger is well formed. -/
structure CreateTrigger.WellFormed (statement : CreateTrigger) : Prop where
  condition : ∀ e ∈ statement.condition, e.WellFormed P
  nonempty : statement.body ≠ []
  body : ∀ s ∈ statement.body, s.StepWellFormed P

/-- The statement is well formed. -/
def Statement.WellFormed : Statement → Prop
  | select statement => statement.WellFormed P
  | insert statement => statement.WellFormed P
  | update statement => statement.WellFormed P
  | delete statement => statement.WellFormed P
  | createTable statement => statement.body.WellFormed P
  | createIndex statement => statement.WellFormed P
  | createView statement => statement.query.WellFormed P
  | createTrigger statement => statement.WellFormed P
  | drop _ => True
  | alter statement => statement.action.WellFormed P

/-- The tree of a rule is well formed. -/
def Rule.WellFormed : (r : Rule) → r.Tree → Prop
  | statement, tree => Statement.WellFormed P tree
  | select, tree => Select.WellFormed P tree
  | insert, tree => Insert.WellFormed P tree
  | update, tree => Update.WellFormed P tree
  | delete, tree => Delete.WellFormed P tree
  | createTable, tree => TableBody.WellFormed P (CreateTable.body tree)
  | createIndex, tree => CreateIndex.WellFormed P tree
  | createView, tree => Select.WellFormed P (CreateView.query tree)
  | createTrigger, tree => CreateTrigger.WellFormed P tree
  | alter, tree => AlterAction.WellFormed P (Alter.action tree)
  | expr, tree => Expr.WellFormed P tree
  | literal, tree => Literal.WellMade tree
  | functionCall, tree => (Phrase.call tree).WellFormed P
  | resultColumn, tree => (Phrase.column tree).WellFormed P
  | orderingTerm, tree => (Phrase.term tree).WellFormed P
  | assignment, tree => Expr.WellFormed P (Assignment.value tree)
  | columnDefinition, tree => ColumnDefinition.WellFormed P tree
  | columnConstraint, tree => ColumnRule.WellFormed P (ColumnConstraint.rule tree)
  | tableConstraint, tree => TableRule.WellFormed P (TableConstraint.rule tree)
  | typeName, tree => TypeName.WellMade tree
  | signedNumber, tree => SignedNumber.WellMade tree
  | drop, _ | selectSource, _ | tableSource, _ | joinClause, _ | conflictClause, _
  | foreignKey, _ | indexedColumn, _ => True

end Rules

/-! ## Weaker demands -/

section Weaker

variable {P Q : Phrase → Prop} (himp : ∀ p, P p → Q p)

include himp

/-- The case of expressions of `Phrase.WellFormed.mono`. -/
theorem Expr.WellFormed.mono {e : Expr} (h : e.WellFormed P) : e.WellFormed Q :=
  Phrase.WellFormed.mono h himp

theorem Select.WellFormed.mono {q : Select} (h : q.WellFormed P) : q.WellFormed Q :=
  Phrase.WellFormed.mono h himp

theorem Expr.WellFormed.mono_option {filter : Option Expr} (h : ∀ e ∈ filter, e.WellFormed P) :
    ∀ e ∈ filter, e.WellFormed Q :=
  fun e he => (h e he).mono himp

/-- One case for each rule of a column. -/
theorem ColumnRule.WellFormed.mono {rule : ColumnRule} (h : rule.WellFormed P) :
    rule.WellFormed Q := by
  cases rule with
  | check condition => exact Phrase.WellFormed.mono h himp
  | default value =>
    cases value with
    | expr e => exact Phrase.WellFormed.mono h himp
    | signed number => exact h
    | literal value => exact h
  | _ => trivial

theorem ColumnDefinition.WellFormed.mono {column : ColumnDefinition} (h : column.WellFormed P) :
    column.WellFormed Q where
  type := h.type
  constraints c hc := (h.constraints c hc).mono himp

/-- One case for each rule of a table. -/
theorem TableRule.WellFormed.mono {rule : TableRule} (h : rule.WellFormed P) :
    rule.WellFormed Q := by
  cases rule with
  | key kind columns onConflict => exact h
  | check condition => exact Phrase.WellFormed.mono h himp
  | foreignKey columns key => exact h

theorem Insert.WellFormed.mono {statement : Insert} (h : statement.WellFormed P) :
    statement.WellFormed Q := by
  obtain ⟨verb, table, columns, source⟩ := statement
  cases source with
  | values rows => exact ⟨h.1, fun row hrow => ⟨(h.2 row hrow).1, fun e he =>
      ((h.2 row hrow).2 e he).mono himp⟩⟩
  | query q => exact Phrase.WellFormed.mono h himp
  | defaults => trivial

theorem Update.WellFormed.mono {statement : Update} (h : statement.WellFormed P) :
    statement.WellFormed Q where
  nonempty := h.nonempty
  assignments a ha := (h.assignments a ha).mono himp
  filter := Expr.WellFormed.mono_option himp h.filter

theorem Delete.WellFormed.mono {statement : Delete} (h : statement.WellFormed P) :
    statement.WellFormed Q :=
  Expr.WellFormed.mono_option himp h

theorem TableBody.WellFormed.mono {body : TableBody} (h : body.WellFormed P) :
    body.WellFormed Q := by
  cases body with
  | columns own constraints withoutRowid =>
    exact ⟨h.1, fun c hc => (h.2.1 c hc).mono himp, fun c hc => (h.2.2 c hc).mono himp⟩
  | asSelect q => exact Phrase.WellFormed.mono h himp

theorem CreateIndex.WellFormed.mono {statement : CreateIndex} (h : statement.WellFormed P) :
    statement.WellFormed Q where
  columns := h.columns
  filter := Expr.WellFormed.mono_option himp h.filter

theorem AlterAction.WellFormed.mono {action : AlterAction} (h : action.WellFormed P) :
    action.WellFormed Q := by
  cases action with
  | renameTo name => trivial
  | addColumn column => exact ColumnDefinition.WellFormed.mono himp h

/-- The statements that a step can be. -/
theorem Statement.StepWellFormed.mono {step : Statement} (h : step.StepWellFormed P) :
    step.StepWellFormed Q := by
  cases step with
  | select q => exact Phrase.WellFormed.mono h himp
  | insert statement => exact Insert.WellFormed.mono himp h
  | update statement => exact Update.WellFormed.mono himp h
  | delete statement => exact Delete.WellFormed.mono himp h
  | _ => exact h.elim

theorem CreateTrigger.WellFormed.mono {statement : CreateTrigger} (h : statement.WellFormed P) :
    statement.WellFormed Q where
  condition := Expr.WellFormed.mono_option himp h.condition
  nonempty := h.nonempty
  body s hs := (h.body s hs).mono himp

/-- One case for each kind of statement. -/
theorem Statement.WellFormed.mono {statement : Statement} (h : statement.WellFormed P) :
    statement.WellFormed Q := by
  cases statement with
  | select q => exact Phrase.WellFormed.mono h himp
  | insert statement => exact Insert.WellFormed.mono himp h
  | update statement => exact Update.WellFormed.mono himp h
  | delete statement => exact Delete.WellFormed.mono himp h
  | createTable statement => exact TableBody.WellFormed.mono himp h
  | createIndex statement => exact CreateIndex.WellFormed.mono himp h
  | createView statement => exact Phrase.WellFormed.mono h himp
  | createTrigger statement => exact CreateTrigger.WellFormed.mono himp h
  | drop statement => trivial
  | alter statement => exact AlterAction.WellFormed.mono himp h

/-- A tree that fulfils a demand throughout fulfils every weaker one. -/
theorem Rule.WellFormed.mono {r : Rule} {tree : r.Tree} (h : r.WellFormed P tree) :
    r.WellFormed Q tree := by
  cases r with
  | statement => exact Statement.WellFormed.mono himp h
  | insert => exact Insert.WellFormed.mono himp h
  | update => exact Update.WellFormed.mono himp h
  | delete => exact Delete.WellFormed.mono himp h
  | createTable => exact TableBody.WellFormed.mono himp h
  | createIndex => exact CreateIndex.WellFormed.mono himp h
  | createTrigger => exact CreateTrigger.WellFormed.mono himp h
  | alter => exact AlterAction.WellFormed.mono himp h
  | columnDefinition => exact ColumnDefinition.WellFormed.mono himp h
  | columnConstraint => exact ColumnRule.WellFormed.mono himp h
  | tableConstraint => exact TableRule.WellFormed.mono himp h
  | select | createView | expr | functionCall | resultColumn | orderingTerm | assignment =>
    exact Phrase.WellFormed.mono h himp
  | literal | typeName | signedNumber | drop | selectSource | tableSource | joinClause
  | conflictClause | foreignKey | indexedColumn => exact h

end Weaker

end SqlGrammar
