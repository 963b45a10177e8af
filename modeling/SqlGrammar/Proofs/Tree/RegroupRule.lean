import SqlGrammar.Proofs.Writing.Canonical
import SqlGrammar.Writing.Statement

/-!
# Parentheses in trees of any rule

The parentheses of a grouping are put into every expression of a definition, of a statement and of a
tree of any rule. As with expressions, a tree and the tree with the parentheses it is written with
are written alike (`Rule.pieces_regroup`).
-/

set_option autoImplicit false

namespace SqlGrammar

/-! ## Definitions -/

section Definitions

variable (g : Grouping)

/-- The default with the parentheses of a grouping. -/
def DefaultValue.regroup : DefaultValue → DefaultValue
  | .expr value => .expr (value.regroup g)
  | value => value

/-- The rule with the parentheses of a grouping. -/
def ColumnRule.regroup : ColumnRule → ColumnRule
  | .check condition => .check (condition.regroup g)
  | .default value => .default (value.regroup g)
  | rule => rule

/-- The constraint with the parentheses of a grouping. -/
def ColumnConstraint.regroup (constraint : ColumnConstraint) : ColumnConstraint :=
  { constraint with rule := constraint.rule.regroup g }

/-- The column with the parentheses of a grouping. -/
def ColumnDefinition.regroup (column : ColumnDefinition) : ColumnDefinition :=
  { column with constraints := column.constraints.map (ColumnConstraint.regroup g) }

/-- The rule with the parentheses of a grouping. -/
def TableRule.regroup : TableRule → TableRule
  | .check condition => .check (condition.regroup g)
  | rule => rule

/-- The constraint with the parentheses of a grouping. -/
def TableConstraint.regroup (constraint : TableConstraint) : TableConstraint :=
  { constraint with rule := constraint.rule.regroup g }

/-! ## Statements -/

/-- The source with the parentheses of a grouping. -/
def InsertSource.regroup : InsertSource → InsertSource
  | .values rows => .values (rows.map (List.map (Expr.regroup g)))
  | .query select => .query (select.regroup g)
  | .defaults => .defaults

/-- The insertion with the parentheses of a grouping. -/
def Insert.regroup (statement : Insert) : Insert :=
  { statement with source := statement.source.regroup g }

/-- The assignment with the parentheses of a grouping. -/
def Assignment.regroup (assignment : Assignment) : Assignment :=
  { assignment with value := assignment.value.regroup g }

/-- The update with the parentheses of a grouping. -/
def Update.regroup (statement : Update) : Update :=
  { statement with
    assignments := statement.assignments.map (Assignment.regroup g)
    filter := statement.filter.map (Expr.regroup g) }

/-- The deletion with the parentheses of a grouping. -/
def Delete.regroup (statement : Delete) : Delete :=
  { statement with filter := statement.filter.map (Expr.regroup g) }

/-- The body of a table with the parentheses of a grouping. -/
def TableBody.regroup : TableBody → TableBody
  | .columns own constraints withoutRowid =>
    .columns (own.map (ColumnDefinition.regroup g)) (constraints.map (TableConstraint.regroup g))
      withoutRowid
  | .asSelect query => .asSelect (query.regroup g)

/-- The table with the parentheses of a grouping. -/
def CreateTable.regroup (statement : CreateTable) : CreateTable :=
  { statement with body := statement.body.regroup g }

/-- The index with the parentheses of a grouping. -/
def CreateIndex.regroup (statement : CreateIndex) : CreateIndex :=
  { statement with filter := statement.filter.map (Expr.regroup g) }

/-- The view with the parentheses of a grouping. -/
def CreateView.regroup (statement : CreateView) : CreateView :=
  { statement with query := statement.query.regroup g }

/-- The change with the parentheses of a grouping. -/
def AlterAction.regroup : AlterAction → AlterAction
  | .renameTo name => .renameTo name
  | .addColumn column => .addColumn (column.regroup g)

/-- The change of a table with the parentheses of a grouping. -/
def Alter.regroup (statement : Alter) : Alter :=
  { statement with action := statement.action.regroup g }

end Definitions

mutual

/-- The statement with the parentheses of a grouping. -/
def Statement.regroup (g : Grouping) : Statement → Statement
  | .select statement => .select (statement.regroup g)
  | .insert statement => .insert (statement.regroup g)
  | .update statement => .update (statement.regroup g)
  | .delete statement => .delete (statement.regroup g)
  | .createTable statement => .createTable (statement.regroup g)
  | .createIndex statement => .createIndex (statement.regroup g)
  | .createView statement => .createView (statement.regroup g)
  | .createTrigger statement => .createTrigger (statement.regroup g)
  | .drop statement => .drop statement
  | .alter statement => .alter (statement.regroup g)
termination_by structural s => s

/-- The trigger with the parentheses of a grouping. -/
def CreateTrigger.regroup (g : Grouping) : CreateTrigger → CreateTrigger
  | ⟨temporary, ifNotExists, name, timing, event, table, forEachRow, condition, body⟩ =>
    ⟨temporary, ifNotExists, name, timing, event, table, forEachRow,
      condition.map (Expr.regroup g), regroupSteps g body⟩
termination_by structural t => t

/-- Each statement of the body of a trigger with the parentheses of a grouping. -/
def regroupSteps (g : Grouping) : List Statement → List Statement
  | [] => []
  | s :: ss => s.regroup g :: regroupSteps g ss
termination_by structural ss => ss

end

/-- `regroupSteps` is `List.map`, spelled out for the recursion. -/
@[simp] theorem regroupSteps_eq (g : Grouping) (ss : List Statement) :
    regroupSteps g ss = ss.map (Statement.regroup g) := by
  induction ss with
  | nil => rfl
  | cons s ss ih => rw [regroupSteps, ih, List.map_cons]

/-- The tree of a rule with the parentheses of a grouping. -/
def Rule.regroup (g : Grouping) : (r : Rule) → r.Tree → r.Tree
  | statement, tree => Statement.regroup g tree
  | select, tree => Select.regroup g tree
  | insert, tree => Insert.regroup g tree
  | update, tree => Update.regroup g tree
  | delete, tree => Delete.regroup g tree
  | createTable, tree => CreateTable.regroup g tree
  | createIndex, tree => CreateIndex.regroup g tree
  | createView, tree => CreateView.regroup g tree
  | createTrigger, tree => CreateTrigger.regroup g tree
  | alter, tree => Alter.regroup g tree
  | expr, tree => Expr.regroup g tree
  | functionCall, tree => FunctionCall.regroup g tree
  | resultColumn, tree => ResultColumn.regroup g tree
  | orderingTerm, tree => OrderingTerm.regroup g tree
  | assignment, tree => Assignment.regroup g tree
  | columnDefinition, tree => ColumnDefinition.regroup g tree
  | columnConstraint, tree => ColumnConstraint.regroup g tree
  | tableConstraint, tree => TableConstraint.regroup g tree
  | drop, tree | literal, tree | selectSource, tree | tableSource, tree | joinClause, tree
  | typeName, tree | signedNumber, tree | conflictClause, tree | foreignKey, tree
  | indexedColumn, tree => tree

/-! ## Trees are written as before -/

/-- The case of expressions of `Phrase.pieces_regroup`. -/
@[simp] theorem Expr.pieces_regroup (e : Expr) : (e.regroup .written).pieces = e.pieces :=
  Phrase.pieces_regroup (.expr e)

/-- The case of queries of `Phrase.pieces_regroup`. -/
@[simp] theorem Select.pieces_regroup (q : Select) : (q.regroup .written).pieces = q.pieces :=
  Phrase.pieces_regroup (.query q)

/-- What is written of the elements of a list does not change if it does not for each of them. -/
@[simp] theorem map_pieces_regroup {α β : Type} {f : α → α} {w : α → β}
    (h : ∀ a, w (f a) = w a) (as : List α) : (as.map f).map w = as.map w :=
  Phrase.map_pieces_congr fun a _ => h a

theorem optionMap_pieces_regroup (e : Option Expr) :
    (e.map (Expr.regroup .written)).map Expr.pieces = e.map Expr.pieces :=
  Phrase.optionMap_pieces_congr fun x _ => x.pieces_regroup

theorem filterPieces_regroup (e : Option Expr) :
    filterPieces (e.map (Expr.regroup .written)) = filterPieces e := by
  rw [filterPieces, filterPieces, optionMap_pieces_regroup]

/-- Of the rules of a column only a check and a default hold expressions. -/
theorem ColumnConstraint.pieces_regroup (c : ColumnConstraint) :
    (c.regroup .written).pieces = c.pieces := by
  obtain ⟨name, rule⟩ := c
  cases rule with
  | default value =>
    cases value <;> simp [regroup, ColumnRule.regroup, DefaultValue.regroup, pieces,
      ColumnRule.pieces, DefaultValue.pieces]
  | _ => simp [regroup, ColumnRule.regroup, pieces, ColumnRule.pieces]

/-- As `map_pieces_regroup`, for groups that are written one behind the other. -/
theorem flatMap_pieces_regroup {α : Type} {f : α → α} {w : α → List Piece}
    (h : ∀ a, w (f a) = w a) (as : List α) : (as.map f).flatMap w = as.flatMap w := by
  rw [List.flatMap_def, List.flatMap_def, map_pieces_regroup h]

theorem ColumnDefinition.pieces_regroup (c : ColumnDefinition) :
    (c.regroup .written).pieces = c.pieces := by
  rw [pieces, pieces, regroup, flatMap_pieces_regroup ColumnConstraint.pieces_regroup]

/-- Of the rules of a table only a check holds an expression. -/
theorem TableConstraint.pieces_regroup (c : TableConstraint) :
    (c.regroup .written).pieces = c.pieces := by
  obtain ⟨name, rule⟩ := c
  cases rule <;> simp [regroup, TableRule.regroup, pieces, TableRule.pieces]

/-- The source of an insertion holds its expressions. -/
theorem Insert.pieces_regroup (s : Insert) : (s.regroup .written).pieces = s.pieces := by
  obtain ⟨verb, table, columns, source⟩ := s
  cases source with
  | values rows =>
    -- a list of lists of expressions, each in parentheses
    have hrows := map_pieces_regroup
      (f := List.map (Expr.regroup .written))
      (w := fun row => Pieces.inParens (Pieces.commaList (exprsPieces row)))
      (fun row => by
        rw [exprsPieces_eq, exprsPieces_eq, map_pieces_regroup Expr.pieces_regroup]) rows
    simp only [regroup, InsertSource.regroup, pieces, InsertSource.pieces, hrows]
  | query q => simp [regroup, InsertSource.regroup, pieces, InsertSource.pieces]
  | defaults => rfl

theorem Assignment.pieces_regroup (a : Assignment) : (a.regroup .written).pieces = a.pieces := by
  simp [pieces, regroup]

theorem Update.pieces_regroup (s : Update) : (s.regroup .written).pieces = s.pieces := by
  simp only [pieces, regroup, filterPieces_regroup, map_pieces_regroup Assignment.pieces_regroup]

theorem Delete.pieces_regroup (s : Delete) : (s.regroup .written).pieces = s.pieces := by
  simp only [pieces, regroup, filterPieces_regroup]

/-- The body of a table holds its expressions. -/
theorem CreateTable.pieces_regroup (s : CreateTable) : (s.regroup .written).pieces = s.pieces := by
  obtain ⟨temporary, ifNotExists, name, body⟩ := s
  cases body with
  | columns columns constraints withoutRowid =>
    have hconstraints := flatMap_pieces_regroup (f := TableConstraint.regroup .written)
      (w := fun c => Piece.comma :: c.pieces)
      (fun c => by rw [TableConstraint.pieces_regroup]) constraints
    simp only [pieces, regroup, TableBody.pieces, TableBody.regroup, hconstraints,
      map_pieces_regroup ColumnDefinition.pieces_regroup]
  | asSelect q => simp [pieces, regroup, TableBody.pieces, TableBody.regroup]

theorem CreateIndex.pieces_regroup (s : CreateIndex) : (s.regroup .written).pieces = s.pieces := by
  simp only [pieces, regroup, filterPieces_regroup]

theorem CreateView.pieces_regroup (s : CreateView) : (s.regroup .written).pieces = s.pieces := by
  simp [pieces, regroup]

theorem Alter.pieces_regroup (s : Alter) : (s.regroup .written).pieces = s.pieces := by
  obtain ⟨table, action⟩ := s
  cases action with
  | renameTo name => rfl
  | addColumn column =>
    simp only [pieces, regroup, AlterAction.pieces, AlterAction.regroup,
      ColumnDefinition.pieces_regroup]

mutual

/-- Together with those of triggers and their steps, by recursion. -/
theorem Statement.pieces_regroup : ∀ s : Statement, (s.regroup .written).pieces = s.pieces
  | .select s => s.pieces_regroup
  | .insert s => s.pieces_regroup
  | .update s => s.pieces_regroup
  | .delete s => s.pieces_regroup
  | .createTable s => s.pieces_regroup
  | .createIndex s => s.pieces_regroup
  | .createView s => s.pieces_regroup
  | .createTrigger s => CreateTrigger.pieces_regroup s
  | .drop _ => rfl
  | .alter s => s.pieces_regroup
termination_by structural s => s

theorem CreateTrigger.pieces_regroup :
    ∀ s : CreateTrigger, (s.regroup .written).pieces = s.pieces
  | ⟨_, _, _, _, _, _, _, condition, body⟩ => by
    rw [CreateTrigger.regroup, CreateTrigger.pieces, CreateTrigger.pieces,
      optionMap_pieces_regroup, stepsPieces_regroup body]
termination_by structural s => s

/-- By recursion along the steps. -/
theorem stepsPieces_regroup :
    ∀ ss : List Statement, stepsPieces (regroupSteps .written ss) = stepsPieces ss
  | [] => rfl
  | s :: ss => by
    rw [regroupSteps, stepsPieces, stepsPieces, Statement.pieces_regroup s, stepsPieces_regroup ss]
termination_by structural ss => ss

end

/-- A tree with the parentheses it is written with is written like the tree itself. -/
theorem Rule.pieces_regroup (r : Rule) (tree : r.Tree) :
    r.pieces (r.regroup .written tree) = r.pieces tree := by
  cases r with
  | statement => exact Statement.pieces_regroup tree
  | select => exact Select.pieces_regroup tree
  | insert => exact Insert.pieces_regroup tree
  | update => exact Update.pieces_regroup tree
  | delete => exact Delete.pieces_regroup tree
  | createTable => exact CreateTable.pieces_regroup tree
  | createIndex => exact CreateIndex.pieces_regroup tree
  | createView => exact CreateView.pieces_regroup tree
  | createTrigger => exact CreateTrigger.pieces_regroup tree
  | alter => exact Alter.pieces_regroup tree
  | expr => exact Expr.pieces_regroup tree
  | functionCall => exact Phrase.pieces_regroup (.call tree)
  | resultColumn => exact Phrase.pieces_regroup (.column tree)
  | orderingTerm => exact Phrase.pieces_regroup (.term tree)
  | assignment => exact Assignment.pieces_regroup tree
  | columnDefinition => exact ColumnDefinition.pieces_regroup tree
  | columnConstraint => exact ColumnConstraint.pieces_regroup tree
  | tableConstraint => exact TableConstraint.pieces_regroup tree
  | _ => rfl

/-- A tree of any rule is written as it is with the parentheses of `Grouping.written`. -/
theorem Rule.toSql_regroup (r : Rule) (tree : r.Tree) :
    r.toSql (r.regroup .written tree) = r.toSql tree := by
  rw [toSql, toSql, pieces_regroup]

end SqlGrammar
