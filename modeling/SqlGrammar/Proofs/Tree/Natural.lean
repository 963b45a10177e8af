import SqlGrammar.Proofs.Tree.RegroupRule
import SqlGrammar.Proofs.Tree.WellFormed

/-!
# Trees as they come from a text

In a tree that was read from a text, every operand stands where the grammar lets it stand without
parentheses. Written again, such a tree gets parentheses in one place only: around a test that ends
with its operator, a test for null or one with `IN`, in front of an operator that binds more
strongly (`Rule.regroup_guard`).
-/

set_option autoImplicit false

namespace SqlGrammar

/-- Whether the grammar can read the expression as the left operand of an operator of this power. A
test that ends with its operator may stand before every operator. -/
def Expr.leads (e : Expr) (power : Nat) : Bool := e.isTest || e.fitsLeft power

namespace Phrase

/-- The operands of the phrase itself stand where the grammar lets them stand. -/
def Natural : Phrase → Prop
  | expr (.unary op operand) => operand.fitsRight op.power = true
  | expr (.binary left op right) =>
    left.leads op.power = true ∧ right.fitsRight (op.power + 1) = true
  | expr (.like subject _ pattern escape _) =>
    subject.leads equalityPower = true ∧ pattern.fitsRight (equalityPower + 1) = true ∧
      ∀ e ∈ escape, e.fitsRight (equalityPower + 1) = true
  | expr (.isNull subject _) => subject.leads equalityPower = true
  | expr (.between subject low high _) =>
    subject.leads equalityPower = true ∧ low.fitsRight (equalityPower + 1) = true ∧
      high.fitsRight (equalityPower + 1) = true
  | expr (.within subject _ _) => subject.leads equalityPower = true
  | expr (.collate subject _) => subject.leads collatePower = true
  | _ => True

/-- What holds of every phrase that was read from a text. -/
def Parsed (p : Phrase) : Prop := p.Unambiguous ∧ p.Natural

end Phrase

namespace Expr

variable {e : Expr} {least power : Nat}

/-- A test ends with its operator, so that nothing can be drawn into it. -/
theorem tailPower_of_isTest (h : e.isTest = true) : e.tailPower = atomPower := by
  cases e <;> first | rfl | cases h

/-- All tests bind as `equalityPower` does. -/
theorem power_of_isTest (h : e.isTest = true) : e.power = equalityPower := by
  cases e <;> first | rfl | cases h

/-- Before which operators a leading expression is written with parentheses. -/
theorem guard_left_of_leads (h : e.leads power = true) (hpower : power < atomPower) :
    Grouping.guard.left e power = Grouping.written.left e power := by
  rw [Grouping.guard_left, Grouping.written_left]
  cases htest : e.isTest with
  | false =>
    rw [leads, htest, Bool.false_or] at h
    rw [h]
    rfl
  | true =>
    -- a test draws nothing in, so that only its own power decides
    rw [fitsLeft, tailPower_of_isTest htest, power_of_isTest htest]
    by_cases hle : power ≤ equalityPower
    · simp [hle, hpower]
    · simp [hle, Nat.lt_of_not_le hle]

/-- Neither grouping encloses a right operand that `fitsRight`. -/
theorem guard_right_of_fits (h : e.fitsRight least = true) :
    Grouping.guard.right e least = Grouping.written.right e least := by
  rw [Grouping.guard_right, Grouping.written_right, h]
  rfl

/-- For a left operand that `leads` an operator of a power, both groupings are the same. -/
theorem regroupLeft_guard (h : e.leads power = true) (hpower : power < atomPower)
    (heq : e.regroup .guard = e.regroup .written) :
    e.regroupLeft .guard power = e.regroupLeft .written power := by
  rw [regroupLeft, regroupLeft, guard_left_of_leads h hpower, heq]

/-- For a right operand that `fitsRight`, both groupings are the same. -/
theorem regroupRight_guard (h : e.fitsRight least = true)
    (heq : e.regroup .guard = e.regroup .written) :
    e.regroupRight .guard least = e.regroupRight .written least := by
  rw [regroupRight, regroupRight, guard_right_of_fits h, heq]

/-- An expression from a text gets the same parentheses under both groupings if its parts do. -/
theorem regroup_guard_of_parts {e : Expr} (hself : (Phrase.expr e).Natural)
    (h : ∀ p ∈ (Phrase.expr e).parts, p.regroup .guard = p.regroup .written) :
    e.regroup .guard = e.regroup .written := by
  have hexpr : ∀ x, .expr x ∈ (Phrase.expr e).parts → x.regroup .guard = x.regroup .written :=
    fun x hx => Phrase.expr.inj (h _ hx)
  have hquery : ∀ q, .query q ∈ (Phrase.expr e).parts → q.regroup .guard = q.regroup .written :=
    fun q hq => Phrase.query.inj (h _ hq)
  have htest : equalityPower < atomPower := by decide
  -- the two groupings differ in left operands only, and not in those that may lead
  cases e with
  | literal | parameter | column => rfl
  | unary op operand =>
    rw [regroup_unary, regroup_unary,
      regroupRight_guard hself (hexpr operand (by simp [Phrase.parts]))]
  | binary left op right =>
    rw [regroup_binary, regroup_binary,
      regroupLeft_guard hself.1 op.power_lt_atomPower (hexpr left (by simp [Phrase.parts])),
      regroupRight_guard hself.2 (hexpr right (by simp [Phrase.parts]))]
  | like subject op pattern escape negated =>
    obtain ⟨hsubject, hpattern, hescape⟩ := hself
    rw [regroup_like, regroup_like,
      regroupLeft_guard hsubject htest (hexpr subject (by simp [Phrase.parts])),
      regroupRight_guard hpattern (hexpr pattern (by simp [Phrase.parts])),
      Option.map_congr fun x hx => regroupRight_guard (hescape x hx)
        (hexpr x (by simp [Phrase.parts, hx]))]
  | isNull subject negated =>
    rw [regroup_isNull, regroup_isNull,
      regroupLeft_guard hself htest (hexpr subject (by simp [Phrase.parts]))]
  | between subject low high negated =>
    obtain ⟨hsubject, hlow, hhigh⟩ := hself
    rw [regroup_between, regroup_between,
      regroupLeft_guard hsubject htest (hexpr subject (by simp [Phrase.parts])),
      regroupRight_guard hlow (hexpr low (by simp [Phrase.parts])),
      regroupRight_guard hhigh (hexpr high (by simp [Phrase.parts]))]
  | within subject set negated =>
    have hset : set.regroup .guard = set.regroup .written :=
      Phrase.set.inj (h (.set set) (by simp [Phrase.parts]))
    rw [regroup_within, regroup_within,
      regroupLeft_guard hself htest (hexpr subject (by simp [Phrase.parts])), hset]
  | collate subject collation =>
    rw [regroup_collate, regroup_collate,
      regroupLeft_guard hself (by decide) (hexpr subject (by simp [Phrase.parts]))]
  | call c =>
    have hc : c.regroup .guard = c.regroup .written :=
      Phrase.call.inj (h (.call c) (by simp [Phrase.parts]))
    simp only [regroup, hc]
  | cast subject type => simp only [regroup, hexpr subject (by simp [Phrase.parts])]
  | caseWhen operand branches otherwise =>
    have hoperand : operand.map (regroup .guard) = operand.map (regroup .written) :=
      Option.map_congr fun x hx => hexpr x (by simp [Phrase.parts, hx])
    have hbranches : branches.map (WhenBranch.regroup .guard) =
        branches.map (WhenBranch.regroup .written) :=
      List.map_congr_left fun b hb =>
        Phrase.branch.inj (h (.branch b) (by simp [Phrase.parts, hb]))
    have hotherwise : otherwise.map (regroup .guard) = otherwise.map (regroup .written) :=
      Option.map_congr fun x hx => hexpr x (by simp [Phrase.parts, hx])
    simp only [regroup, regroupExpr?_eq, regroupBranches_eq, hoperand, hbranches, hotherwise]
  | existsRow q => simp only [regroup, hquery q (by simp [Phrase.parts])]
  | subquery q => simp only [regroup, hquery q (by simp [Phrase.parts])]
  | paren inner => simp only [regroup, hexpr inner (by simp [Phrase.parts])]

end Expr

namespace Phrase

/-- A phrase from a text gets the same parentheses under both groupings. -/
theorem regroup_guard {P : Phrase → Prop} (hnatural : ∀ p, P p → p.Natural) {p : Phrase}
    (h : p.WellFormed P) : p.regroup .guard = p.regroup .written := by
  induction h with
  | @intro p hself _ ih =>
    replace hself : p.Natural := hnatural p hself.2
    have hexpr : ∀ e, .expr e ∈ p.parts → e.regroup .guard = e.regroup .written :=
      fun e he => Phrase.expr.inj (ih _ he)
    have hquery : ∀ q, .query q ∈ p.parts → q.regroup .guard = q.regroup .written :=
      fun q hq => Phrase.query.inj (ih _ hq)
    cases p with
    | expr e => exact congrArg Phrase.expr (Expr.regroup_guard_of_parts hself ih)
    | call c =>
      obtain ⟨name, a⟩ := c
      have ha : a.regroup .guard = a.regroup .written :=
        Phrase.args.inj (ih (.args a) (by simp [parts]))
      simp only [regroup, FunctionCall.regroup, ha]
    | args a =>
      cases a with
      | star => rfl
      | list distinct es =>
        have hes := List.map_congr_left fun e he => hexpr e (by simpa [parts] using he)
        simp only [regroup, CallArgs.regroup, regroupExprs_eq, hes]
    | set s =>
      cases s with
      | values es =>
        have hes := List.map_congr_left fun e he => hexpr e (by simpa [parts] using he)
        simp only [regroup, InSet.regroup, regroupExprs_eq, hes]
      | query q => simp only [regroup, InSet.regroup, hquery q (by simp [parts])]
    | branch b =>
      obtain ⟨condition, result⟩ := b
      simp only [regroup, WhenBranch.regroup, hexpr condition (by simp [parts]),
        hexpr result (by simp [parts])]
    | column c =>
      cases c with
      | all | allOf => rfl
      | expr e name => simp only [regroup, ResultColumn.regroup, hexpr e (by simp [parts])]
    | term t =>
      obtain ⟨key, direction⟩ := t
      simp only [regroup, OrderingTerm.regroup, hexpr key (by simp [parts])]
    | limit l =>
      obtain ⟨bound, offset⟩ := l
      have hoffset : offset.map (Expr.regroup .guard) = offset.map (Expr.regroup .written) :=
        Option.map_congr fun x hx => hexpr x (by simp [parts, hx])
      simp only [regroup, LimitClause.regroup, regroupExpr?_eq, hexpr bound (by simp [parts]),
        hoffset]
    | query q =>
      have hcolumns : q.columns.map (ResultColumn.regroup .guard) =
          q.columns.map (ResultColumn.regroup .written) :=
        List.map_congr_left fun c hc => Phrase.column.inj (ih (.column c) (by simp [parts, hc]))
      have hfilter : q.filter.map (Expr.regroup .guard) = q.filter.map (Expr.regroup .written) :=
        Option.map_congr fun x hx => hexpr x (by simp [parts, hx])
      have hgroupBy : q.groupBy.map (Expr.regroup .guard) =
          q.groupBy.map (Expr.regroup .written) :=
        List.map_congr_left fun x hx => hexpr x (by simp [parts, hx])
      have hhaving : q.having.map (Expr.regroup .guard) = q.having.map (Expr.regroup .written) :=
        Option.map_congr fun x hx => hexpr x (by simp [parts, hx])
      have horderBy : q.orderBy.map (OrderingTerm.regroup .guard) =
          q.orderBy.map (OrderingTerm.regroup .written) :=
        List.map_congr_left fun t ht => Phrase.term.inj (ih (.term t) (by simp [parts, ht]))
      have hlimit : q.limit.map (LimitClause.regroup .guard) =
          q.limit.map (LimitClause.regroup .written) :=
        Option.map_congr fun l hl => Phrase.limit.inj (ih (.limit l) (by simp [parts, hl]))
      rw [regroup, regroup, Select.regroup_eq, Select.regroup_eq, hcolumns, hfilter, hgroupBy,
        hhaving, horderBy, hlimit]

end Phrase

/-! ## Trees of any rule -/

section Rules

variable {P : Phrase → Prop} (hnatural : ∀ p, P p → p.Natural)

include hnatural

/-- The case of expressions of `Phrase.regroup_guard`. -/
theorem Expr.regroup_guard {e : Expr} (h : e.WellFormed P) :
    e.regroup .guard = e.regroup .written :=
  Phrase.expr.inj (Phrase.regroup_guard hnatural h)

theorem Expr.optionMap_regroup_guard {e : Option Expr} (h : ∀ x ∈ e, x.WellFormed P) :
    e.map (Expr.regroup .guard) = e.map (Expr.regroup .written) :=
  Option.map_congr fun x hx => Expr.regroup_guard hnatural (h x hx)

theorem Select.regroup_guard {q : Select} (h : q.WellFormed P) :
    q.regroup .guard = q.regroup .written :=
  Phrase.query.inj (Phrase.regroup_guard hnatural h)

/-- One case for each rule of a column; only two hold an expression. -/
theorem ColumnRule.regroup_guard {rule : ColumnRule} (h : rule.WellFormed P) :
    rule.regroup .guard = rule.regroup .written := by
  cases rule with
  | check condition => exact congrArg check (Expr.regroup_guard hnatural h)
  | default value =>
    cases value with
    | expr e =>
      exact congrArg (fun e => default (.expr e)) (Expr.regroup_guard (P := P) hnatural h)
    | _ => rfl
  | _ => rfl

theorem ColumnDefinition.regroup_guard {column : ColumnDefinition} (h : column.WellFormed P) :
    column.regroup .guard = column.regroup .written := by
  have hconstraints : column.constraints.map (ColumnConstraint.regroup .guard) =
      column.constraints.map (ColumnConstraint.regroup .written) :=
    List.map_congr_left fun c hc => by
      rw [ColumnConstraint.regroup, ColumnConstraint.regroup,
        ColumnRule.regroup_guard hnatural (h.constraints c hc)]
  rw [regroup, regroup, hconstraints]

/-- One case for each rule of a table. -/
theorem TableRule.regroup_guard {rule : TableRule} (h : rule.WellFormed P) :
    rule.regroup .guard = rule.regroup .written := by
  cases rule with
  | check condition => exact congrArg check (Expr.regroup_guard hnatural h)
  | _ => rfl

theorem Insert.regroup_guard {statement : Insert} (h : statement.WellFormed P) :
    statement.regroup .guard = statement.regroup .written := by
  obtain ⟨verb, table, columns, source⟩ := statement
  cases source with
  | values rows =>
    have hrows : rows.map (List.map (Expr.regroup .guard)) =
        rows.map (List.map (Expr.regroup .written)) :=
      List.map_congr_left fun row hrow => List.map_congr_left fun e he =>
        Expr.regroup_guard hnatural ((h.2 row hrow).2 e he)
    simp only [regroup, InsertSource.regroup, hrows]
  | query q => simp only [regroup, InsertSource.regroup, Select.regroup_guard hnatural h]
  | defaults => rfl

theorem Update.regroup_guard {statement : Update} (h : statement.WellFormed P) :
    statement.regroup .guard = statement.regroup .written := by
  have hassignments : statement.assignments.map (Assignment.regroup .guard) =
      statement.assignments.map (Assignment.regroup .written) :=
    List.map_congr_left fun a ha => by
      rw [Assignment.regroup, Assignment.regroup,
        Expr.regroup_guard hnatural (h.assignments a ha)]
  rw [regroup, regroup, hassignments, Expr.optionMap_regroup_guard hnatural h.filter]

theorem Delete.regroup_guard {statement : Delete} (h : statement.WellFormed P) :
    statement.regroup .guard = statement.regroup .written := by
  rw [regroup, regroup, Expr.optionMap_regroup_guard hnatural h]

theorem TableBody.regroup_guard {body : TableBody} (h : body.WellFormed P) :
    body.regroup .guard = body.regroup .written := by
  cases body with
  | columns own constraints withoutRowid =>
    have hown : own.map (ColumnDefinition.regroup .guard) =
        own.map (ColumnDefinition.regroup .written) :=
      List.map_congr_left fun c hc => ColumnDefinition.regroup_guard hnatural (h.2.1 c hc)
    have hconstraints : constraints.map (TableConstraint.regroup .guard) =
        constraints.map (TableConstraint.regroup .written) :=
      List.map_congr_left fun c hc => by
        rw [TableConstraint.regroup, TableConstraint.regroup,
          TableRule.regroup_guard hnatural (h.2.2 c hc)]
    rw [regroup, regroup, hown, hconstraints]
  | asSelect q => exact congrArg asSelect (Select.regroup_guard hnatural h)

/-- The statements that a step can be. -/
theorem Statement.regroup_guard_of_step {statement : Statement} (h : statement.StepWellFormed P) :
    statement.regroup .guard = statement.regroup .written := by
  cases statement with
  | select q => exact congrArg select (Select.regroup_guard hnatural h)
  | insert statement => exact congrArg insert (Insert.regroup_guard hnatural h)
  | update statement => exact congrArg update (Update.regroup_guard hnatural h)
  | delete statement => exact congrArg delete (Delete.regroup_guard hnatural h)
  | _ => exact h.elim

/-- A trigger has expressions in its condition and its steps. -/
theorem CreateTrigger.regroup_guard {statement : CreateTrigger} (h : statement.WellFormed P) :
    statement.regroup .guard = statement.regroup .written := by
  have hbody : statement.body.map (Statement.regroup .guard) =
      statement.body.map (Statement.regroup .written) :=
    List.map_congr_left fun s hs => Statement.regroup_guard_of_step hnatural (h.body s hs)
  have hcondition := Expr.optionMap_regroup_guard hnatural h.condition
  obtain ⟨temporary, set, name, timing, event, table, forEachRow, condition, body⟩ := statement
  simp only [regroup, regroupSteps_eq, hbody, hcondition]

theorem CreateIndex.regroup_guard {statement : CreateIndex} (h : statement.WellFormed P) :
    statement.regroup .guard = statement.regroup .written := by
  rw [regroup, regroup, Expr.optionMap_regroup_guard hnatural h.filter]

theorem Alter.regroup_guard {statement : Alter} (h : statement.action.WellFormed P) :
    statement.regroup .guard = statement.regroup .written := by
  obtain ⟨table, action⟩ := statement
  cases action with
  | renameTo name => rfl
  | addColumn column =>
    simp only [regroup, AlterAction.regroup, ColumnDefinition.regroup_guard hnatural h]

/-- One case for each kind of statement. -/
theorem Statement.regroup_guard {statement : Statement} (h : statement.WellFormed P) :
    statement.regroup .guard = statement.regroup .written := by
  cases statement with
  | select q => exact congrArg select (Select.regroup_guard hnatural h)
  | insert statement => exact congrArg insert (Insert.regroup_guard hnatural h)
  | update statement => exact congrArg update (Update.regroup_guard hnatural h)
  | delete statement => exact congrArg delete (Delete.regroup_guard hnatural h)
  | createTable statement =>
    simp only [regroup, CreateTable.regroup, TableBody.regroup_guard hnatural h]
  | createIndex statement => exact congrArg createIndex (CreateIndex.regroup_guard hnatural h)
  | createView statement =>
    simp only [regroup, CreateView.regroup, Select.regroup_guard hnatural h]
  | createTrigger statement =>
    exact congrArg createTrigger (CreateTrigger.regroup_guard hnatural h)
  | drop statement => rfl
  | alter statement => exact congrArg alter (Alter.regroup_guard hnatural h)

/-- A tree from a text is written with parentheses around leading tests only. -/
theorem Rule.regroup_guard {r : Rule} {tree : r.Tree} (h : r.WellFormed P tree) :
    r.regroup .guard tree = r.regroup .written tree := by
  cases r with
  | statement => exact Statement.regroup_guard hnatural h
  | select => exact Select.regroup_guard hnatural h
  | insert => exact Insert.regroup_guard hnatural h
  | update => exact Update.regroup_guard hnatural h
  | delete => exact Delete.regroup_guard hnatural h
  | createTable =>
    simp only [regroup, CreateTable.regroup, TableBody.regroup_guard (P := P) hnatural h]
  | createIndex => exact CreateIndex.regroup_guard hnatural h
  | createView =>
    simp only [regroup, CreateView.regroup, Select.regroup_guard (P := P) hnatural h]
  | createTrigger => exact CreateTrigger.regroup_guard hnatural h
  | alter => exact Alter.regroup_guard hnatural h
  | expr => exact Expr.regroup_guard hnatural h
  | functionCall => exact Phrase.call.inj (Phrase.regroup_guard hnatural h)
  | resultColumn => exact Phrase.column.inj (Phrase.regroup_guard hnatural h)
  | orderingTerm => exact Phrase.term.inj (Phrase.regroup_guard hnatural h)
  | assignment =>
    simp only [regroup, Assignment.regroup, Expr.regroup_guard (P := P) hnatural h]
  | columnDefinition => exact ColumnDefinition.regroup_guard hnatural h
  | columnConstraint =>
    simp only [regroup, ColumnConstraint.regroup, ColumnRule.regroup_guard (P := P) hnatural h]
  | tableConstraint =>
    simp only [regroup, TableConstraint.regroup, TableRule.regroup_guard (P := P) hnatural h]
  | _ => rfl

end Rules

end SqlGrammar
