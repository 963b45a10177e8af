import Mathlib.Data.Option.Basic
import SqlGrammar.Proofs.Writing.Canonical
import SqlGrammar.Proofs.Writing.Rendered
import SqlGrammar.Writing.Statement

/-!
# Texts are composed of the texts of trees

A writer keeps the text that it has written, and whether the next piece stands next to it. What is
written of a tree depends on that only by the gap before it: the pieces of a tree start with one
that does not stand next to what is before it, and end with one that does not draw what follows next
to itself. This holds of every tree of every rule (`Rule.standsAlone`), well-formed or not, so that
a tree is written between other pieces just as it is written alone (`Rule.text_after`).
-/

set_option autoImplicit false

namespace SqlGrammar

/-! ## Groups that stand alone -/

namespace Pieces

variable {ps qs : List Piece} {p : Piece}

/-- The first piece does not stand next to what is before it. -/
def Starts (ps : List Piece) : Prop := ∃ p ∈ ps.head?, p.attaches = false

/-- The last piece, if there is one, does not draw what follows next to itself. -/
def Ends (ps : List Piece) : Prop := ∀ p ∈ ps.getLast?, p.gluesNext = false

/-- The pieces stand apart from what is before them and from what is behind them. -/
structure StandsAlone (ps : List Piece) : Prop where
  starts : Starts ps
  ends : Ends ps

/-- Only the first of the pieces counts for `Starts`. -/
theorem Starts.cons (hp : p.attaches = false) (ps : List Piece) : Starts (p :: ps) := ⟨p, rfl, hp⟩

/-- Pieces with `Starts` keep it in front of any others. -/
theorem Starts.append (h : Starts ps) (qs : List Piece) : Starts (ps ++ qs) := by
  obtain ⟨p, hp, hfree⟩ := h
  cases ps with
  | nil => cases hp
  | cons q ps => exact ⟨p, hp, hfree⟩

namespace Ends

/-- `Ends` of pieces of which none has `gluesNext`. -/
theorem of_forall (h : ∀ p ∈ ps, p.gluesNext = false) : Ends ps :=
  fun p hp => h p (List.mem_of_getLast? hp)

theorem nil : Ends [] := nofun

/-- Pieces with `Ends` keep it behind any others, if there are some of them. -/
theorem behind (hqs : Ends qs) (hne : qs ≠ []) (ps : List Piece) : Ends (ps ++ qs) := by
  intro p hp
  rw [List.getLast?_append] at hp
  cases hlast : qs.getLast? with
  | none => exact absurd (List.getLast?_eq_none_iff.1 hlast) hne
  | some q => rw [hlast] at hp; exact hqs p (by rwa [hlast])

/-- `Ends` of two groups. The second may have no pieces, so the first needs it too. -/
theorem append (hps : Ends ps) (hqs : Ends qs) : Ends (ps ++ qs) := by
  cases qs with
  | nil => rwa [List.append_nil]
  | cons q qs => exact hqs.behind (List.cons_ne_nil q qs) ps

/-- No keyword has `gluesNext`. -/
theorem keywords (words : List Keyword) : Ends (Pieces.keywords words) :=
  of_forall fun p hp => by
    obtain ⟨word, -, rfl⟩ := List.mem_map.1 hp
    rfl

theorem flag (words : List Keyword) (set : Bool) : Ends (Pieces.flag words set) := by
  cases set with
  | false => exact nil
  | true => exact keywords words

/-- A `clause` ends as what its keywords introduce does. -/
theorem clause (words : List Keyword) {o : Option (List Piece)} (h : ∀ qs ∈ o, Ends qs) :
    Ends (Pieces.clause words o) := by
  cases o with
  | none => exact nil
  | some qs => exact (keywords words).append (h qs rfl)

/-- A `commaList` ends as its items do. -/
theorem commaList {items : List (List Piece)} (h : ∀ qs ∈ items, Ends qs) :
    Ends (Pieces.commaList items) := by
  fun_induction Pieces.commaList items with
  | case1 => exact nil
  | case2 only => exact h only (by simp)
  | case3 first second rest ih =>
    have hcomma : Ends [.comma] := of_forall (by simp [Piece.gluesNext])
    exact (h first (by simp)).append (hcomma.append (ih fun qs hqs => h qs (by simp_all)))

/-- A `listClause` ends as its items do. -/
theorem listClause (words : List Keyword) {items : List (List Piece)}
    (h : ∀ qs ∈ items, Ends qs) : Ends (Pieces.listClause words items) := by
  cases items with
  | nil => exact nil
  | cons qs items => exact (keywords words).append (commaList h)

variable {α : Type} {f : α → List Piece}

theorem flatMap {as : List α} (h : ∀ a ∈ as, Ends (f a)) : Ends (as.flatMap f) := by
  induction as with
  | nil => exact nil
  | cons a as ih =>
    rw [List.flatMap_cons]
    exact (h a (by simp)).append (ih fun b hb => h b (by simp [hb]))

theorem getD {o : Option α} (h : ∀ a ∈ o, Ends (f a)) : Ends ((o.map f).getD []) := by
  cases o with
  | none => exact nil
  | some a => exact h a rfl

/-- `Ends.commaList` for the pieces of the elements of a list. -/
theorem commaList_map (h : ∀ a, StandsAlone (f a)) (as : List α) :
    Ends (Pieces.commaList (as.map f)) :=
  commaList (List.forall_mem_map.2 fun a _ => (h a).ends)

/-- `Ends.listClause` for the pieces of the elements of a list. -/
theorem listClause_map (words : List Keyword) (h : ∀ a, StandsAlone (f a)) (as : List α) :
    Ends (Pieces.listClause words (as.map f)) :=
  listClause words (List.forall_mem_map.2 fun a _ => (h a).ends)

/-- `Ends.clause` for the pieces of what there may be. -/
theorem clause_map (words : List Keyword) (h : ∀ a, StandsAlone (f a)) (o : Option α) :
    Ends (Pieces.clause words (o.map f)) :=
  clause words (Option.forall_mem_map.2 fun a _ => (h a).ends)

end Ends

namespace StandsAlone

/-- Pieces that `StandsAlone` holds of have a first one. -/
theorem ne_nil (h : StandsAlone ps) : ps ≠ [] := by
  obtain ⟨p, hp, -⟩ := h.starts
  rintro rfl
  cases hp

theorem single (hp : p.attaches = false) (hp' : p.gluesNext = false) : StandsAlone [p] :=
  ⟨.cons hp [], by rintro q ⟨⟩; exact hp'⟩

/-- `StandsAlone` of pieces with more behind them, which need only end well. -/
theorem append (hps : StandsAlone ps) (hqs : Ends qs) : StandsAlone (ps ++ qs) :=
  ⟨hps.starts.append qs, hps.ends.append hqs⟩

/-- `StandsAlone` of pieces with more in front of them, which need only start well. -/
theorem behind (hqs : StandsAlone qs) (hps : Starts ps) : StandsAlone (ps ++ qs) :=
  ⟨hps.append qs, hqs.ends.behind hqs.ne_nil ps⟩

theorem name (own : String) : StandsAlone [.name own] := single rfl rfl

theorem keyword (word : Keyword) : StandsAlone [.keyword word] := single rfl rfl

theorem keywords (word : Keyword) (words : List Keyword) :
    StandsAlone (Pieces.keywords (word :: words)) :=
  ⟨.cons rfl _, .keywords _⟩

theorem keywordName (word : Keyword) (own : String) : StandsAlone [.keyword word, .name own] :=
  (keyword word).append (name own).ends

end StandsAlone

/-- `StandsAlone` of pieces with `Starts` that a parenthesis closes. -/
theorem Starts.close (h : Starts ps) : StandsAlone (ps ++ [.closeParen]) :=
  ⟨h.append _, Ends.behind (.of_forall (by simp [Piece.gluesNext])) (by simp) ps⟩

/-- In parentheses any pieces stand alone. -/
theorem StandsAlone.inParens (ps : List Piece) : StandsAlone (Pieces.inParens ps) :=
  have hopen : Starts (.openParen :: ps) := .cons rfl ps
  hopen.close

/-- An operand stands alone whether `parensUnless` puts parentheses around it or not. -/
theorem StandsAlone.parensUnless (h : StandsAlone ps) (fits : Bool) :
    StandsAlone (SqlGrammar.parensUnless fits ps) := by
  cases fits with
  | true => exact h
  | false => exact .inParens ps

end Pieces

open Pieces

/-! ## Leaves -/

theorem Literal.standsAlone (value : Literal) : StandsAlone value.pieces := by
  cases value <;> exact .single rfl rfl

theorem SignedNumber.standsAlone (number : SignedNumber) : StandsAlone number.pieces :=
  .single rfl rfl

theorem TypeName.standsAlone (type : TypeName) : StandsAlone type.pieces := by
  obtain ⟨name, length, scale⟩ := type
  have hhead : Starts [.name name, .callParen] := .cons rfl _
  cases length with
  | none => exact .name name
  | some length =>
    cases scale with
    | none => exact (hhead.append length.pieces).close
    | some scale =>
      have hlength := hhead.append length.pieces
      have hscale := (hlength.append [.comma]).append scale.pieces
      exact hscale.close

/-- The first two pieces of a name with an owner. -/
theorem starts_point (owner : String) : Starts [.name owner, .dot] := .cons rfl _

theorem QualifiedName.standsAlone (name : QualifiedName) : StandsAlone name.pieces := by
  obtain ⟨schema, own⟩ := name
  cases schema with
  | none => exact .name own
  | some schema => exact (StandsAlone.name own).behind (starts_point schema)

theorem ends_aliasPieces (aliasName : Option String) : Ends (aliasPieces aliasName) :=
  .clause_map _ StandsAlone.name aliasName

theorem ends_directionPieces (direction : Option SortDirection) :
    Ends (directionPieces direction) :=
  .getD fun d _ => (StandsAlone.keyword d.keyword).ends

theorem IndexHint.standsAlone (hint : IndexHint) : StandsAlone hint.pieces := by
  cases hint with
  | indexedBy index => exact (StandsAlone.keywords _ _).append (StandsAlone.name index).ends
  | notIndexed => exact .keywords _ _

theorem TableSource.standsAlone (source : TableSource) : StandsAlone source.pieces :=
  have hhint : Ends ((source.hint.map IndexHint.pieces).getD []) :=
    .getD fun hint _ => hint.standsAlone.ends
  (source.table.standsAlone.append (ends_aliasPieces _)).append hhint

theorem SelectSource.standsAlone (source : SelectSource) : StandsAlone source.pieces := by
  cases source with
  | table source => exact source.standsAlone
  | join clause => cases clause

/-! ## Expressions and queries -/

theorem FunctionCall.standsAlone (call : FunctionCall) : StandsAlone call.pieces := by
  obtain ⟨name, args⟩ := call
  have hcallee : Starts (calleePieces name) := by
    unfold calleePieces
    split <;> exact .cons rfl _
  have hargs := (hcallee.append [.callParen]).append args.pieces
  exact hargs.close

/-- A prefix operator starts its expression: `attaches` holds of none. -/
theorem UnaryOp.starts (op : UnaryOp) (operand : Expr) : Starts (op.pieces operand) := by
  cases op with
  | neg =>
    rw [UnaryOp.pieces]
    split <;> exact .cons rfl _
  | _ => exact .cons rfl _

/-- An expression stands alone if its operands do: it starts with the first of them or with a piece
of its own, and ends with the last of them or with a piece of its own. -/
theorem Expr.standsAlone_of_operands {e : Expr}
    (ih : ∀ x, Phrase.expr x ∈ (Phrase.expr e).parts → StandsAlone x.pieces) :
    StandsAlone e.pieces := by
  have hleft : ∀ (x : Expr) (power : Nat), Phrase.expr x ∈ (Phrase.expr e).parts →
      Starts (x.leftPieces power) := fun x _ hx => ((ih x hx).parensUnless _).starts
  have hright : ∀ (x : Expr) (least : Nat), Phrase.expr x ∈ (Phrase.expr e).parts →
      StandsAlone (x.rightPieces least) := fun x _ hx => (ih x hx).parensUnless _
  -- only the outermost operands count: what stands between them may be anything
  cases e with
  | literal value => exact value.standsAlone
  | parameter text => exact .single rfl rfl
  | column schema table own =>
    have hown := StandsAlone.name own
    cases schema with
    | none =>
      cases table with
      | none => exact hown
      | some table => exact hown.behind (starts_point table)
    | some schema => exact hown.behind ((starts_point schema).append _)
  | unary op operand =>
    have hoperand := hright operand op.power (by simp [Phrase.parts])
    exact hoperand.behind (op.starts operand)
  | binary left op right =>
    have hop := (hleft left op.power (by simp [Phrase.parts])).append op.pieces
    exact (hright right (op.power + 1) (by simp [Phrase.parts])).behind hop
  | like subject op pattern escape negated =>
    have hsubject := hleft subject equalityPower (by simp [Phrase.parts])
    have hverb := (hsubject.append (flag [.NOT] negated)).append [.keyword op.keyword]
    have hpattern := (hright pattern (equalityPower + 1) (by simp [Phrase.parts])).behind hverb
    have hescape : Ends (clause [.ESCAPE] (escape.map (·.rightPieces (equalityPower + 1)))) :=
      .clause _ (Option.forall_mem_map.2 fun x hx => (hright x _ (by simp_all [Phrase.parts])).ends)
    rw [pieces_like]
    exact hpattern.append hescape
  | isNull subject negated =>
    have hsubject := hleft subject equalityPower (by simp [Phrase.parts])
    have hverb := (hsubject.append [.keyword .IS]).append (flag [.NOT] negated)
    exact (StandsAlone.keyword .NULL).behind hverb
  | between subject low high negated =>
    have hsubject := hleft subject equalityPower (by simp [Phrase.parts])
    have hverb := (hsubject.append (flag [.NOT] negated)).append [.keyword .BETWEEN]
    have hlow := (hverb.append (low.rightPieces (equalityPower + 1))).append [.keyword .AND]
    exact (hright high (equalityPower + 1) (by simp [Phrase.parts])).behind hlow
  | within subject set negated =>
    have hsubject := hleft subject equalityPower (by simp [Phrase.parts])
    have hverb := (hsubject.append (flag [.NOT] negated)).append [.keyword .IN]
    exact (StandsAlone.inParens set.pieces).behind hverb
  | call call => exact call.standsAlone
  | cast subject type =>
    have hcast : Starts [.keyword .CAST, .callParen] := .cons rfl _
    have hsubject := (hcast.append subject.pieces).append [.keyword .AS]
    exact (hsubject.append type.pieces).close
  | caseWhen operand branches otherwise =>
    have hcase := (StandsAlone.keyword .CASE).starts.append ((exprPieces? operand).getD [])
    have hbranches := hcase.append (branchesPieces branches)
    have helse := hbranches.append (clause [.ELSE] (exprPieces? otherwise))
    exact (StandsAlone.keyword .END).behind helse
  | collate subject collation =>
    have hsubject := hleft subject collatePower (by simp [Phrase.parts])
    exact (StandsAlone.keywordName .COLLATE collation).behind hsubject
  | existsRow query => exact (StandsAlone.inParens _).behind (StandsAlone.keyword .EXISTS).starts
  | subquery query => exact .inParens _
  | paren inner => exact .inParens _

/-- Every expression stands alone, by induction over its parts. -/
theorem Expr.standsAlone (e : Expr) : StandsAlone e.pieces := by
  refine Phrase.induction (P := fun p => ∀ e, p = .expr e → StandsAlone e.pieces) ?_ (.expr e) e rfl
  rintro p ih e rfl
  exact standsAlone_of_operands fun x hx => ih _ hx x rfl

theorem ends_exprClause (words : List Keyword) (e : Option Expr) :
    Ends (clause words (e.map Expr.pieces)) := .clause_map words Expr.standsAlone e

theorem ResultColumn.standsAlone (column : ResultColumn) : StandsAlone column.pieces := by
  cases column with
  | all => exact .single rfl rfl
  | allOf table =>
    have hstar : StandsAlone [Piece.ofTerminal Operator.star] := .single rfl rfl
    exact hstar.behind (starts_point table)
  | expr value aliasName => exact value.standsAlone.append (ends_aliasPieces aliasName)

theorem OrderingTerm.standsAlone (term : OrderingTerm) : StandsAlone term.pieces := by
  obtain ⟨key, direction⟩ := term
  exact key.standsAlone.append (ends_directionPieces direction)

theorem LimitClause.standsAlone (bound : LimitClause) : StandsAlone bound.pieces := by
  obtain ⟨limit, offset⟩ := bound
  rw [pieces, exprPieces?_eq]
  exact limit.standsAlone.append (ends_exprClause _ offset)

/-- A query stands alone: it starts with `SELECT`, and each of its clauses ends as its items do. -/
theorem Select.standsAlone (query : Select) : StandsAlone query.pieces := by
  obtain ⟨distinct, columns, sources, filter, groupBy, having, orderBy, bound⟩ := query
  have hcolumns : Ends (commaList (columns.map ResultColumn.pieces)) :=
    .commaList_map ResultColumn.standsAlone columns
  have hsources : Ends (listClause [.FROM] (sources.map SelectSource.pieces)) :=
    .listClause_map _ SelectSource.standsAlone sources
  have hgroups : Ends (listClause [.GROUP, .BY] (groupBy.map Expr.pieces)) :=
    .listClause_map _ Expr.standsAlone groupBy
  have hhaving : Ends (if groupBy.isEmpty then [] else
      clause [.HAVING] (having.map Expr.pieces)) := by
    split
    · exact .nil
    · exact ends_exprClause _ having
  have horder : Ends (listClause [.ORDER, .BY] (orderBy.map OrderingTerm.pieces)) :=
    .listClause_map _ OrderingTerm.standsAlone orderBy
  have hbound : Ends (clause [.LIMIT] (bound.map LimitClause.pieces)) :=
    .clause_map _ LimitClause.standsAlone bound
  have hhead := ((StandsAlone.keyword .SELECT).append (.flag [.DISTINCT] distinct)).append hcolumns
  have hrows := (hhead.append hsources).append (ends_exprClause [.WHERE] filter)
  have hgrouped := (hrows.append hgroups).append hhaving
  simp only [pieces, columnsPieces_eq, exprPieces?_eq, exprsPieces_eq, termsPieces_eq,
    limitPieces?_eq]
  exact (hgrouped.append horder).append hbound

/-! ## Definitions -/

theorem ConflictResolution.standsAlone (resolution : ConflictResolution) :
    StandsAlone resolution.clausePieces := .keywords _ _

theorem ends_conflictPieces (resolution : Option ConflictResolution) :
    Ends (conflictPieces resolution) := .getD fun r _ => r.standsAlone.ends

theorem ends_namesInParens (columns : List String) : Ends (namesInParens columns) := by
  unfold namesInParens
  split
  · exact .nil
  · exact (StandsAlone.inParens _).ends

theorem ReferenceRule.standsAlone (rule : ReferenceRule) : StandsAlone rule.pieces := by
  cases rule with
  | onDelete action => exact .keywords _ _
  | onUpdate action => exact .keywords _ _
  | matching name => exact .keywordName _ name

theorem ends_deferral (deferral : Deferral) : Ends deferral.pieces :=
  ((Ends.flag _ _).append (StandsAlone.keyword _).ends).append (.keywords _)

theorem ForeignKey.standsAlone (key : ForeignKey) : StandsAlone key.pieces :=
  have htarget := (StandsAlone.keywordName .REFERENCES key.table).append
    (ends_namesInParens key.columns)
  have hrules : Ends (key.rules.flatMap ReferenceRule.pieces) :=
    .flatMap fun rule _ => rule.standsAlone.ends
  have hdeferral : Ends ((key.deferral.map Deferral.pieces).getD []) :=
    .getD fun deferral _ => ends_deferral deferral
  (htarget.append hrules).append hdeferral

theorem IndexedColumn.standsAlone (column : IndexedColumn) : StandsAlone column.pieces :=
  have hcollation := (StandsAlone.name column.name).append
    (.clause_map [.COLLATE] StandsAlone.name column.collation)
  hcollation.append (ends_directionPieces column.direction)

theorem DefaultValue.standsAlone (value : DefaultValue) : StandsAlone value.pieces := by
  cases value with
  | signed number => exact number.standsAlone
  | literal value => exact value.standsAlone
  | expr value => exact .inParens _

theorem ColumnRule.standsAlone (rule : ColumnRule) : StandsAlone rule.pieces := by
  cases rule with
  | primaryKey direction onConflict autoincrement =>
    have hkey := (StandsAlone.keywords .PRIMARY [.KEY]).append (ends_directionPieces direction)
    have hconflict := hkey.append (ends_conflictPieces onConflict)
    exact hconflict.append (.flag [.AUTOINCREMENT] autoincrement)
  | notNull onConflict => exact (StandsAlone.keywords _ _).append (ends_conflictPieces _)
  | unique onConflict => exact (StandsAlone.keyword _).append (ends_conflictPieces _)
  | check condition => exact (StandsAlone.keyword _).append (StandsAlone.inParens _).ends
  | default value => exact (StandsAlone.keyword _).append value.standsAlone.ends
  | collate collation => exact .keywordName _ collation
  | foreignKey key => exact key.standsAlone

theorem TableRule.standsAlone (rule : TableRule) : StandsAlone rule.pieces := by
  cases rule with
  | key kind columns onConflict =>
    have hkind : Starts (Pieces.keywords kind.keywords) := by cases kind <;> exact .cons rfl _
    exact ((StandsAlone.inParens _).behind hkind).append (ends_conflictPieces onConflict)
  | check condition => exact (StandsAlone.keyword _).append (StandsAlone.inParens _).ends
  | foreignKey columns key =>
    exact key.standsAlone.behind ((StandsAlone.keywords _ _).starts.append _)

/-- A constraint stands alone with `CONSTRAINT` and its name or without. -/
theorem standsAlone_constraint (name : Option String) {ps : List Piece} (h : StandsAlone ps) :
    StandsAlone (constraintNamePieces name ++ ps) := by
  cases name with
  | none => exact h
  | some name => exact h.behind (StandsAlone.keywordName .CONSTRAINT name).starts

theorem ColumnConstraint.standsAlone (constraint : ColumnConstraint) :
    StandsAlone constraint.pieces := standsAlone_constraint _ constraint.rule.standsAlone

theorem TableConstraint.standsAlone (constraint : TableConstraint) :
    StandsAlone constraint.pieces := standsAlone_constraint _ constraint.rule.standsAlone

theorem ColumnDefinition.standsAlone (column : ColumnDefinition) : StandsAlone column.pieces :=
  have htype : Ends ((column.type.map TypeName.pieces).getD []) :=
    .getD fun type _ => type.standsAlone.ends
  have hconstraints : Ends (column.constraints.flatMap ColumnConstraint.pieces) :=
    .flatMap fun constraint _ => constraint.standsAlone.ends
  ((StandsAlone.name column.name).append htype).append hconstraints

/-! ## Statements -/

theorem InsertSource.standsAlone (source : InsertSource) : StandsAlone source.pieces := by
  cases source with
  | values rows =>
    have hrows : Ends (commaList (rows.map fun row => inParens (commaList (exprsPieces row)))) :=
      .commaList_map (fun _ => .inParens _) rows
    exact (StandsAlone.keyword .VALUES).append hrows
  | query query => exact query.standsAlone
  | defaults => exact .keywords _ _

theorem Insert.standsAlone (statement : Insert) : StandsAlone statement.pieces := by
  have hverb : Starts (Pieces.keywords statement.verb.keywords) := by
    cases statement.verb <;> exact .cons rfl _
  have htable := (hverb.append [.keyword .INTO]).append statement.table.pieces
  exact statement.source.standsAlone.behind (htable.append (namesInParens statement.columns))

theorem Assignment.standsAlone (assignment : Assignment) : StandsAlone assignment.pieces :=
  have hhead : Starts [.name assignment.column, .ofTerminal Operator.eq] := .cons rfl _
  assignment.value.standsAlone.behind hhead

theorem Update.standsAlone (statement : Update) : StandsAlone statement.pieces :=
  have hconflict := (StandsAlone.keyword .UPDATE).append
    (.clause_map [.OR] (fun r : ConflictResolution => .keyword r.keyword) statement.orConflict)
  have htable := hconflict.append statement.table.standsAlone.ends
  have hassignments : Ends (commaList (statement.assignments.map Assignment.pieces)) :=
    .commaList_map Assignment.standsAlone _
  have hset := (htable.append (StandsAlone.keyword .SET).ends).append hassignments
  hset.append (ends_exprClause [.WHERE] statement.filter)

theorem Delete.standsAlone (statement : Delete) : StandsAlone statement.pieces :=
  have htable := (StandsAlone.keywords .DELETE [.FROM]).append statement.table.standsAlone.ends
  htable.append (ends_exprClause [.WHERE] statement.filter)

/-- `CREATE` is the first piece of `createPieces`. -/
theorem starts_createPieces (temporary : Bool) (object : Keyword) (ifNotExists : Bool) :
    Starts (createPieces temporary object ifNotExists) :=
  have htemporary := (StandsAlone.keyword .CREATE).starts.append (flag [.TEMP] temporary)
  have hobject := htemporary.append [.keyword object]
  hobject.append (flag [.IF, .NOT, .EXISTS] ifNotExists)

theorem TableBody.standsAlone (body : TableBody) : StandsAlone body.pieces := by
  cases body with
  | columns own constraints withoutRowid =>
    have hopen : Starts [.openParen] := .cons rfl _
    have hrowid : Ends (if withoutRowid then [.keyword .WITHOUT, .raw "ROWID"] else []) := by
      split
      · exact .of_forall (by simp [Piece.gluesNext])
      · exact .nil
    have hcolumns := hopen.append (commaList (own.map ColumnDefinition.pieces))
    have hconstraints := hcolumns.append (constraints.flatMap fun c => .comma :: c.pieces)
    exact hconstraints.close.append hrowid
  | asSelect query => exact query.standsAlone.behind (StandsAlone.keyword .AS).starts

theorem CreateTable.standsAlone (statement : CreateTable) : StandsAlone statement.pieces :=
  have hcreate := starts_createPieces statement.temporary .TABLE statement.ifNotExists
  statement.body.standsAlone.behind (hcreate.append statement.name.pieces)

theorem CreateIndex.standsAlone (statement : CreateIndex) : StandsAlone statement.pieces :=
  have hunique := (StandsAlone.keyword .CREATE).starts.append (flag [.UNIQUE] statement.unique)
  have hindex := (hunique.append [.keyword .INDEX]).append
    (flag [.IF, .NOT, .EXISTS] statement.ifNotExists)
  have htable := (hindex.append statement.name.pieces).append
    [.keyword .ON, .name statement.table]
  have hcolumns : StandsAlone (inParens (commaList (statement.columns.map IndexedColumn.pieces))) :=
    .inParens _
  (hcolumns.behind htable).append (ends_exprClause [.WHERE] statement.filter)

theorem CreateView.standsAlone (statement : CreateView) : StandsAlone statement.pieces :=
  have hcreate := starts_createPieces statement.temporary .VIEW statement.ifNotExists
  have hname := (hcreate.append statement.name.pieces).append (namesInParens statement.columns)
  statement.query.standsAlone.behind (hname.append [.keyword .AS])

/-- A trigger stands alone: it starts with `CREATE` and ends with `END`. -/
theorem CreateTrigger.standsAlone (statement : CreateTrigger) : StandsAlone statement.pieces := by
  obtain ⟨temporary, ifNotExists, name, timing, event, table, forEachRow, condition, body⟩ :=
    statement
  have hcreate := starts_createPieces temporary .TRIGGER ifNotExists
  have hname := hcreate.append name.pieces
  have htiming := hname.append (Pieces.keywords ((timing.map TriggerTiming.keywords).getD []))
  have hevent := htiming.append event.pieces
  have htable := hevent.append [.keyword .ON, .name table]
  have hrows := htable.append (flag [.FOR, .EACH, .ROW] forEachRow)
  have hwhen := hrows.append (clause [.WHEN] (condition.map Expr.pieces))
  have hsteps := (hwhen.append [.keyword .BEGIN]).append (stepsPieces body)
  exact (StandsAlone.keyword .END).behind hsteps

theorem Drop.standsAlone (statement : Drop) : StandsAlone statement.pieces :=
  have hdrop := (StandsAlone.keywords .DROP [statement.kind.keyword]).starts
  statement.name.standsAlone.behind (hdrop.append (flag [.IF, .EXISTS] statement.ifExists))

theorem AlterAction.standsAlone (action : AlterAction) : StandsAlone action.pieces := by
  cases action with
  | renameTo name => exact (StandsAlone.name name).behind (StandsAlone.keywords _ _).starts
  | addColumn column => exact column.standsAlone.behind (StandsAlone.keywords _ _).starts

theorem Alter.standsAlone (statement : Alter) : StandsAlone statement.pieces :=
  have halter := (StandsAlone.keywords .ALTER [.TABLE]).starts
  statement.action.standsAlone.behind (halter.append statement.table.pieces)

theorem Statement.standsAlone (statement : Statement) : StandsAlone statement.pieces := by
  cases statement with
  | select statement => exact statement.standsAlone
  | insert statement => exact statement.standsAlone
  | update statement => exact statement.standsAlone
  | delete statement => exact statement.standsAlone
  | createTable statement => exact statement.standsAlone
  | createIndex statement => exact statement.standsAlone
  | createView statement => exact statement.standsAlone
  | createTrigger statement => exact statement.standsAlone
  | drop statement => exact statement.standsAlone
  | alter statement => exact statement.standsAlone

/-- The pieces of any tree of any rule stand alone. -/
theorem Rule.standsAlone (r : Rule) (tree : r.Tree) : StandsAlone (r.pieces tree) := by
  cases r with
  | statement => exact Statement.standsAlone tree
  | select => exact Select.standsAlone tree
  | insert => exact Insert.standsAlone tree
  | update => exact Update.standsAlone tree
  | delete => exact Delete.standsAlone tree
  | createTable => exact CreateTable.standsAlone tree
  | createIndex => exact CreateIndex.standsAlone tree
  | createView => exact CreateView.standsAlone tree
  | createTrigger => exact CreateTrigger.standsAlone tree
  | drop => exact Drop.standsAlone tree
  | alter => exact Alter.standsAlone tree
  | expr => exact Expr.standsAlone tree
  | literal => exact Literal.standsAlone tree
  | functionCall => exact FunctionCall.standsAlone tree
  | resultColumn => exact ResultColumn.standsAlone tree
  | selectSource => exact SelectSource.standsAlone tree
  | tableSource => exact TableSource.standsAlone tree
  | joinClause => cases tree
  | orderingTerm => exact OrderingTerm.standsAlone tree
  | assignment => exact Assignment.standsAlone tree
  | columnDefinition => exact ColumnDefinition.standsAlone tree
  | columnConstraint => exact ColumnConstraint.standsAlone tree
  | tableConstraint => exact TableConstraint.standsAlone tree
  | typeName => exact TypeName.standsAlone tree
  | signedNumber => exact SignedNumber.standsAlone tree
  | conflictClause => exact ConflictResolution.standsAlone tree
  | foreignKey => exact ForeignKey.standsAlone tree
  | indexedColumn => exact IndexedColumn.standsAlone tree

/-! ## Writers -/

/-- The pieces with `gluesNext`: a parenthesis that opens, a point and a prefix. -/
theorem Piece.gluesNext_iff (p : Piece) : p.gluesNext = true ↔
    p = .openParen ∨ p = .callParen ∨ p = .dot ∨ ∃ text, p = .sign text := by
  cases p <;> simp [gluesNext]

namespace Writer

variable {w : Writer} {ps : List Piece}

/-- The writer that has written the pieces and nothing else. As a writer only ever writes pieces,
all its states are of this form. -/
def after (d : Dialect) (written : List Piece) : Writer := (start d).pushAll written

/-- `pushAll` writes the first pieces, then the others. -/
theorem pushAll_append (w : Writer) (ps qs : List Piece) :
    w.pushAll (ps ++ qs) = (w.pushAll ps).pushAll qs := List.foldl_append

/-- `pushAll` keeps the dialect. -/
theorem dialect_pushAll (ps : List Piece) : ∀ w : Writer, (w.pushAll ps).dialect = w.dialect := by
  induction ps with
  | nil => exact fun w => rfl
  | cons p ps ih => exact fun w => ih (w.push p)

/-- `gluesNext` of the last piece is what the writer keeps as `glued`. -/
theorem glued_pushAll (ps : List Piece) : ∀ w : Writer,
    (w.pushAll ps).glued = (ps.getLast?.map Piece.gluesNext).getD w.glued := by
  induction ps with
  | nil => exact fun w => rfl
  | cons p ps ih =>
    intro w
    have hglued : ((w.push p).pushAll ps).glued = _ := ih (w.push p)
    rw [pushAll, List.foldl_cons, ← pushAll, hglued, List.getLast?_cons]
    cases ps.getLast? <;> rfl

/-- A writer is not `glued` behind pieces that stand alone. -/
theorem glued_pushAll_of_standsAlone (h : StandsAlone ps) : (w.pushAll ps).glued = false := by
  rw [glued_pushAll]
  cases hlast : ps.getLast? with
  | none => exact absurd (List.getLast?_eq_none_iff.1 hlast) h.ne_nil
  | some p => exact h.ends p hlast

/-- Pieces with `Starts` are written by any writer as `Writer.after` writes them, behind a gap that
`glued` decides on. -/
theorem text_pushAll_of_starts (h : Starts ps) : (w.pushAll ps).text =
    w.text ++ (if w.glued then "" else " ") ++ (after w.dialect ps).text := by
  obtain ⟨p, hp, hfree⟩ := h
  cases ps with
  | nil => cases hp
  | cons q ps =>
    cases hp
    refine String.toList_injective ?_
    simp only [String.toList_append, after, toList_pushAll, characters, hfree, Bool.or_false]
    cases w.glued <;> simp [start]

end Writer

/-- A writer that has written any pieces (`Writer.after`) writes a tree of a rule as a writer
without text does, and puts one space before it unless it is `glued`: it has written nothing, or its
last piece was a parenthesis that opens, a point or a prefix. The piece behind the tree has one
space before it unless it `attaches`. The tree may be any tree of the rule. -/
theorem Rule.text_after (d : Dialect) (written : List Piece) (r : Rule) (tree : r.Tree) :
    ((Writer.after d written).glued = true ↔ written = [] ∨ ∃ p, written.getLast? = some p ∧
        (p = .openParen ∨ p = .callParen ∨ p = .dot ∨ ∃ text, p = .sign text)) ∧
      (Writer.after d (written ++ r.pieces tree)).text =
        (Writer.after d written).text ++ (if (Writer.after d written).glued then "" else " ") ++
          (Writer.after d (r.pieces tree)).text ∧
      ∀ p, (Writer.after d (written ++ r.pieces tree ++ [p])).text =
        (Writer.after d (written ++ r.pieces tree)).text ++ (if p.attaches then "" else " ") ++
          p.text d := by
  have halone := r.standsAlone tree
  refine ⟨?_, ?_, fun p => ?_⟩
  · rw [Writer.after, Writer.glued_pushAll]
    cases hlast : written.getLast? with
    | none => simp [Writer.start, List.getLast?_eq_none_iff.1 hlast]
    | some p =>
      have hne : written ≠ [] := by
        rintro rfl
        cases hlast
      simp [hne, p.gluesNext_iff]
  · rw [Writer.after, Writer.pushAll_append, Writer.text_pushAll_of_starts halone.starts,
      Writer.dialect_pushAll]
    rfl
  · have hloose : (Writer.after d (written ++ r.pieces tree)).glued = false := by
      rw [Writer.after, Writer.pushAll_append]
      exact Writer.glued_pushAll_of_standsAlone halone
    have hdialect : (Writer.after d (written ++ r.pieces tree)).dialect = d :=
      Writer.dialect_pushAll _ _
    rw [Writer.after, Writer.pushAll_append, ← Writer.after]
    simp only [Writer.pushAll, List.foldl_cons, List.foldl_nil, Writer.push, hloose, hdialect,
      Bool.false_or]

end SqlGrammar
