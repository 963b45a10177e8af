import SqlGrammar.Proofs.Reading.Nested

/-!
# Reading definitions of tables

Conflict clauses, references, columns and constraints are read back in front of what ends them.
A `NOT` behind a reference belongs to the reference before `DEFERRABLE` only, and is otherwise that
of the next constraint.
-/

set_option autoImplicit false

namespace SqlGrammar

open SqlGrammar.Parser Grammar

namespace Grammar

variable {P : Phrase → Prop} {rest : List Symbol}

/-! ## Conflicts -/

/-- Each resolution is found by `ConflictResolution.ofKeyword?` from its own keyword. -/
theorem reads_conflictResolution (resolution : ConflictResolution) (rest : List Symbol) :
    Reads conflictResolution (.keyword resolution.keyword :: rest) resolution rest := by
  refine reads_bind (reads_kind _) ?_
  cases resolution <;> exact reads_bind (reads_advance (by simp)) (reads_pure _ _)

theorem reads_conflictClause (resolution : ConflictResolution) (rest : List Symbol) :
    Reads conflictClause (Pieces.symbols resolution.clausePieces ++ rest) resolution rest :=
  reads_bind (reads_expectAll [Terminal.keyword .ON, .keyword .CONFLICT] _)
    (reads_conflictResolution resolution rest)

/-- A clause that is left out needs something else than `ON` behind it. -/
theorem reads_conflictClause? (resolution : Option ConflictResolution)
    (h : kindAhead rest 0 ≠ .keyword .ON) :
    Reads conflictClause? (Pieces.symbols (conflictPieces resolution) ++ rest) resolution rest := by
  refine reads_bind (reads_areAhead _ _ 0) ?_
  cases resolution with
  | none =>
    have hnone : terminalsAhead rest 0 [Keyword.ON, Keyword.CONFLICT] = false :=
      terminalsAhead_of_ne h
    exact hnone ▸ reads_pure _ _
  | some resolution => exact reads_map (reads_goal (reads_conflictClause resolution rest))

/-! ## References -/

/-- One case for each action, by its keywords. -/
theorem reads_referenceAction (action : ReferenceAction) (rest : List Symbol) :
    Reads referenceAction (action.keywords.map Symbol.keyword ++ rest) action rest := by
  -- the choices before the one that was written are passed over
  have hne : ∀ {word other : Keyword} {ss : List Symbol}, word ≠ other →
      Reads (accept other) (.keyword word :: ss) false (.keyword word :: ss) :=
    fun h => reads_accept_false (by simpa [Terminal.kind] using h)
  cases action with
  | setNull =>
    exact reads_bind (reads_accept_true rfl) (reads_bind (reads_accept_true rfl) (reads_pure _ _))
  | setDefault =>
    exact reads_bind (reads_accept_true rfl) (reads_bind (hne (by simp)) (reads_bind
      (reads_expect rfl) (reads_pure _ _)))
  | cascade =>
    exact reads_bind (hne (by simp)) (reads_bind (reads_accept_true rfl) (reads_pure _ _))
  | restrict =>
    exact reads_bind (hne (by simp)) (reads_bind (hne (by simp)) (reads_bind
      (reads_accept_true rfl) (reads_pure _ _)))
  | noAction =>
    exact reads_bind (hne (by simp)) (reads_bind (hne (by simp)) (reads_bind (hne (by simp))
      (reads_bind (reads_acceptAll_true [Terminal.keyword .NO, .keyword .ACTION] rest)
        (reads_pure _ _))))

theorem reads_referenceRule?_some (rule : ReferenceRule) (rest : List Symbol) :
    Reads referenceRule? (Pieces.symbols rule.pieces ++ rest) (some rule) rest := by
  cases rule with
  | onDelete action =>
    rw [ReferenceRule.pieces, Pieces.symbols_keywords, List.map_append, List.append_assoc]
    exact reads_bind (reads_acceptAll_true [Terminal.keyword .ON, .keyword .DELETE] _)
      (reads_bind (reads_referenceAction action rest) (reads_pure _ _))
  | onUpdate action =>
    rw [ReferenceRule.pieces, Pieces.symbols_keywords, List.map_append, List.append_assoc]
    exact reads_bind (reads_acceptAll_false (terminalsAhead_of_ne_next (by simp [Terminal.kind])))
      (reads_bind (reads_acceptAll_true [Terminal.keyword .ON, .keyword .UPDATE] _)
        (reads_bind (reads_referenceAction action rest) (reads_pure _ _)))
  | matching name =>
    have hne : ∀ ts, terminalsAhead (.keyword .MATCH :: .name name :: rest) 0
        (.keyword .ON :: ts) = false := fun ts => terminalsAhead_of_ne (by simp [Terminal.kind])
    exact reads_bind (reads_acceptAll_false (hne _)) (reads_bind (reads_acceptAll_false (hne _))
      (reads_bind (reads_accept_true rfl) (reads_bind (reads_identifier name rest)
        (reads_pure _ _))))

/-- A rule starts with `ON` or `MATCH`; where neither is ahead, `referenceRule?` finds none. -/
theorem reads_referenceRule?_none (hon : kindAhead rest 0 ≠ .keyword .ON)
    (hmatch : kindAhead rest 0 ≠ .keyword .MATCH) : Reads referenceRule? rest none rest :=
  reads_bind (reads_acceptAll_false (terminalsAhead_of_ne hon)) (reads_bind
    (reads_acceptAll_false (terminalsAhead_of_ne hon)) (reads_bind (reads_accept_false hmatch)
      (reads_pure _ _)))

theorem reads_initialCheck (check : InitialCheck) (rest : List Symbol) :
    Reads (behind? Keyword.INITIALLY initialCheck) (check.keywords.map Symbol.keyword ++ rest)
      (some check) rest := by
  cases check with
  | deferred =>
    exact reads_behind_some rfl (reads_bind (reads_accept_true rfl) (reads_pure _ _))
  | immediate =>
    exact reads_behind_some rfl (reads_bind (reads_accept_false (by simp [Terminal.kind]))
      (reads_bind (reads_expect rfl) (reads_pure _ _)))

/-- The word `INITIALLY` must not be what follows. -/
theorem reads_deferral (deferral : Deferral) (h : kindAhead rest 0 ≠ .keyword .INITIALLY) :
    Reads Grammar.deferral (Pieces.symbols deferral.pieces ++ rest) deferral rest := by
  obtain ⟨negated, initially⟩ := deferral
  have hinitially : Reads (behind? Keyword.INITIALLY initialCheck)
      (((initially.map InitialCheck.keywords).getD []).map Symbol.keyword ++ rest) initially
        rest := by
    cases initially with
    | none => exact reads_behind_none h
    | some check => exact reads_initialCheck check rest
  simp only [Deferral.pieces, Pieces.symbols_append, Pieces.symbols_keywords, List.append_assoc]
  exact reads_bind (reads_accept_flag _ _ fun _ => by simp) (reads_bind (reads_expect rfl)
    (reads_bind hinitially (reads_pure _ _)))

/-- No start of a deferral may follow, for the case that it is left out. -/
theorem reads_deferral? (deferral : Option Deferral)
    (hdeferrable : kindAhead rest 0 ≠ .keyword .DEFERRABLE)
    (hnot : terminalsAhead rest 0 [Keyword.NOT, Keyword.DEFERRABLE] = false)
    (hinitially : kindAhead rest 0 ≠ .keyword .INITIALLY) :
    Reads Grammar.deferral? (Pieces.symbols ((deferral.map Deferral.pieces).getD []) ++ rest)
      deferral rest := by
  cases deferral with
  | none =>
    refine reads_bind (reads_isAt_false hdeferrable) (reads_bind (reads_areAhead rest _ 0) ?_)
    rw [hnot]
    exact reads_pure _ _
  | some deferral =>
    have hread := reads_map (f := some) (reads_deferral deferral hinitially)
    obtain ⟨negated, initially⟩ := deferral
    cases negated with
    | false => exact reads_bind (reads_isAt_true rfl) (reads_bind (reads_areAhead _ _ 0) hread)
    | true =>
      exact reads_bind (reads_isAt_false (by simp [Deferral.pieces, Terminal.kind]))
        (reads_bind (reads_areAhead _ _ 0) hread)

/-- Names that are left out need something else than a parenthesis behind them. -/
theorem reads_identifierList? (columns : List String)
    (h : kindAhead rest 0 ≠ .operator .leftParen) :
    Reads identifierList? (Pieces.symbols (namesInParens columns) ++ rest) columns rest := by
  cases columns with
  | nil => exact reads_bind (reads_isAt_false h) (reads_pure _ _)
  | cons name names =>
    exact reads_bind (reads_isAt_true rfl) (reads_names (by simp) rest)

/-! ## What ends a constraint -/

/-- The kinds of symbols that end a definition. -/
def definitionEnds : List TokenKind :=
  [.eof, .operator .comma, .operator .rightParen, .operator .semicolon]

/-- What holds of all kinds of `definitionEnds` holds of each. -/
theorem holds_of_definitionEnds {kind : TokenKind} (h : kind ∈ definitionEnds)
    {p : TokenKind → Bool} (hp : definitionEnds.all p = true) : p kind = true :=
  List.all_eq_true.1 hp _ h

/-- Whether a symbol of this kind starts a further constraint, or ends a definition. -/
def endsConstraint (kind : TokenKind) : Bool :=
  startsColumnConstraint kind || definitionEnds.contains kind

/-- What may stand behind a constraint. A `NOT` there must not belong to a reference. -/
structure EndsConstraint (ss : List Symbol) : Prop where
  kind : endsConstraint (kindAhead ss 0) = true
  deferral : terminalsAhead ss 0 [Keyword.NOT, Keyword.DEFERRABLE] = false

/-- A kind that `endsConstraint` refuses is not ahead. -/
theorem EndsConstraint.ne (h : EndsConstraint rest) {other : TokenKind}
    (hother : endsConstraint other = false) : kindAhead rest 0 ≠ other :=
  TokenKind.ne_of_holds h.kind hother

/-- The rules end, and a deferral is left out, where `EndsConstraint` holds. -/
theorem reads_foreignKey (key : ForeignKey) (h : EndsConstraint rest) :
    Reads foreignKey (Pieces.symbols key.pieces ++ rest) key rest := by
  obtain ⟨table, columns, rules, deferral⟩ := key
  have hdeferral := reads_deferral? deferral (h.ne rfl) h.deferral (h.ne rfl)
  -- the rules end before the deferral
  have hstop : ∀ other, endsConstraint other = false → other ≠ .keyword .DEFERRABLE →
      other ≠ .keyword .NOT →
      kindAhead (Pieces.symbols ((deferral.map Deferral.pieces).getD []) ++ rest) 0 ≠ other := by
    intro other hother hdeferrable hnot
    rcases deferral with _ | ⟨_ | _, initially⟩
    · exact h.ne hother
    · exact hdeferrable.symm
    · exact hnot.symm
  have hrules := reads_many (P := productions) (p := referenceRule?)
    (fun r => Pieces.symbols r.pieces) id (fun _ => True) rules
    (fun r _ more _ => reads_referenceRule?_some r more)
    (fun r _ => by cases r <;> simp [ReferenceRule.pieces]) (fun _ _ _ => trivial) trivial
    (reads_referenceRule?_none (hstop _ rfl (by simp) (by simp)) (hstop _ rfl (by simp) (by simp)))
  rw [List.map_id] at hrules
  have hcolumns : kindAhead (rules.flatMap (fun r => Pieces.symbols r.pieces) ++
      (Pieces.symbols ((deferral.map Deferral.pieces).getD []) ++ rest)) 0 ≠
        .operator .leftParen := by
    rcases rules with _ | ⟨_ | _ | _, rules⟩
    · exact hstop _ rfl (by simp) (by simp)
    · simp [ReferenceRule.pieces]
    · simp [ReferenceRule.pieces]
    · simp [ReferenceRule.pieces]
  simp only [ForeignKey.pieces, Pieces.symbols_append, Pieces.symbols_flatMap, List.append_assoc]
  exact reads_bind (reads_expect rfl) (reads_bind (reads_identifier table _) (reads_bind
    (reads_identifierList? columns hcolumns) (reads_bind hrules (reads_bind hdeferral
      (reads_pure _ _)))))

/-! ## Columns of keys -/

/-- Neither `COLLATE` nor a direction may follow. -/
theorem reads_indexedColumn (column : IndexedColumn)
    (hcollate : kindAhead rest 0 ≠ .keyword .COLLATE) (hasc : kindAhead rest 0 ≠ .keyword .ASC)
    (hdesc : kindAhead rest 0 ≠ .keyword .DESC) :
    Reads indexedColumn (Pieces.symbols column.pieces ++ rest) column rest := by
  obtain ⟨name, collation, direction⟩ := column
  have hdirection := reads_direction? direction hasc hdesc
  have hcollation := reads_behind_clause (p := identifier) .COLLATE (fun c => [Piece.name c]) id
    collation (Pieces.symbols (directionPieces direction) ++ rest)
    (fun c _ => reads_identifier c _) (fun _ => by
      rcases direction with _ | _ | _
      · exact hcollate
      · simp [directionPieces, SortDirection.keyword]
      · simp [directionPieces, SortDirection.keyword])
  rw [Option.map_id] at hcollation
  simp only [IndexedColumn.pieces, Pieces.symbols_append, List.append_assoc]
  exact reads_bind (reads_identifier name _) (reads_bind hcollation (reads_bind hdirection
    (reads_pure _ _)))

theorem reads_indexedColumns {columns : List IndexedColumn} (h : columns ≠ [])
    (rest : List Symbol) :
    Reads indexedColumns (Pieces.symbols (Pieces.inParens
      (Pieces.commaList (columns.map IndexedColumn.pieces))) ++ rest) columns rest := by
  have hlist := reads_commaList (p := Rule.indexedColumn.parse) IndexedColumn.pieces id
    (fun kind => endsItem kind = true) columns (.operator .rightParen :: rest)
    (fun c _ more hmore => reads_goal (reads_indexedColumn c
      (TokenKind.ne_of_holds hmore rfl) (TokenKind.ne_of_holds hmore rfl)
      (TokenKind.ne_of_holds hmore rfl))) h rfl rfl (by simp)
  rw [List.map_id] at hlist
  rw [Pieces.symbols_inParens, List.cons_append, List.append_assoc]
  exact reads_parenthesized hlist

/-! ## Conditions and defaults -/

/-- A condition is closed by its parenthesis, so that anything may follow. -/
theorem reads_condition {e : Expr} (h : e.WellFormed Phrase.Unambiguous) (rest : List Symbol) :
    Reads condition (Pieces.symbols (Pieces.inParens e.pieces) ++ rest) (e.regroup .written)
      rest := by
  rw [Pieces.symbols_inParens, List.cons_append, List.append_assoc]
  have hread : e.ReadsBack := Phrase.readsBack h
  exact reads_parenthesized (hread.reads rfl)

theorem reads_literal {value : Literal} {s : Symbol} (h : Literal.ofKind? s.kind = some value) :
    Reads literal (s :: rest) value rest := by
  refine reads_bind (reads_kind _) ?_
  rw [kindAhead_cons_zero, h]
  exact reads_bind (reads_advance (TokenKind.ne_eof_of_some rfl h)) (reads_pure _ _)

/-- The first two kinds of a number with `WellMade` are such that `startsSignedNumber`. -/
theorem startsSignedNumber_number {number : SignedNumber} (h : number.WellMade)
    (rest : List Symbol) :
    startsSignedNumber (kindAhead (Pieces.symbols number.pieces ++ rest) 0)
      (kindAhead (Pieces.symbols number.pieces ++ rest) 1) = true := by
  obtain ⟨text, ⟨-, hs⟩ | ⟨-, hs⟩ | ⟨-, hs⟩⟩ := SignedNumber.symbols_pieces h <;> rw [hs] <;> rfl

/-- One case for each form of a default; which one it is shows in its first two kinds. -/
theorem reads_defaultValue {value : DefaultValue} (h : value.WellFormed Phrase.Unambiguous)
    (rest : List Symbol) :
    Reads defaultValue (Pieces.symbols value.pieces ++ rest) (value.regroup .written) rest := by
  refine reads_bind (reads_look 0 _) (reads_bind (reads_look 1 _) ?_)
  cases value with
  | signed number =>
    have hstart := startsSignedNumber_number h rest
    rw [DefaultValue.pieces, hstart]
    exact reads_bind (reads_goal (reads_signedNumber h rest)) (reads_pure _ _)
  | literal value =>
    -- a number is written as a signed one, so that this literal is none
    have hmade : value.WellMade := by
      cases value with
      | number text => exact absurd rfl (h text)
      | _ => trivial
    obtain ⟨s, hs, hkind⟩ := Literal.symbols_pieces hmade
    have hstart : startsSignedNumber s.kind (kindAhead rest 0) = false ∧
        s.kind ≠ .operator .leftParen := by
      unfold Literal.ofKind? at hkind
      split at hkind
      · cases hkind
        exact absurd rfl (h _)
      all_goals simp_all [startsSignedNumber, TokenKind.isNumber]
    rw [DefaultValue.pieces, hs, List.singleton_append, kindAhead_cons_zero, kindAhead_cons_one,
      hstart.1]
    exact reads_bind (reads_isAt_false hstart.2) (reads_bind
      (reads_goal (reads_literal hkind)) (reads_pure _ _))
  | expr e =>
    have hread := reads_condition h rest
    exact reads_bind (reads_isAt_true rfl) (reads_bind hread (reads_pure _ _))

/-! ## Constraints of columns -/

/-- What is left out of a primary key must not be found in what follows. -/
theorem reads_primaryKey (direction : Option SortDirection)
    (onConflict : Option ConflictResolution) (autoincrement : Bool) (h : EndsConstraint rest) :
    Reads columnRule
      (Pieces.symbols (ColumnRule.primaryKey direction onConflict autoincrement).pieces ++ rest)
      (.primaryKey direction onConflict autoincrement) rest := by
  have hflag : Reads (accept Keyword.AUTOINCREMENT)
      (Pieces.symbols (Pieces.flag [.AUTOINCREMENT] autoincrement) ++ rest) autoincrement rest :=
    reads_accept_flag _ _ fun _ => h.ne rfl
  -- neither the conflict clause nor what is behind it goes on with the direction
  have hahead : ∀ other, other ≠ .keyword .ON → other ≠ .keyword .AUTOINCREMENT →
      endsConstraint other = false →
      kindAhead (Pieces.symbols (conflictPieces onConflict) ++
        (Pieces.symbols (Pieces.flag [.AUTOINCREMENT] autoincrement) ++ rest)) 0 ≠ other := by
    intro other hon hauto hother
    rcases onConflict with _ | resolution
    · cases autoincrement with
      | true => exact hauto.symm
      | false => exact h.ne hother
    · exact hon.symm
  have hon : kindAhead (Pieces.symbols (Pieces.flag [.AUTOINCREMENT] autoincrement) ++ rest) 0 ≠
      .keyword .ON := by
    cases autoincrement with
    | true => simp
    | false => exact h.ne rfl
  have hdirection := reads_direction? direction (hahead _ (by simp) (by simp) rfl)
    (hahead _ (by simp) (by simp) rfl)
  have hconflict := reads_conflictClause? onConflict hon
  refine reads_bind (reads_kind _) ?_
  simp only [ColumnRule.pieces, Pieces.symbols_append, Pieces.symbols_keywords, List.append_assoc]
  exact reads_bind (reads_expectAll [Terminal.keyword .PRIMARY, .keyword .KEY] _)
    (reads_bind hdirection (reads_bind hconflict (reads_bind hflag (reads_pure _ _))))

/-- One case for each rule of a column. -/
theorem reads_columnRule {rule : ColumnRule} (hwf : rule.WellFormed Phrase.Unambiguous)
    (h : EndsConstraint rest) :
    Reads columnRule (Pieces.symbols rule.pieces ++ rest) (rule.regroup .written) rest := by
  have hclause := fun resolution => reads_conflictClause? resolution (h.ne rfl)
  cases rule with
  | primaryKey direction onConflict autoincrement =>
    exact reads_primaryKey direction onConflict autoincrement h
  | notNull onConflict =>
    refine reads_bind (reads_kind _) ?_
    simp only [ColumnRule.pieces, Pieces.symbols_append, Pieces.symbols_keywords, List.append_assoc]
    exact reads_bind (reads_expectAll [Terminal.keyword .NOT, .keyword .NULL] _)
      (reads_bind (hclause onConflict) (reads_pure _ _))
  | unique onConflict =>
    exact reads_bind (reads_kind _) (reads_bind (reads_advance (by simp))
      (reads_bind (hclause onConflict) (reads_pure _ _)))
  | check e =>
    exact reads_bind (reads_kind _) (reads_bind (reads_advance (by simp))
      (reads_bind (reads_condition hwf rest) (reads_pure _ _)))
  | default value =>
    exact reads_bind (reads_kind _) (reads_bind (reads_advance (by simp))
      (reads_bind (reads_defaultValue hwf rest) (reads_pure _ _)))
  | collate collation =>
    exact reads_bind (reads_kind _) (reads_bind (reads_advance (by simp))
      (reads_bind (reads_identifier collation rest) (reads_pure _ _)))
  | foreignKey key =>
    exact reads_bind (reads_kind _) (reads_bind (reads_goal (reads_foreignKey key h))
      (reads_pure _ _))

/-- A constraint starts with its name or with what it demands. -/
theorem reads_constraintName? (name : Option String) (h : kindAhead rest 0 ≠ .keyword .CONSTRAINT) :
    Reads constraintName? (Pieces.symbols (constraintNamePieces name) ++ rest) name rest := by
  have hread := reads_behind_clause (p := identifier) .CONSTRAINT (fun n => [Piece.name n]) id name
    rest
    (fun n _ => reads_identifier n rest) (fun _ => h)
  rwa [Option.map_id] at hread

/-- What a constraint demands starts with a keyword of its own. -/
theorem startsColumnRule (rule : ColumnRule) (rest : List Symbol) :
    startsColumnConstraint (kindAhead (Pieces.symbols rule.pieces ++ rest) 0) = true ∧
      kindAhead (Pieces.symbols rule.pieces ++ rest) 0 ≠ .keyword .CONSTRAINT ∧
      terminalsAhead (Pieces.symbols rule.pieces ++ rest) 0 [Keyword.NOT, Keyword.DEFERRABLE] =
        false := by
  cases rule <;> exact ⟨rfl, by simp [ColumnRule.pieces, ForeignKey.pieces, Pieces.keywords], rfl⟩

theorem reads_columnConstraint {constraint : ColumnConstraint}
    (hwf : constraint.rule.WellFormed Phrase.Unambiguous) (h : EndsConstraint rest) :
    Reads columnConstraint (Pieces.symbols constraint.pieces ++ rest)
      (constraint.regroup .written) rest := by
  rw [ColumnConstraint.pieces, Pieces.symbols_append, List.append_assoc]
  exact reads_bind (reads_constraintName? _ (startsColumnRule _ rest).2.1)
    (reads_bind (reads_columnRule hwf h) (reads_pure _ _))

/-- A further constraint may stand behind a constraint. -/
theorem startsColumnConstraint_pieces (constraint : ColumnConstraint) (rest : List Symbol) :
    startsColumnConstraint (kindAhead (Pieces.symbols constraint.pieces ++ rest) 0) = true ∧
      EndsConstraint (Pieces.symbols constraint.pieces ++ rest) := by
  obtain ⟨name, rule⟩ := constraint
  cases name with
  | some name => exact ⟨rfl, rfl, rfl⟩
  | none =>
    obtain ⟨hstart, -, hnot⟩ := startsColumnRule rule rest
    refine ⟨hstart, ?_, hnot⟩
    rw [endsConstraint, Bool.or_eq_true]
    exact .inl hstart

/-! ## Columns -/

/-- What ends a definition ends its last constraint. -/
theorem EndsConstraint.of_definitionEnds (h : kindAhead rest 0 ∈ definitionEnds) :
    EndsConstraint rest where
  kind := holds_of_definitionEnds h rfl
  deferral := terminalsAhead_of_ne
    (TokenKind.ne_of_holds (holds_of_definitionEnds (p := endsItem) h rfl) rfl)

/-- No constraint starts with what ends a definition. -/
theorem reads_columnConstraint?_none (h : kindAhead rest 0 ∈ definitionEnds) :
    Reads columnConstraint? rest none rest := by
  have hstart := holds_of_definitionEnds (p := fun kind => !startsColumnConstraint kind) h rfl
  rw [Bool.not_eq_true'] at hstart
  refine reads_bind (reads_kind _) ?_
  rw [hstart]
  exact reads_pure _ _

theorem reads_columnConstraint?_some {constraint : ColumnConstraint}
    (hwf : constraint.rule.WellFormed Phrase.Unambiguous) (h : EndsConstraint rest) :
    Reads columnConstraint? (Pieces.symbols constraint.pieces ++ rest)
      (some (constraint.regroup .written)) rest := by
  refine reads_bind (reads_kind _) ?_
  rw [(startsColumnConstraint_pieces constraint rest).1]
  exact reads_map (reads_goal (reads_columnConstraint hwf h))

/-- A type that is left out needs no name behind it, one without numbers no parenthesis. -/
theorem reads_typeName? {type : Option TypeName} (hwf : ∀ t ∈ type, t.WellMade)
    (hname : (kindAhead rest 0).isIdentifier = false)
    (hparen : kindAhead rest 0 ≠ .operator .leftParen) :
    Reads typeName? (Pieces.symbols ((type.map TypeName.pieces).getD []) ++ rest) type rest := by
  cases type with
  | none =>
    refine reads_bind (reads_kind rest) ?_
    rw [hname]
    exact reads_pure _ _
  | some type =>
    have hread := reads_goal (P := productions) (g := Goal.rule .typeName)
      (reads_typeName (hwf type rfl) hname hparen)
    obtain ⟨name, _ | length, _ | scale⟩ := type <;>
      exact reads_bind (reads_kind _) (reads_map hread)

/-- The constraints are read one by one, by induction over them. -/
theorem reads_columnDefinition {column : ColumnDefinition}
    (hwf : column.WellFormed Phrase.Unambiguous) (h : kindAhead rest 0 ∈ definitionEnds) :
    Reads columnDefinition (Pieces.symbols column.pieces ++ rest) (column.regroup .written)
      rest := by
  obtain ⟨name, type, constraints⟩ := column
  have hmany := reads_many (P := productions) (p := columnConstraint?)
    (fun c => Pieces.symbols c.pieces) (ColumnConstraint.regroup .written) EndsConstraint
    constraints
    (fun c hc more hmore => reads_columnConstraint?_some (hwf.constraints c hc) hmore)
    (fun c _ hnil => by
      have hstart := (startsColumnConstraint_pieces c []).1
      rw [hnil] at hstart
      cases hstart)
    (fun c _ more => (startsColumnConstraint_pieces c more).2) (.of_definitionEnds h)
    (reads_columnConstraint?_none h)
  -- behind the type stands a constraint, or what ends the definition
  have hahead : endsConstraint
      (kindAhead (constraints.flatMap (fun c => Pieces.symbols c.pieces) ++ rest) 0) = true := by
    cases constraints with
    | nil => exact (EndsConstraint.of_definitionEnds h).kind
    | cons c cs =>
      rw [List.flatMap_cons, List.append_assoc]
      exact (startsColumnConstraint_pieces c _).2.kind
  -- neither of them would be drawn into the type
  have hname : (kindAhead
      (constraints.flatMap (fun c => Pieces.symbols c.pieces) ++ rest) 0).isIdentifier = false := by
    generalize kindAhead _ 0 = kind at hahead
    cases kind <;> first | rfl | cases hahead
  simp only [ColumnDefinition.pieces, Pieces.symbols_append, Pieces.symbols_flatMap,
    List.append_assoc]
  exact reads_bind (reads_identifier name _) (reads_bind
    (reads_typeName? hwf.type hname (TokenKind.ne_of_holds hahead rfl))
    (reads_bind hmany (reads_pure _ _)))

/-! ## Constraints of a table -/

/-- One case for each rule of a table. -/
theorem reads_tableRule {rule : TableRule} (hwf : rule.WellFormed Phrase.Unambiguous)
    (h : kindAhead rest 0 ∈ definitionEnds) :
    Reads tableRule (Pieces.symbols rule.pieces ++ rest) (rule.regroup .written) rest := by
  refine reads_bind (reads_kind _) ?_
  have hclause := fun resolution => reads_conflictClause? resolution
    ((EndsConstraint.of_definitionEnds h).ne rfl)
  cases rule with
  | key kind columns onConflict =>
    cases kind with
    | primaryKey =>
      simp only [TableRule.pieces, KeyKind.keywords, Pieces.symbols_append, Pieces.symbols_keywords,
        List.append_assoc]
      exact reads_bind (reads_expectAll [Terminal.keyword .PRIMARY, .keyword .KEY] _)
        (reads_bind (reads_indexedColumns hwf _) (reads_bind (hclause onConflict)
          (reads_pure _ _)))
    | unique =>
      simp only [TableRule.pieces, KeyKind.keywords, Pieces.symbols_append, Pieces.symbols_keywords,
        List.append_assoc]
      exact reads_bind (reads_advance (by simp)) (reads_bind (reads_indexedColumns hwf _)
        (reads_bind (hclause onConflict) (reads_pure _ _)))
  | check e =>
    exact reads_bind (reads_advance (by simp)) (reads_bind (reads_condition hwf rest)
      (reads_pure _ _))
  | foreignKey columns key =>
    simp only [TableRule.pieces, Pieces.symbols_append, Pieces.symbols_keywords, List.append_assoc]
    exact reads_bind (reads_expectAll [Terminal.keyword .FOREIGN, .keyword .KEY] _) (reads_bind
      (reads_names hwf _) (reads_bind (reads_goal (reads_foreignKey key (.of_definitionEnds h)))
        (reads_pure _ _)))

theorem reads_tableConstraint {constraint : TableConstraint}
    (hwf : constraint.rule.WellFormed Phrase.Unambiguous) (h : kindAhead rest 0 ∈ definitionEnds) :
    Reads tableConstraint (Pieces.symbols constraint.pieces ++ rest)
      (constraint.regroup .written) rest := by
  obtain ⟨name, rule⟩ := constraint
  have hstart : kindAhead (Pieces.symbols rule.pieces ++ rest) 0 ≠ .keyword .CONSTRAINT := by
    rcases rule with ⟨_ | _, _, _⟩ | _ | _ <;> simp [TableRule.pieces, KeyKind.keywords]
  rw [TableConstraint.pieces, Pieces.symbols_append, List.append_assoc]
  exact reads_bind (reads_constraintName? _ hstart)
    (reads_bind (reads_tableRule hwf h) (reads_pure _ _))

end Grammar

end SqlGrammar
