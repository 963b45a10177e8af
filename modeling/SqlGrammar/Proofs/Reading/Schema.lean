import SqlGrammar.Proofs.Reading.Data

/-!
# Reading schema statements

Creations, removals and changes of the objects of a schema are read back in front of what ends a
statement. Each step in the body of a trigger is a statement of its own, with a semicolon behind it.
-/

set_option autoImplicit false

namespace SqlGrammar

open Lexer SqlGrammar.Parser Grammar

namespace Grammar

variable {rest : List Symbol}

/-! ## Creation -/

/-- The words are left out before anything but `IF`. -/
theorem reads_ifNotExists (set : Bool) (h : kindAhead rest 0 ≠ .keyword .IF) :
    Reads ifNotExists (Pieces.symbols (Pieces.flag [.IF, .NOT, .EXISTS] set) ++ rest) set rest :=
  reads_acceptAll_flag [.IF, .NOT, .EXISTS] set fun _ => terminalsAhead_of_ne h

/-- The object must be no modifier, which would be taken as one. -/
theorem reads_createHead {object : Keyword} (temporary : Bool) (set : Bool)
    (hobject : object ∉ [Keyword.TEMP, .TEMPORARY]) (h : kindAhead rest 0 ≠ .keyword .IF) :
    Reads (createHead object) (Pieces.symbols (createPieces temporary object set) ++ rest)
      (temporary, set) rest := by
  simp only [List.mem_cons, List.not_mem_nil, or_false, not_or] at hobject
  have htemporary : ∀ ss, Reads Grammar.temporary (Pieces.symbols (Pieces.flag [.TEMP] temporary) ++
      .keyword object :: ss) temporary (.keyword object :: ss) := by
    intro ss
    cases temporary with
    | true => exact reads_bind (reads_accept_true rfl) (reads_pure _ _)
    | false =>
      exact reads_bind (reads_accept_false (by simpa [Terminal.kind] using hobject.1))
        (reads_accept_false (by simpa [Terminal.kind] using hobject.2))
  simp only [createPieces, Pieces.symbols_append, List.append_assoc]
  exact reads_bind (reads_expect rfl) (reads_bind (htemporary _) (reads_bind (reads_expect rfl)
    (reads_bind (reads_ifNotExists set h) (reads_pure _ _))))

/-! ## Tables -/

/-- A further column stands behind a comma, and its name is no keyword of a constraint. -/
theorem reads_furtherColumn?_some {column : ColumnDefinition}
    (hwf : column.WellFormed Phrase.Unambiguous) (h : kindAhead rest 0 ∈ definitionEnds) :
    Reads furtherColumn? (.operator .comma :: (Pieces.symbols column.pieces ++ rest))
      (some (column.regroup .written)) rest :=
  reads_bind (reads_isAt_true rfl) (reads_bind (reads_look 1 _) (reads_bind
    (reads_advance (by simp)) (reads_map (reads_goal (reads_columnDefinition hwf h)))))

/-- A constraint, named or not, starts with a word that `startsTableConstraint` knows. -/
theorem startsTableConstraint_pieces (constraint : TableConstraint) (rest : List Symbol) :
    startsTableConstraint (kindAhead (Pieces.symbols constraint.pieces ++ rest) 0) = true := by
  obtain ⟨name, rule⟩ := constraint
  rcases name with _ | name
  · rcases rule with ⟨_ | _, _, _⟩ | _ | _ <;> rfl
  · rfl

/-- The constraints of a table, with a comma before each. -/
def constraintsSymbols (constraints : List TableConstraint) : List Symbol :=
  constraints.flatMap fun c => .operator .comma :: Pieces.symbols c.pieces

/-- Behind the columns there is a constraint or the parenthesis, and neither is a further column. -/
theorem reads_furtherColumn?_none (constraints : List TableConstraint) (rest : List Symbol) :
    Reads furtherColumn? (constraintsSymbols constraints ++ .operator .rightParen :: rest) none
      (constraintsSymbols constraints ++ .operator .rightParen :: rest) := by
  cases constraints with
  | nil =>
    have hcomma : kindAhead (.operator .rightParen :: rest) 0 ≠ .operator .comma := by simp
    exact reads_bind (reads_isAt_false hcomma) (reads_bind (reads_look 1 _) (reads_pure _ _))
  | cons c cs =>
    refine reads_bind (reads_isAt _ _) (reads_bind (reads_look 1 _) ?_)
    -- behind the comma stands a constraint
    have hstart : startsTableConstraint (kindAhead
        (constraintsSymbols (c :: cs) ++ .operator .rightParen :: rest) 1) = true := by
      rw [constraintsSymbols, List.flatMap_cons, List.cons_append, List.cons_append,
        kindAhead_cons_one, List.append_assoc]
      exact startsTableConstraint_pieces c _
    rw [hstart, Bool.not_true, Bool.and_false]
    exact reads_pure _ _

/-- The constraints are a list behind a comma, or there are none. -/
theorem reads_constraints {constraints : List TableConstraint}
    (hwf : ∀ c ∈ constraints, c.rule.WellFormed Phrase.Unambiguous) (rest : List Symbol) :
    Reads (listBehind [Operator.comma] Rule.tableConstraint.parse)
      (constraintsSymbols constraints ++ .operator .rightParen :: rest)
      (constraints.map (TableConstraint.regroup .written)) (.operator .rightParen :: rest) := by
  cases constraints with
  | nil =>
    have hcomma : kindAhead (.operator .rightParen :: rest) 0 ≠ .operator .comma := by simp
    exact reads_bind (reads_acceptAll_false (terminalsAhead_of_ne hcomma)) (reads_pure _ _)
  | cons c cs =>
    have hlist := reads_commaSeparated (P := productions) (p := Rule.tableConstraint.parse)
      (fun c : TableConstraint => Pieces.symbols c.pieces) (TableConstraint.regroup .written)
      (fun kind => kind ∈ definitionEnds) c cs (.operator .rightParen :: rest)
      (fun c hc more hmore => reads_goal (reads_tableConstraint (hwf c hc) hmore))
      (by simp [definitionEnds]) (by simp [definitionEnds]) (by simp)
    rw [constraintsSymbols, List.flatMap_cons, List.append_assoc]
    exact reads_bind (reads_acceptAll_true [Terminal.operator .comma] _) hlist

/-- The columns are read one by one, then the constraints. -/
theorem reads_tableEntries {own : List ColumnDefinition} {constraints : List TableConstraint}
    (hne : own ≠ []) (hwf : ∀ c ∈ own, c.WellFormed Phrase.Unambiguous)
    (hconstraints : ∀ c ∈ constraints, c.rule.WellFormed Phrase.Unambiguous)
    (rest : List Symbol) :
    Reads tableEntries (.operator .leftParen ::
        (Pieces.symbols (Pieces.commaList (own.map ColumnDefinition.pieces)) ++
          (constraintsSymbols constraints ++ .operator .rightParen :: rest)))
      (own.map (ColumnDefinition.regroup .written),
        constraints.map (TableConstraint.regroup .written)) rest := by
  obtain ⟨first, others, rfl⟩ := List.exists_cons_of_ne_nil hne
  have hends : kindAhead (constraintsSymbols constraints ++ .operator .rightParen :: rest) 0 ∈
      definitionEnds := by
    cases constraints <;> simp [constraintsSymbols, definitionEnds]
  have hmany := reads_many (P := productions) (p := furtherColumn?)
    (fun c : ColumnDefinition => .operator .comma :: Pieces.symbols c.pieces)
    (ColumnDefinition.regroup .written) (fun more => kindAhead more 0 ∈ definitionEnds) others
    (fun c hc more hmore => reads_furtherColumn?_some (hwf c (by simp [hc])) hmore)
    (fun c _ => by simp) (fun c _ more => by simp [definitionEnds]) hends
    (reads_furtherColumn?_none constraints rest)
  have hfirst : kindAhead (others.flatMap
      (fun c => .operator .comma :: Pieces.symbols c.pieces) ++
        (constraintsSymbols constraints ++ .operator .rightParen :: rest)) 0 ∈ definitionEnds := by
    cases others with
    | nil => exact hends
    | cons c cs => simp [definitionEnds]
  rw [List.map_cons, Pieces.symbols_commaList_cons, List.flatMap_map, List.append_assoc]
  exact reads_parenthesized (reads_bind
    (reads_goal (reads_columnDefinition (hwf first (by simp)) hfirst))
    (reads_bind hmany (reads_bind (reads_constraints hconstraints rest) (reads_pure _ _))))

theorem symbols_rowid : (Piece.raw "ROWID").symbols = [.name "ROWID"] := by
  have halone : Alone (.identifier "ROWID") "ROWID".toList := alone_name (by decide)
  exact textSymbols_of_alone halone

/-- The words `WITHOUT ROWID`, of which the second is an identifier. -/
theorem reads_withoutRowid (set : Bool) (h : kindAhead rest 0 ≠ .keyword .WITHOUT) :
    ∃ found, found.isSome = set ∧ Reads (behind? Keyword.WITHOUT (expectWord "ROWID"))
      (Pieces.symbols (if set then [.keyword .WITHOUT, .raw "ROWID"] else []) ++ rest) found
      rest := by
  cases set with
  | false => exact ⟨none, rfl, reads_behind_none h⟩
  | true =>
    refine ⟨some (), rfl, ?_⟩
    rw [if_pos rfl, Pieces.symbols_cons, Pieces.symbols_cons, symbols_rowid]
    exact reads_behind_some rfl (reads_expectWord rfl rest)

/-- The symbols of a body with columns, with its parentheses outside. -/
theorem symbols_tableColumns (own : List ColumnDefinition)
    (constraints : List TableConstraint) (withoutRowid : Bool) (rest : List Symbol) :
    Pieces.symbols (TableBody.columns own constraints withoutRowid).pieces ++ rest =
      .operator .leftParen ::
        (Pieces.symbols (Pieces.commaList (own.map ColumnDefinition.pieces)) ++
          (constraintsSymbols constraints ++ .operator .rightParen ::
            (Pieces.symbols (if withoutRowid then [.keyword .WITHOUT, .raw "ROWID"] else []) ++
              rest))) := by
  simp [TableBody.pieces, constraintsSymbols, Pieces.symbols_flatMap]

/-- A body with columns, or a query behind `AS`. -/
theorem reads_tableBody {body : TableBody} (h : body.WellFormed Phrase.Unambiguous)
    (hends : Opens [] rest) :
    Reads tableBody (Pieces.symbols body.pieces ++ rest) (body.regroup .written) rest := by
  cases body with
  | asSelect q =>
    exact reads_bind (reads_accept_true rfl) (reads_bind
      (reads_query h rest (hends.all (p := endsQuery) rfl)) (reads_pure _ _))
  | columns own constraints withoutRowid =>
    obtain ⟨hne, hown, hconstraints⟩ := h
    have hwithout : kindAhead rest 0 ≠ .keyword .WITHOUT := hends.ne (by decide)
    obtain ⟨found, rfl, hfound⟩ := reads_withoutRowid withoutRowid hwithout
    rw [symbols_tableColumns]
    exact reads_bind (reads_accept_false (by simp [Terminal.kind])) (reads_bind
      (reads_tableEntries hne hown hconstraints _) (reads_bind hfound (reads_pure _ _)))

/-- The head, the name and the body of a table. -/
theorem reads_createTable {statement : CreateTable}
    (h : statement.body.WellFormed Phrase.Unambiguous) (hends : Opens [] rest) :
    Reads createTable (Pieces.symbols statement.pieces ++ rest) (statement.regroup .written)
      rest := by
  obtain ⟨temporary, set, name, body⟩ := statement
  have hdot : kindAhead (Pieces.symbols body.pieces ++ rest) 0 ≠ .operator .dot := by
    cases body <;> simp [TableBody.pieces]
  simp only [CreateTable.pieces, Pieces.symbols_append, List.append_assoc]
  exact reads_bind (reads_createHead temporary set (by simp)
      (TokenKind.ne_of_holds (kindAhead_qualifiedName name _) rfl))
    (reads_bind (reads_qualifiedName name hdot) (reads_bind (reads_tableBody h hends)
      (reads_pure _ _)))

/-! ## Indexes and views -/

/-- An index ends with its condition or its columns. -/
theorem reads_createIndex {statement : CreateIndex} (h : statement.WellFormed Phrase.Unambiguous)
    (hends : Opens [] rest) :
    Reads createIndex (Pieces.symbols statement.pieces ++ rest) (statement.regroup .written)
      rest := by
  obtain ⟨unique, set, name, table, columns, filter⟩ := statement
  simp only [CreateIndex.pieces, Pieces.symbols_append, List.append_assoc]
  exact reads_bind (reads_expect rfl) (reads_bind
    (reads_accept_flag _ _ fun _ => by simp) (reads_bind (reads_expect rfl) (reads_bind
      (reads_ifNotExists set (TokenKind.ne_of_holds (kindAhead_qualifiedName name _) rfl))
      (reads_bind (reads_qualifiedName name (by simp)) (reads_bind (reads_expect rfl) (reads_bind
        (reads_identifier table _) (reads_bind (reads_indexedColumns h.columns _) (reads_bind
          (reads_filter? h.filter hends) (reads_pure _ _)))))))))

/-- A view ends with its query. -/
theorem reads_createView {statement : CreateView}
    (h : statement.query.WellFormed Phrase.Unambiguous) (hends : Opens [] rest) :
    Reads createView (Pieces.symbols statement.pieces ++ rest) (statement.regroup .written)
      rest := by
  obtain ⟨temporary, set, name, columns, q⟩ := statement
  have hdot : ∀ ss, kindAhead (Pieces.symbols (namesInParens columns) ++ .keyword .AS :: ss) 0 ≠
      .operator .dot := by
    cases columns <;> simp [namesInParens]
  simp only [CreateView.pieces, Pieces.symbols_append, List.append_assoc]
  exact reads_bind (reads_createHead temporary set (by simp)
      (TokenKind.ne_of_holds (kindAhead_qualifiedName name _) rfl))
    (reads_bind (reads_qualifiedName name (hdot _)) (reads_bind
      (reads_identifierList? columns (by simp)) (reads_bind (reads_expect rfl) (reads_bind
        (reads_query h rest (hends.all (p := endsQuery) rfl)) (reads_pure _ _)))))

/-! ## Triggers -/

/-- An event starts with none of the words of `TriggerTiming.keywords`. -/
theorem reads_triggerTiming? (timing : Option TriggerTiming)
    (h : kindAhead rest 0 ∈ [TokenKind.keyword .DELETE, .keyword .INSERT, .keyword .UPDATE]) :
    Reads triggerTiming?
      (((timing.map TriggerTiming.keywords).getD []).map Symbol.keyword ++ rest) timing rest := by
  have hne : ∀ {other}, other ∉ [TokenKind.keyword .DELETE, .keyword .INSERT, .keyword .UPDATE] →
      kindAhead rest 0 ≠ other := by
    rintro other hother rfl
    exact hother h
  -- the timings before the one that was written are passed over
  rcases timing with _ | _ | _ | _
  · exact reads_bind (reads_accept_false (hne (by simp [Terminal.kind]))) (reads_bind
      (reads_accept_false (hne (by simp [Terminal.kind]))) (reads_bind
        (reads_accept_false (hne (by simp [Terminal.kind]))) (reads_pure _ _)))
  · exact reads_bind (reads_accept_true rfl) (reads_pure _ _)
  · have hafter : kindAhead (.keyword .AFTER :: rest) 0 ≠ .keyword .BEFORE := by simp
    exact reads_bind (reads_accept_false hafter)
      (reads_bind (reads_accept_true rfl) (reads_pure _ _))
  · have hinstead : ∀ {word : Keyword}, Keyword.INSTEAD ≠ word →
        kindAhead (.keyword .INSTEAD :: .keyword .OF :: rest) 0 ≠ (Terminal.keyword word).kind := by
      simp [Terminal.kind]
    exact reads_bind (reads_accept_false (hinstead (by simp))) (reads_bind
      (reads_accept_false (hinstead (by simp))) (reads_bind (reads_accept_true rfl)
        (reads_bind (reads_expect rfl) (reads_pure _ _))))

/-- The columns behind `UPDATE OF` end at `ON`. -/
theorem reads_triggerEvent (event : TriggerEvent) (h : kindAhead rest 0 = .keyword .ON) :
    Reads triggerEvent (Pieces.symbols event.pieces ++ rest) event rest := by
  refine reads_bind (reads_kind _) ?_
  cases event with
  | delete => exact reads_bind (reads_advance (by simp)) (reads_pure _ _)
  | insert => exact reads_bind (reads_advance (by simp)) (reads_pure _ _)
  | update columns =>
    have hlist := reads_listBehind (p := identifier) .OF [] (fun c : String => [Piece.name c]) id
      columns rest (fun hne => reads_commaList' _ _ columns rest
        (fun c _ more => reads_identifier c more) hne (by simp [h]))
      (fun _ => by simp [h])
    rw [List.map_id] at hlist
    exact reads_bind (reads_advance (by simp)) (reads_bind hlist (reads_pure _ _))

theorem kindAhead_event (event : TriggerEvent) (rest : List Symbol) :
    kindAhead (Pieces.symbols event.pieces ++ rest) 0 ∈
      [TokenKind.keyword .DELETE, .keyword .INSERT, .keyword .UPDATE] := by
  cases event <;> simp [TriggerEvent.pieces]

/-- A step is one of four statements, known by its first word. -/
theorem reads_triggerStep {step : Statement} (h : step.StepWellFormed Phrase.Unambiguous)
    (hends : Opens [] rest) :
    Reads triggerStep (Pieces.symbols step.pieces ++ rest) (step.regroup .written) rest := by
  cases step with
  | select q =>
    have hread := reads_query h rest (hends.all (p := endsQuery) rfl)
    -- the step is told by its first keyword
    rw [Statement.pieces]
    rw [Select.symbols_pieces] at hread ⊢
    exact reads_bind (reads_kind _) (reads_map hread)
  | insert statement =>
    have hread := reads_goal (g := Goal.rule .insert) (reads_insert h hends)
    obtain ⟨_ | _ | _, table, columns, source⟩ := statement <;>
      exact reads_bind (reads_kind _) (reads_map hread)
  | update statement =>
    exact reads_bind (reads_kind _) (reads_map (reads_goal (reads_update h hends)))
  | delete statement =>
    exact reads_bind (reads_kind _) (reads_map (reads_goal (reads_delete h hends)))
  | _ => exact h.elim

/-- The symbols of a step in the body of a trigger. -/
def stepSymbols (step : Statement) : List Symbol :=
  Pieces.symbols step.pieces ++ [.operator .semicolon]

theorem reads_closedStep {step : Statement} (h : step.StepWellFormed Phrase.Unambiguous)
    (rest : List Symbol) :
    Reads closedStep (stepSymbols step ++ rest) (step.regroup .written) rest := by
  rw [stepSymbols, List.append_assoc]
  have hends : Opens [] (.operator .semicolon :: rest) := .of_endsQuery rfl
  exact reads_bind (reads_deeper (reads_triggerStep h hends))
    (reads_bind (reads_expect rfl) (reads_pure _ _))

/-- No step starts with the `END` of the body. -/
theorem kindAhead_step {step : Statement} (h : step.StepWellFormed Phrase.Unambiguous)
    (rest : List Symbol) : kindAhead (stepSymbols step ++ rest) 0 ≠ .keyword .END := by
  rw [stepSymbols, List.append_assoc]
  cases step with
  | select q =>
    rw [Statement.pieces, Select.symbols_pieces]
    simp
  | insert statement =>
    obtain ⟨_ | _ | _, table, columns, source⟩ := statement <;>
      simp [Statement.pieces, Insert.pieces, InsertVerb.keywords]
  | update statement => simp [Statement.pieces, Update.pieces]
  | delete statement => simp [Statement.pieces, Delete.pieces, Pieces.keywords]
  | _ => exact h.elim

/-- The symbols of the steps are those of each step with its semicolon. -/
theorem stepsPieces_eq (steps : List Statement) :
    Pieces.symbols (stepsPieces steps) = steps.flatMap stepSymbols := by
  induction steps with
  | nil => rfl
  | cons s ss ih => simp [stepsPieces, stepSymbols, ih]

/-- The steps are read one by one up to `END`. -/
theorem reads_triggerBody {body : List Statement} (hne : body ≠ [])
    (h : ∀ s ∈ body, s.StepWellFormed Phrase.Unambiguous) (rest : List Symbol) :
    Reads triggerBody (Pieces.symbols (stepsPieces body) ++ .keyword .END :: rest)
      (body.map (Statement.regroup .written)) rest := by
  obtain ⟨first, others, rfl⟩ := List.exists_cons_of_ne_nil hne
  have hend : Reads furtherStep? (.keyword .END :: rest) none rest :=
    reads_bind (reads_accept_true rfl) (reads_pure _ _)
  have hmany := reads_many (P := productions) (p := furtherStep?) stepSymbols
    (Statement.regroup .written) (fun _ => True) others
    (fun s hs more _ => reads_bind (reads_accept_false (kindAhead_step (h s (by simp [hs])) more))
      (reads_map (reads_closedStep (h s (by simp [hs])) more)))
    (fun s _ => by simp [stepSymbols]) (fun _ _ _ => trivial) trivial hend
  rw [stepsPieces_eq, List.flatMap_cons, List.append_assoc]
  exact reads_bind (reads_closedStep (h first (by simp)) _) (reads_bind hmany (reads_pure _ _))

/-- The pieces of the creation of a trigger, part by part. -/
theorem symbols_createTrigger (statement : CreateTrigger) (rest : List Symbol) :
    Pieces.symbols statement.pieces ++ rest =
      Pieces.symbols (createPieces statement.temporary .TRIGGER statement.ifNotExists) ++
        (Pieces.symbols statement.name.pieces ++
          (((statement.timing.map TriggerTiming.keywords).getD []).map Symbol.keyword ++
            (Pieces.symbols statement.event.pieces ++ .keyword .ON :: .name statement.table ::
              (Pieces.symbols (Pieces.flag [.FOR, .EACH, .ROW] statement.forEachRow) ++
                (Pieces.symbols (Pieces.clause [.WHEN] (statement.condition.map Expr.pieces)) ++
                  .keyword .BEGIN :: (Pieces.symbols (stepsPieces statement.body) ++
                    .keyword .END :: rest)))))) := by
  obtain ⟨temporary, set, name, timing, event, table, forEachRow, condition, body⟩ := statement
  simp [CreateTrigger.pieces]

/-- A trigger ends with `END`, so that anything may follow. -/
theorem reads_createTrigger {statement : CreateTrigger}
    (h : statement.WellFormed Phrase.Unambiguous) (rest : List Symbol) :
    Reads createTrigger (Pieces.symbols statement.pieces ++ rest) (statement.regroup .written)
      rest := by
  obtain ⟨temporary, set, name, timing, event, table, forEachRow, condition, body⟩ := statement
  -- behind the name stands a timing or the event, but no dot
  have hname : ∀ ss, kindAhead (((timing.map TriggerTiming.keywords).getD []).map Symbol.keyword ++
      (Pieces.symbols event.pieces ++ ss)) 0 ≠ .operator .dot := by
    intro ss heq
    rcases timing with _ | _ | _ | _
    · have hmem := kindAhead_event event ss
      rw [show kindAhead (Pieces.symbols event.pieces ++ ss) 0 = _ from heq] at hmem
      simp at hmem
    · cases heq
    · cases heq
    · cases heq
  -- what may stand in place of the rows is a condition or the body
  have hrow : ∀ ss, kindAhead (Pieces.symbols (Pieces.clause [.WHEN] (condition.map Expr.pieces)) ++
      .keyword .BEGIN :: ss) 0 ≠ .keyword .FOR := by
    cases condition <;> simp
  have hcondition := fun ss => reads_exprBehind .WHEN condition (.keyword .BEGIN :: ss)
    (fun x hx => Phrase.readsBack (h.condition x hx)) rfl (by simp)
  rw [symbols_createTrigger, CreateTrigger.regroup, regroupSteps_eq]
  exact reads_bind (reads_createHead temporary set (by simp)
      (TokenKind.ne_of_holds (kindAhead_qualifiedName name _) rfl))
    (reads_bind (reads_qualifiedName name (hname _)) (reads_bind
      (reads_triggerTiming? timing (kindAhead_event event _)) (reads_bind
        (reads_triggerEvent event rfl) (reads_bind (reads_expect rfl) (reads_bind
          (reads_identifier table _) (reads_bind
            (reads_acceptAll_flag [.FOR, .EACH, .ROW] forEachRow
              fun _ => terminalsAhead_of_ne (hrow _))
            (reads_bind (hcondition _) (reads_bind (reads_expect rfl) (reads_bind
              (reads_triggerBody h.nonempty h.body rest) (reads_pure _ _))))))))))

/-! ## Removal and change -/

theorem reads_drop (statement : Drop) (h : kindAhead rest 0 ≠ .operator .dot) :
    Reads drop (Pieces.symbols statement.pieces ++ rest) statement rest := by
  obtain ⟨kind, ifExists, name⟩ := statement
  have hread := reads_bind (f := fun ifExists => do return Drop.mk kind ifExists (← qualifiedName))
    (reads_acceptAll_flag [.IF, .EXISTS] ifExists fun _ =>
      terminalsAhead_of_ne (TokenKind.ne_of_holds (kindAhead_qualifiedName name rest) rfl))
    (reads_bind (reads_qualifiedName name h) (reads_pure _ _))
  simp only [Drop.pieces, Pieces.symbols_append, Pieces.symbols_keywords, List.append_assoc]
  refine reads_bind (reads_expect rfl) (reads_bind (reads_kind _) ?_)
  cases kind <;> exact reads_bind (reads_advance (by simp [ObjectKind.keyword])) hread

/-- A new column ends like a definition, so that this is asked of what follows. -/
theorem reads_alter {statement : Alter} (h : statement.action.WellFormed Phrase.Unambiguous)
    (hends : kindAhead rest 0 ∈ definitionEnds) :
    Reads alter (Pieces.symbols statement.pieces ++ rest) (statement.regroup .written) rest := by
  obtain ⟨table, action⟩ := statement
  have haction : Reads alterAction (Pieces.symbols action.pieces ++ rest) (action.regroup .written)
      rest := by
    refine reads_bind (reads_kind _) ?_
    cases action with
    | renameTo name =>
      exact reads_bind (reads_expectAll [Terminal.keyword .RENAME, .keyword .TO] _)
        (reads_bind (reads_identifier name rest) (reads_pure _ _))
    | addColumn column =>
      exact reads_bind (reads_advance (by simp)) (reads_bind (reads_accept_true rfl) (reads_bind
        (reads_goal (reads_columnDefinition h hends)) (reads_pure _ _)))
  have hdot : kindAhead (Pieces.symbols action.pieces ++ rest) 0 ≠ .operator .dot := by
    cases action <;> simp [AlterAction.pieces, Pieces.keywords]
  simp only [Alter.pieces, Pieces.symbols_append, Pieces.symbols_keywords, List.append_assoc]
  exact reads_bind (reads_expectAll [Terminal.keyword .ALTER, .keyword .TABLE] _)
    (reads_bind (reads_qualifiedName table hdot) (reads_bind haction (reads_pure _ _)))

end Grammar

end SqlGrammar
