import SqlGrammar.Proofs.Reading.Definition

/-!
# Reading data statements

Insertions, updates and deletions are read back in front of what ends a statement.
-/

set_option autoImplicit false

namespace SqlGrammar

open SqlGrammar.Parser Grammar

namespace Grammar

variable {rest : List Symbol}

/-! ## Queries and conditions -/

/-- A query is read before what `endsQuery`. -/
theorem reads_query {q : Select} (h : q.WellFormed Phrase.Unambiguous) (rest : List Symbol)
    (hends : endsQuery (kindAhead rest 0) = true) :
    Reads Rule.select.parse (Pieces.symbols q.pieces ++ rest) (q.regroup .written) rest := by
  have hread : (Phrase.query q).ReadsBack := Phrase.readsBack h
  exact reads_goal (hread rest hends)

/-- An expression is read before what `endsExpr`. -/
theorem reads_wholeExpr {e : Expr} (h : e.WellFormed Phrase.Unambiguous)
    (hends : endsExpr (kindAhead rest 0) = true) :
    Reads Rule.expr.parse (Pieces.symbols e.pieces ++ rest) (e.regroup .written) rest := by
  have hread : e.ReadsBack := Phrase.readsBack h
  exact hread.reads hends

theorem reads_filter? {filter : Option Expr}
    (h : ∀ e ∈ filter, e.WellFormed Phrase.Unambiguous) (hends : Opens [] rest) :
    Reads filter? (Pieces.symbols (filterPieces filter) ++ rest)
      (filter.map (Expr.regroup .written)) rest :=
  reads_exprBehind .WHERE filter rest (fun x hx => Phrase.readsBack (h x hx)) (hends.all rfl)
    (hends.ne (by decide))

/-! ## Insertions -/

/-- A resolution is left out before anything but `OR`. -/
theorem reads_conflictBehind (resolution : Option ConflictResolution)
    (h : kindAhead rest 0 ≠ .keyword .OR) :
    Reads (behind? Keyword.OR conflictResolution) (Pieces.symbols (Pieces.clause [.OR]
      (resolution.map fun r => [.keyword r.keyword])) ++ rest) resolution rest := by
  have hread := reads_behind_clause (p := conflictResolution) .OR
    (fun r : ConflictResolution => [Piece.keyword r.keyword]) id resolution rest
    (fun r _ => reads_conflictResolution r rest) (fun _ => h)
  rwa [Option.map_id] at hread

theorem reads_insertVerb (verb : InsertVerb) (h : kindAhead rest 0 ≠ .keyword .OR) :
    Reads insertVerb (verb.keywords.map Symbol.keyword ++ rest) verb rest := by
  cases verb with
  | replace => exact reads_bind (reads_accept_true rfl) (reads_pure _ _)
  | insert =>
    exact reads_bind (reads_accept_false (by simp [InsertVerb.keywords, Terminal.kind]))
      (reads_bind (reads_expect rfl) (reads_bind (reads_conflictBehind none h) (reads_pure _ _)))
  | insertOr resolution =>
    exact reads_bind (reads_accept_false (by simp [InsertVerb.keywords, Terminal.kind]))
      (reads_bind (reads_expect rfl) (reads_bind (reads_conflictBehind (some resolution) h)
        (reads_pure _ _)))

/-- A row is closed by its parenthesis, so that anything may follow. -/
theorem reads_row {row : List Expr} (hne : row ≠ [])
    (h : ∀ e ∈ row, e.WellFormed Phrase.Unambiguous) (rest : List Symbol) :
    Reads Grammar.row
      (Pieces.symbols (Pieces.inParens (Pieces.commaList (exprsPieces row))) ++ rest)
      (row.map (Expr.regroup .written)) rest := by
  rw [exprsPieces_eq, Pieces.symbols_inParens, List.cons_append, List.append_assoc]
  exact reads_parenthesized (reads_exprs (fun e he => Phrase.readsBack (h e he)) hne rfl (by simp))

/-- One case for each source of rows. -/
theorem reads_insertSource {source : InsertSource} (h : source.WellFormed Phrase.Unambiguous)
    (hends : Opens [] rest) :
    Reads insertSource (Pieces.symbols source.pieces ++ rest) (source.regroup .written) rest := by
  cases source with
  | defaults =>
    exact reads_bind (reads_acceptAll_true [Terminal.keyword .DEFAULT, .keyword .VALUES] rest)
      (reads_pure _ _)
  | values rows =>
    have hrows := reads_commaList' (p := row)
      (fun row => Pieces.inParens (Pieces.commaList (exprsPieces row)))
      (List.map (Expr.regroup .written)) rows rest
      (fun row hrow more => reads_row (h.2 row hrow).1 (h.2 row hrow).2 more) h.1
      (hends.ne (by decide))
    exact reads_bind (reads_acceptAll_false (terminalsAhead_of_ne (by
      simp [InsertSource.pieces, Terminal.kind]))) (reads_bind (reads_accept_true rfl)
        (reads_bind hrows (reads_pure _ _)))
  | query q =>
    have hread := reads_query h rest (hends.all (p := endsQuery) rfl)
    rw [InsertSource.pieces]
    -- a query starts with its `SELECT`, which is no other source
    rw [Select.symbols_pieces] at hread ⊢
    exact reads_bind (reads_acceptAll_false (terminalsAhead_of_ne (by simp [Terminal.kind])))
      (reads_bind (reads_accept_false (by simp [Terminal.kind])) (reads_bind (reads_isAt_true rfl)
        (reads_bind (reads_isAt _ _) (reads_bind hread (reads_pure _ _)))))

/-- The source of rows starts with a keyword. -/
theorem startsInsertSource (source : InsertSource) (rest : List Symbol) :
    kindAhead (Pieces.symbols source.pieces ++ rest) 0 ∈
      [TokenKind.keyword .DEFAULT, .keyword .VALUES, .keyword .SELECT] := by
  cases source with
  | query q =>
    rw [InsertSource.pieces, Select.symbols_pieces]
    simp
  | values rows => simp [InsertSource.pieces]
  | defaults => simp [InsertSource.pieces, Pieces.keywords]

/-- An insertion ends with its source. -/
theorem reads_insert {statement : Insert} (h : statement.WellFormed Phrase.Unambiguous)
    (hends : Opens [] rest) :
    Reads insert (Pieces.symbols statement.pieces ++ rest) (statement.regroup .written) rest := by
  obtain ⟨verb, table, columns, source⟩ := statement
  have hsource : ∀ other, other ∉ [TokenKind.keyword .DEFAULT, .keyword .VALUES, .keyword .SELECT] →
      kindAhead (Pieces.symbols source.pieces ++ rest) 0 ≠ other := by
    rintro other hother rfl
    exact hother (startsInsertSource source rest)
  -- behind the table stand the columns or the source, but no dot
  have hdot : kindAhead (Pieces.symbols (namesInParens columns) ++
      (Pieces.symbols source.pieces ++ rest)) 0 ≠ .operator .dot := by
    cases columns with
    | nil => exact hsource _ (by simp)
    | cons c cs => simp [namesInParens]
  simp only [Insert.pieces, Pieces.symbols_append, Pieces.symbols_keywords, List.append_assoc]
  exact reads_bind (reads_insertVerb verb (by simp)) (reads_bind (reads_expect rfl) (reads_bind
    (reads_qualifiedName table hdot) (reads_bind (reads_identifierList? columns
      (hsource _ (by simp))) (reads_bind (reads_insertSource h hends) (reads_pure _ _)))))

/-! ## Updates and deletions -/

theorem reads_assignment {assignment : Assignment}
    (h : assignment.value.WellFormed Phrase.Unambiguous)
    (hends : endsExpr (kindAhead rest 0) = true) :
    Reads Grammar.assignment (Pieces.symbols assignment.pieces ++ rest)
      (assignment.regroup .written) rest := by
  rw [Assignment.pieces, Pieces.symbols_append, List.append_assoc]
  exact reads_bind (reads_identifier assignment.column _) (reads_bind (reads_expect rfl)
    (reads_bind (reads_wholeExpr h hends) (reads_pure _ _)))

/-- A name with its schema or without starts with a name. -/
theorem kindAhead_qualifiedName (name : QualifiedName) (rest : List Symbol) :
    (kindAhead (Pieces.symbols name.pieces ++ rest) 0).isIdentifier = true := by
  obtain ⟨schema, own⟩ := name
  cases schema <;> rfl

/-- An update ends with its condition or its last new value. -/
theorem reads_update {statement : Update} (h : statement.WellFormed Phrase.Unambiguous)
    (hends : Opens [] rest) :
    Reads update (Pieces.symbols statement.pieces ++ rest) (statement.regroup .written) rest := by
  obtain ⟨orConflict, table, assignments, filter⟩ := statement
  have hfilter : Opens [.WHERE] (Pieces.symbols (filterPieces filter) ++ rest) :=
    hends.clause .WHERE [] _
  have hassignments := reads_commaList (p := Rule.assignment.parse) Assignment.pieces
    (Assignment.regroup .written) (fun kind => endsExpr kind = true) assignments _
    (fun a ha more hmore => reads_goal (reads_assignment (h.assignments a ha) hmore)) h.nonempty
    rfl (hfilter.all rfl) (hfilter.ne (by decide))
  simp only [Update.pieces, Pieces.symbols_append, List.append_assoc]
  exact reads_bind (reads_expect rfl) (reads_bind
    (reads_conflictBehind _ (TokenKind.ne_of_holds (kindAhead_qualifiedName table _) rfl))
    (reads_bind (reads_qualifiedName table (by simp)) (reads_bind (reads_expect rfl) (reads_bind
      hassignments (reads_bind (reads_filter? h.filter hends) (reads_pure _ _))))))

theorem reads_delete {statement : Delete} (h : statement.WellFormed Phrase.Unambiguous)
    (hends : Opens [] rest) :
    Reads delete (Pieces.symbols statement.pieces ++ rest) (statement.regroup .written) rest := by
  obtain ⟨table, filter⟩ := statement
  have hfilter : Opens [.WHERE] (Pieces.symbols (filterPieces filter) ++ rest) :=
    hends.clause .WHERE [] _
  simp only [Delete.pieces, Pieces.symbols_append, Pieces.symbols_keywords, List.append_assoc]
  exact reads_bind (reads_expectAll [Terminal.keyword .DELETE, .keyword .FROM] _) (reads_bind
    (reads_qualifiedName table (hfilter.ne (by decide))) (reads_bind (reads_filter? h hends)
      (reads_pure _ _)))

end Grammar

end SqlGrammar
