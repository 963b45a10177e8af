import SqlGrammar.Proofs.Parsed.Definition

/-!
# What data statements are read from

Insertions, updates and deletions are written with the payload that was taken for them. The verb of
an insertion and what is done about a conflict consist of keywords.
-/

set_option autoImplicit false

namespace SqlGrammar

open SqlGrammar.Parser Grammar

namespace Grammar

variable {room : Nat} {input : List Symbol}

/-- What is done about a conflict, behind an `OR`. -/
theorem ensures_orConflict : Ensures room (behind? Keyword.OR conflictResolution) input
    fun _ rest => Passes input [] rest :=
  ensures_behind (fun _ hnext => ensures_mono ensures_conflictResolution fun _ _ hpass =>
    hnext.passes_keyword.trans hpass) fun _ => .refl _

theorem ensures_filter? (h : Sound room) : Ensures room filter? input fun filter rest =>
    Passes input (payload (Pieces.symbols (filterPieces filter))) rest ∧
      ∀ e ∈ filter, e.WellFormed Phrase.Parsed :=
  ensures_mono (h.behind .WHERE input) fun filter _ hfilter =>
    ⟨hfilter.1.cast (by simp [filterPieces]), hfilter.2⟩

/-! ## Insertions -/

/-- The verb of an insertion has words only. -/
theorem ensures_insertVerb :
    Ensures room insertVerb input fun _ rest => Passes input [] rest := by
  refine ensures_bind (ensures_accept _) fun taken mid hreplace => ?_
  rcases hreplace with ⟨rfl, hnext⟩ | ⟨rfl, rfl, -⟩
  · exact ensures_pure hnext.passes_keyword
  refine ensures_bind (ensures_expect _) fun _ mid' hinsert => ?_
  refine ensures_bind ensures_orConflict fun resolution rest hpass => ?_
  have hboth := hinsert.passes_keyword.trans hpass
  split
  · exact ensures_pure hboth
  · exact ensures_pure hboth

/-- A row is not empty, and its expressions are `Phrase.Parsed`. -/
theorem ensures_row (h : Sound room) : Ensures room row input fun es rest =>
    Passes input (payload (Pieces.symbols (Pieces.inParens (Pieces.commaList
      (exprsPieces es))))) rest ∧ es ≠ [] ∧ ∀ e ∈ es, e.WellFormed Phrase.Parsed := by
  refine ensures_parenthesized fun mid => ensures_mono (h.exprs mid) fun es rest hes => ?_
  refine ⟨hes.2.1.cast ?_, hes.1, hes.2.2⟩
  simp

/-- One case for each source of rows. -/
theorem ensures_insertSource (h : Sound room) : Ensures room insertSource input
    fun source rest => Passes input (payload (Pieces.symbols source.pieces)) rest ∧
      source.WellFormed Phrase.Parsed := by
  refine ensures_bind (ensures_acceptAll _) fun taken mid hdefault => ?_
  rcases hdefault with ⟨rfl, hall⟩ | ⟨rfl, rfl, -⟩
  · exact ensures_pure ⟨NextAll.passes [.DEFAULT, .VALUES] hall, trivial⟩
  refine ensures_bind (ensures_accept _) fun taken mid hvalues => ?_
  rcases hvalues with ⟨rfl, hnext⟩ | ⟨rfl, rfl, -⟩
  · refine ensures_bind (ensures_commaSeparated
      (w := fun es => Pieces.inParens (Pieces.commaList (exprsPieces es)))
      (G := fun es => es ≠ [] ∧ ∀ e ∈ es, e.WellFormed Phrase.Parsed)
      fun mid => ensures_row h) fun rows rest hrows => ensures_pure ⟨?_, hrows.1, hrows.2.2⟩
    exact hnext.passes_keyword.trans hrows.2.1
  refine ensures_isAt_bind (ensures_isAt_bind ?_)
  split
  · exact ensures_bind (h.select mid) fun q rest hq => ensures_pure hq
  · exact ensures_unexpected

theorem ensures_insert (h : Sound room) : Ensures room insert input fun statement rest =>
    Passes input (payload (Pieces.symbols statement.pieces)) rest ∧
      statement.WellFormed Phrase.Parsed := by
  refine ensures_bind ensures_insertVerb fun verb mid₁ hverb => ?_
  refine ensures_bind (ensures_expect _) fun _ mid₂ hinto => ?_
  refine ensures_bind ensures_qualifiedName fun table mid₃ htable => ?_
  refine ensures_bind ensures_identifierList? fun columns mid₄ hcolumns => ?_
  refine ensures_bind (ensures_insertSource h) fun source rest hsource =>
    ensures_pure ⟨?_, hsource.2⟩
  refine (hverb.trans (hinto.passes_keyword.trans (htable.trans
    (hcolumns.trans hsource.1)))).cast ?_
  simp [Insert.pieces]

/-! ## Updates and deletions -/

theorem ensures_assignment (h : Sound room) : Ensures room assignment input fun a rest =>
    Passes input (payload (Pieces.symbols a.pieces)) rest ∧
      a.value.WellFormed Phrase.Parsed := by
  refine ensures_bind ensures_identifier fun column mid hcolumn => ?_
  refine ensures_bind (ensures_expect _) fun _ mid' heq => ?_
  refine ensures_bind (h.expr mid') fun value rest hvalue => ensures_pure ⟨?_, hvalue.wellFormed⟩
  exact hcolumn.passes_name.trans ((heq.passes (by simp [Terminal.kind])).trans hvalue.passes)

/-- The payload of an update in order: its table, its new values and its condition. -/
theorem ensures_update (h : Sound room) : Ensures room update input fun statement rest =>
    Passes input (payload (Pieces.symbols statement.pieces)) rest ∧
      statement.WellFormed Phrase.Parsed := by
  refine ensures_bind (ensures_expect _) fun _ mid₁ hupdate => ?_
  refine ensures_bind ensures_orConflict fun orConflict mid₂ hconflict => ?_
  refine ensures_bind ensures_qualifiedName fun table mid₃ htable => ?_
  refine ensures_bind (ensures_expect _) fun _ mid₄ hset => ?_
  refine ensures_bind (ensures_commaSeparated (w := Assignment.pieces)
    (G := fun a => Expr.WellFormed Phrase.Parsed (Assignment.value a))
    fun mid => h.goal (.rule .assignment) mid) fun assignments mid₅ hassignments => ?_
  refine ensures_bind (ensures_filter? h) fun filter rest hfilter =>
    ensures_pure ⟨?_, hassignments.1, hassignments.2.2, hfilter.2⟩
  refine (hupdate.passes_keyword.trans (hconflict.trans (htable.trans (hset.passes_keyword.trans
    (hassignments.2.1.trans hfilter.1))))).cast ?_
  cases orConflict <;> simp [Update.pieces]

theorem ensures_delete (h : Sound room) : Ensures room delete input fun statement rest =>
    Passes input (payload (Pieces.symbols statement.pieces)) rest ∧
      statement.WellFormed Phrase.Parsed := by
  refine ensures_bind (ensures_expectAll _) fun _ mid₁ hall => ?_
  refine ensures_bind ensures_qualifiedName fun table mid₂ htable => ?_
  refine ensures_bind (ensures_filter? h) fun filter rest hfilter => ensures_pure ⟨?_, hfilter.2⟩
  refine ((NextAll.passes [.DELETE, .FROM] hall).trans (htable.trans hfilter.1)).cast ?_
  simp [Delete.pieces]

end Grammar

end SqlGrammar
