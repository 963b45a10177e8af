import SqlGrammar.Proofs.Parsed.Data
import SqlGrammar.Proofs.Reading.Schema

/-!
# What schema statements are read from

The statements that create, drop and alter objects are written with the payload that was taken for
them. The body of a trigger is a run of steps, each with a semicolon behind it, up to the keyword
that closes the body (`ensures_triggerBody`); nothing but that keyword ends a trigger, which is why
no semicolon does.
-/

set_option autoImplicit false

namespace SqlGrammar

open SqlGrammar.Parser Grammar

namespace Grammar

variable {room : Nat} {input : List Symbol}

/-! ## Starts of creations -/

/-- A keyword that may be missing takes no payload. -/
theorem Accepts.passes {word : Keyword} {taken : Bool} {rest : List Symbol}
    (h : Accepts word input taken rest) : Passes input [] rest := by
  rcases h with ⟨-, hnext⟩ | ⟨-, rfl, -⟩
  · exact hnext.passes_keyword
  · exact .refl _

/-- Keywords that may be missing take no payload. -/
theorem AcceptsAll.passes_of (words : List Keyword) {taken : Bool} {rest : List Symbol}
    (h : AcceptsAll (words.map Terminal.keyword) input taken rest) : Passes input [] rest := by
  rcases h with ⟨-, hall⟩ | ⟨-, rfl, -⟩
  · exact NextAll.passes words hall
  · exact .refl _

theorem ensures_ifNotExists : Ensures room ifNotExists input fun _ rest => Passes input [] rest :=
  ensures_mono (ensures_acceptAll _) fun _ _ h =>
    AcceptsAll.passes_of [.IF, .NOT, .EXISTS] h

theorem ensures_temporary : Ensures room temporary input fun _ rest => Passes input [] rest := by
  refine ensures_bind (ensures_accept _) fun taken mid htemp => ?_
  rcases htemp with ⟨rfl, hnext⟩ | ⟨rfl, rfl, -⟩
  · exact ensures_pure hnext.passes_keyword
  · exact ensures_mono (ensures_accept _) fun _ _ h => Accepts.passes h

/-- The head of a creation has words only. -/
theorem ensures_createHead (object : Keyword) :
    Ensures room (createHead object) input fun _ rest => Passes input [] rest := by
  refine ensures_bind (ensures_expect _) fun _ mid₁ hcreate => ?_
  refine ensures_bind ensures_temporary fun temporary mid₂ htemporary => ?_
  refine ensures_bind (ensures_expect _) fun _ mid₃ hobject => ?_
  refine ensures_bind ensures_ifNotExists fun ifNotExists rest hexists => ensures_pure ?_
  exact hcreate.passes_keyword.trans (htemporary.trans (hobject.passes_keyword.trans hexists))

/-! ## Tables -/

/-- A further column is taken with the comma before it. -/
theorem ensures_furtherColumn? (h : Sound room) : Ensures room furtherColumn? input
    (Finds (fun column => .operator .comma ::
        payload (Pieces.symbols (ColumnDefinition.pieces column)))
      (fun column => column.WellFormed Phrase.Parsed) input) := by
  refine ensures_isAt_bind (ensures_look_bind ?_)
  split
  · next hcomma =>
    have hkind : kindAhead input 0 = .operator .comma :=
      Terminal.accepts_iff.1 (Bool.and_eq_true _ _ ▸ hcomma).1
    refine ensures_bind (ensures_advance_next hkind (by simp)) fun _ mid hnext => ?_
    refine ensures_map (ensures_mono (h.goal (.rule .columnDefinition) mid)
      fun column rest hcolumn => ?_)
    exact .some ((hnext.passes (by simp)).trans hcolumn.1) hcolumn.2
  · exact ensures_pure .none

/-- The constraints of a table, each with the comma before it. -/
theorem ensures_constraints (h : Sound room) :
    Ensures room (listBehind [Operator.comma] Rule.tableConstraint.parse) input
      fun constraints rest => Passes input (payload (constraintsSymbols constraints)) rest ∧
        ∀ c ∈ constraints, c.rule.WellFormed Phrase.Parsed := by
  refine ensures_bind (ensures_acceptAll _) fun taken mid hcomma => ?_
  rcases hcomma with ⟨rfl, hall⟩ | ⟨rfl, rfl, -⟩
  · obtain ⟨mid', hnext, hnil⟩ := hall.uncons
    cases hnil.eq_of_nil
    refine ensures_mono (ensures_commaSeparated (w := TableConstraint.pieces)
      (G := fun c => TableRule.WellFormed Phrase.Parsed (TableConstraint.rule c))
      fun mid => h.goal (.rule .tableConstraint) mid) fun constraints rest ⟨hne, hpass, hwf⟩ => ?_
    refine ⟨((hnext.passes (by simp [Terminal.kind])).trans hpass).cast ?_, hwf⟩
    obtain ⟨c, cs, rfl⟩ := List.exists_cons_of_ne_nil hne
    -- the comma in front of the list is written in front of its first item
    rw [List.map_cons, Pieces.payload_commaList_cons, constraintsSymbols, payload_flatMap,
      List.flatMap_cons, List.flatMap_map]
    rfl
  · exact ensures_pure ⟨.refl _, by simp⟩

/-- There is a column at least; the columns and the constraints both have commas before them as
payload. -/
theorem ensures_tableEntries (h : Sound room) : Ensures room tableEntries input fun entries rest =>
    Passes input (payload (Pieces.symbols (Pieces.commaList
      (entries.1.map ColumnDefinition.pieces))) ++ payload (constraintsSymbols entries.2)) rest ∧
      (entries.1 ≠ [] ∧ ∀ c ∈ entries.1, c.WellFormed Phrase.Parsed) ∧
        ∀ c ∈ entries.2, c.rule.WellFormed Phrase.Parsed := by
  refine ensures_parenthesized fun mid => ?_
  refine ensures_bind (h.goal (.rule .columnDefinition) mid) fun first mid₁ hfirst => ?_
  refine ensures_bind (ensures_many_items fun mid => ensures_furtherColumn? h)
    fun others mid₂ hothers => ?_
  refine ensures_bind (ensures_constraints h) fun constraints rest hconstraints =>
    ensures_pure ⟨?_, ⟨by simp, ?_⟩, hconstraints.2⟩
  · refine (hfirst.1.trans (hothers.1.trans hconstraints.1)).cast ?_
    rw [List.map_cons, Pieces.payload_commaList_cons, List.flatMap_map, ← List.append_assoc]
    rfl
  · intro c hc
    rcases List.mem_cons.1 hc with rfl | hc
    · exact hfirst.2
    · exact hothers.2 c hc

/-- The word behind `WITHOUT` is written in one case only, so that no payload is promised for a text
with a `WITHOUT` in it. -/
theorem ensures_withoutRowid : Ensures room (behind? Keyword.WITHOUT (expectWord "ROWID")) input
    fun found rest => Passes input (payload (Pieces.symbols
      (if found.isSome then [.keyword .WITHOUT, .raw "ROWID"] else []))) rest := by
  refine ensures_behind (fun mid hwithout => ?_) fun _ => .refl _
  refine ensures_kind_bind ?_
  split
  · next own hkind =>
    split
    · refine ensures_mono (ensures_advance_next hkind (by simp)) fun _ rest hword => ?_
      -- another spelling of the word may have been read, but not from a plain text
      refine (hwithout.passes_keyword.trans hword.passes_name).of_not_plain fun hplain => ?_
      obtain ⟨s, hs, hkind⟩ := hwithout.mem
      exact hplain.rowid s hs hkind
    · exact ensures_unexpected
  · exact ensures_unexpected

/-- A table made `WITHOUT ROWID` is not written plainly, so that nothing is asked of its payload. -/
theorem ensures_tableBody (h : Sound room) : Ensures room tableBody input fun body rest =>
    Passes input (payload (Pieces.symbols body.pieces)) rest ∧ body.WellFormed Phrase.Parsed := by
  refine ensures_bind (ensures_accept _) fun taken mid has => ?_
  rcases has with ⟨rfl, hnext⟩ | ⟨rfl, rfl, -⟩
  · exact ensures_bind (h.select mid) fun q rest hq =>
      ensures_pure ⟨hnext.passes_keyword.trans hq.1, hq.2⟩
  refine ensures_bind (ensures_tableEntries h) ?_
  rintro ⟨own, constraints⟩ mid₁ ⟨hentries, ⟨hne, hown⟩, hconstraints⟩
  refine ensures_bind ensures_withoutRowid fun found rest hfound =>
    ensures_pure ⟨(hentries.trans hfound).cast ?_, hne, hown, hconstraints⟩
  have hsymbols := symbols_tableColumns own constraints found.isSome []
  rw [List.append_nil, List.append_nil] at hsymbols
  rw [hsymbols]
  simp [Symbol.operator]

/-- The payload of a table: its name and its body. -/
theorem ensures_createTable (h : Sound room) : Ensures room createTable input fun statement rest =>
    Passes input (payload (Pieces.symbols statement.pieces)) rest ∧
      statement.body.WellFormed Phrase.Parsed := by
  refine ensures_bind (ensures_createHead _) fun head mid₁ hhead => ?_
  refine ensures_bind ensures_qualifiedName fun name mid₂ hname => ?_
  refine ensures_bind (ensures_tableBody h) fun body rest hbody => ensures_pure ⟨?_, hbody.2⟩
  refine (hhead.trans (hname.trans hbody.1)).cast ?_
  simp [CreateTable.pieces, createPieces]

/-! ## Indexes and views -/

theorem ensures_createIndex (h : Sound room) : Ensures room createIndex input fun statement rest =>
    Passes input (payload (Pieces.symbols statement.pieces)) rest ∧
      statement.WellFormed Phrase.Parsed := by
  refine ensures_bind (ensures_expect _) fun _ mid₁ hcreate => ?_
  refine ensures_bind (ensures_accept _) fun unique mid₂ hunique => ?_
  refine ensures_bind (ensures_expect _) fun _ mid₃ hindex => ?_
  refine ensures_bind ensures_ifNotExists fun ifNotExists mid₄ hexists => ?_
  refine ensures_bind ensures_qualifiedName fun name mid₅ hname => ?_
  refine ensures_bind (ensures_expect _) fun _ mid₆ hon => ?_
  refine ensures_bind ensures_identifier fun table mid₇ htable => ?_
  refine ensures_bind (ensures_indexedColumns h) fun columns mid₈ hcolumns => ?_
  refine ensures_bind (ensures_filter? h) fun filter rest hfilter =>
    ensures_pure ⟨?_, hcolumns.2, hfilter.2⟩
  have hhead := hcreate.passes_keyword.trans ((Accepts.passes hunique).trans
    (hindex.passes_keyword.trans (hexists.trans hname)))
  refine (hhead.trans (hon.passes_keyword.trans (htable.passes_name.trans
    (hcolumns.1.trans hfilter.1)))).cast ?_
  simp [CreateIndex.pieces]

theorem ensures_createView (h : Sound room) : Ensures room createView input fun statement rest =>
    Passes input (payload (Pieces.symbols statement.pieces)) rest ∧
      statement.query.WellFormed Phrase.Parsed := by
  refine ensures_bind (ensures_createHead _) fun head mid₁ hhead => ?_
  refine ensures_bind ensures_qualifiedName fun name mid₂ hname => ?_
  refine ensures_bind ensures_identifierList? fun columns mid₃ hcolumns => ?_
  refine ensures_bind (ensures_expect _) fun _ mid₄ has => ?_
  refine ensures_bind (h.select mid₄) fun query rest hquery => ensures_pure ⟨?_, hquery.2⟩
  refine (hhead.trans (hname.trans (hcolumns.trans (has.passes_keyword.trans hquery.1)))).cast ?_
  simp [CreateView.pieces, createPieces, Select.symbols]

/-! ## Triggers -/

theorem ensures_triggerTiming? :
    Ensures room triggerTiming? input fun _ rest => Passes input [] rest := by
  refine ensures_bind (ensures_accept _) fun taken mid hbefore => ?_
  rcases hbefore with ⟨rfl, hnext⟩ | ⟨rfl, rfl, -⟩
  · exact ensures_pure hnext.passes_keyword
  refine ensures_bind (ensures_accept _) fun taken mid hafter => ?_
  rcases hafter with ⟨rfl, hnext⟩ | ⟨rfl, rfl, -⟩
  · exact ensures_pure hnext.passes_keyword
  refine ensures_bind (ensures_accept _) fun taken mid hinstead => ?_
  rcases hinstead with ⟨rfl, hnext⟩ | ⟨rfl, rfl, -⟩
  · exact ensures_bind (ensures_expect _) fun _ rest hof =>
      ensures_pure (hnext.passes_keyword.trans hof.passes_keyword)
  · exact ensures_pure (.refl _)

/-- The columns behind `UPDATE OF` are payload. -/
theorem ensures_triggerEvent : Ensures room triggerEvent input fun event rest =>
    Passes input (payload (Pieces.symbols event.pieces)) rest := by
  refine ensures_kind_bind ?_
  split
  -- a deletion
  · next hkind =>
    exact ensures_bind (ensures_advance_next hkind (by simp)) fun _ rest hnext =>
      ensures_pure hnext.passes_keyword
  -- an insertion
  · next hkind =>
    exact ensures_bind (ensures_advance_next hkind (by simp)) fun _ rest hnext =>
      ensures_pure hnext.passes_keyword
  -- an update, perhaps of some columns only
  · next hkind =>
    refine ensures_bind (ensures_advance_next hkind (by simp)) fun _ mid hnext => ?_
    refine ensures_bind (ensures_listBehind (w := fun c => [Piece.name c]) (G := fun _ => True)
      [.OF] fun mid => ensures_mono ensures_identifier fun _ _ hown =>
        ⟨hown.passes_name, trivial⟩)
      fun columns rest hcolumns => ensures_pure ?_
    refine (hnext.passes_keyword.trans hcolumns.1).cast ?_
    simp [TriggerEvent.pieces]
  · exact ensures_unexpected

/-- One case for each word that starts a step. -/
theorem ensures_triggerStep (h : Sound room) : Ensures room triggerStep input fun step rest =>
    Passes input (payload (Pieces.symbols step.pieces)) rest ∧
      step.StepWellFormed Phrase.Parsed := by
  refine ensures_kind_bind ?_
  split
  · exact ensures_map (h.goal (.rule .insert) input)
  · exact ensures_map (h.goal (.rule .insert) input)
  · exact ensures_map (h.goal (.rule .update) input)
  · exact ensures_map (h.goal (.rule .delete) input)
  · exact ensures_map (h.select input)
  · exact ensures_unsupported
  · exact ensures_unexpected

/-- A step was taken together with the semicolon behind it. -/
structure ClosedStep (step : Statement) (input rest : List Symbol) : Prop where
  moves : Moves input (payload (stepSymbols step)) rest
  shorter : rest.length < input.length
  wellFormed : step.StepWellFormed Phrase.Parsed

theorem ensures_closedStep (h : Sound room) :
    Ensures room closedStep input fun step rest => ClosedStep step input rest := by
  -- a step is read a level deeper
  refine ensures_bind (ensures_deeper fun r hr => ensures_triggerStep (h.lower hr))
    fun step mid hstep => ?_
  refine ensures_bind (ensures_expect _) fun _ rest hsemicolon => ensures_pure ?_
  obtain ⟨s, rfl, hs⟩ := hsemicolon
  have hkind : s.kind = .operator .semicolon := hs
  have hlast : Moves (s :: rest) (TokenKind.operator .semicolon).payload rest := by
    refine ⟨[s], rfl, fun _ => ?_⟩
    rw [payload_cons, hkind, payload_nil, List.append_nil]
  constructor
  · refine (hstep.1.moves.trans hlast).cast ?_
    simp [stepSymbols]
  · have hlength := hstep.1.suffix.length_le
    rw [List.length_cons] at hlength
    exact hlength
  · exact hstep.2

/-- The steps of a trigger that have been read so far. -/
structure Steps (steps : List Statement) (input rest : List Symbol) : Prop where
  moves : Moves input (payload (Pieces.symbols (stepsPieces steps))) rest
  wellFormed : ∀ s ∈ steps, s.StepWellFormed Phrase.Parsed

theorem Steps.nil (input : List Symbol) : Steps [] input input where
  moves := (Passes.refl input).moves
  wellFormed := by simp

/-- `Steps` go on with a further step and its semicolon. -/
theorem Steps.concat {steps : List Statement} {step : Statement} {mid rest : List Symbol}
    (h : Steps steps input mid) (hstep : ClosedStep step mid rest) :
    Steps (steps ++ [step]) input rest where
  moves := by
    refine (h.moves.trans hstep.moves).cast ?_
    rw [stepsPieces_eq, stepsPieces_eq, List.flatMap_append, payload_append, List.flatMap_cons,
      List.flatMap_nil, List.append_nil]
  wellFormed s hs := by
    rcases List.mem_append.1 hs with hs | hs
    · exact h.wellFormed s hs
    · rw [List.mem_singleton.1 hs]
      exact hstep.wellFormed

/-- The steps behind the first end with the keyword that closes the body. -/
theorem ensures_furtherSteps (h : Sound room) : Ensures room (many furtherStep?) input
    fun steps rest => ∃ mid, Steps steps input mid ∧ Next mid (.keyword .END) rest := by
  refine ensures_iterate (I := fun steps mid => Steps steps input mid) (.nil input)
    fun steps mid hsteps => ?_
  refine ensures_bind (R := fun found rest => match found with
    | none => Next mid (.keyword .END) rest
    | some step => ClosedStep step mid rest) ?_ fun found rest hfound => ?_
  · refine ensures_bind (ensures_accept _) fun taken mid' hend => ?_
    rcases hend with ⟨rfl, hnext⟩ | ⟨rfl, rfl, -⟩
    · exact ensures_pure hnext
    · exact ensures_map (ensures_closedStep h)
  · cases found with
    | none => exact ensures_pure ⟨fun _ => ⟨mid, hsteps, hfound⟩, nofun⟩
    | some step =>
      refine ensures_pure ⟨nofun, fun steps' heq => ?_⟩
      cases heq
      -- a step takes at least its semicolon, so that this round is not the last
      exact ⟨hsteps.concat hfound, fun hle => absurd hfound.shorter (Nat.not_lt.2 hle)⟩

theorem ensures_triggerBody (h : Sound room) : Ensures room triggerBody input fun body rest =>
    body ≠ [] ∧ ∃ mid, Steps body input mid ∧ Next mid (.keyword .END) rest := by
  refine ensures_bind (ensures_closedStep h) fun first mid hfirst => ?_
  refine ensures_bind (ensures_furtherSteps h) fun others rest ⟨mid', hothers, hend⟩ =>
    ensures_pure ⟨by simp, mid', ?_, hend⟩
  constructor
  · refine (hfirst.moves.trans hothers.moves).cast ?_
    simp [stepsPieces_eq]
  · intro s hs
    rcases List.mem_cons.1 hs with rfl | hs
    · exact hfirst.wellFormed
    · exact hothers.wellFormed s hs

/-- What ends with a keyword does not end with a semicolon. -/
theorem Finishes.of_keyword {mid rest : List Symbol} {kinds : List TokenKind} {word : Keyword}
    (h : Moves input kinds mid) (hword : Next mid (.keyword word) rest) :
    Finishes input kinds rest where
  moves := (h.trans hword.passes_keyword.moves).cast (List.append_nil kinds)
  last before s hinput := by
    obtain ⟨used, rfl, -⟩ := h
    obtain ⟨last, rfl, hlast⟩ := hword
    have happend : used ++ [last] ++ rest = before ++ [s] ++ rest := by simpa using hinput
    -- both are the last of the symbols that were taken
    have hsame : last = s := by
      have heads := List.append_cancel_right happend
      exact (List.append_inj' heads rfl).2 |> List.singleton_inj.1
    rw [← hsame, hlast]
    nofun

/-- The payload of a trigger ends with the last semicolon before `END`. -/
theorem ensures_createTrigger (h : Sound room) : Ensures room createTrigger input
    fun statement rest =>
      Finishes input (payload (Pieces.symbols statement.pieces)) rest ∧
        statement.WellFormed Phrase.Parsed := by
  refine ensures_bind (ensures_createHead _) fun head mid₁ hhead => ?_
  refine ensures_bind ensures_qualifiedName fun name mid₂ hname => ?_
  refine ensures_bind ensures_triggerTiming? fun timing mid₃ htiming => ?_
  refine ensures_bind ensures_triggerEvent fun event mid₄ hevent => ?_
  refine ensures_bind (ensures_expect _) fun _ mid₅ hon => ?_
  refine ensures_bind ensures_identifier fun table mid₆ htable => ?_
  refine ensures_bind (ensures_acceptAll _) fun forEachRow mid₇ hrow => ?_
  refine ensures_bind (h.behind .WHEN mid₇) fun condition mid₈ hcondition => ?_
  refine ensures_bind (ensures_expect _) fun _ mid₉ hbegin => ?_
  refine ensures_bind (ensures_triggerBody h) fun body rest ⟨hne, mid, hbody, hend⟩ =>
    ensures_pure ⟨?_, hcondition.2, hne, hbody.wellFormed⟩
  have hrow' := AcceptsAll.passes_of [.FOR, .EACH, .ROW] hrow
  have hbefore := hhead.trans (hname.trans (htiming.trans (hevent.trans (hon.passes_keyword.trans
    (htable.passes_name.trans (hrow'.trans (hcondition.1.trans hbegin.passes_keyword)))))))
  -- the semicolons in the body are behind its steps: only the last symbol counts
  refine Finishes.of_keyword ((hbefore.moves.trans hbody.moves).cast ?_) hend
  have hsymbols := symbols_createTrigger
    ⟨head.1, head.2, name, timing, event, table, forEachRow, condition, body⟩ []
  rw [List.append_nil] at hsymbols
  rw [hsymbols]
  simp [createPieces]

/-! ## Removal and change -/

theorem ensures_drop : Ensures room drop input fun statement rest =>
    Passes input (payload (Pieces.symbols statement.pieces)) rest := by
  refine ensures_bind (ensures_expect _) fun _ mid₁ hdrop => ensures_kind_bind ?_
  split
  · next kind hkind =>
    have hword : kindAhead mid₁ 0 = .keyword kind.keyword := by
      unfold objectKind? at hkind
      split at hkind <;> cases hkind <;> assumption
    refine ensures_bind (ensures_advance_next hword (by simp)) fun _ mid₂ hobject => ?_
    refine ensures_bind (ensures_acceptAll _) fun ifExists mid₃ hexists => ?_
    refine ensures_bind ensures_qualifiedName fun name rest hname => ensures_pure ?_
    refine (hdrop.passes_keyword.trans (hobject.passes_keyword.trans
      ((AcceptsAll.passes_of [.IF, .EXISTS] hexists).trans hname))).cast ?_
    simp [Drop.pieces]
  · exact ensures_unexpected

theorem ensures_alterAction (h : Sound room) : Ensures room alterAction input fun action rest =>
    Passes input (payload (Pieces.symbols action.pieces)) rest ∧
      action.WellFormed Phrase.Parsed := by
  refine ensures_kind_bind ?_
  split
  -- another name for the table
  · refine ensures_bind (ensures_expectAll _) fun _ mid hall => ?_
    refine ensures_bind ensures_identifier fun own rest hown => ensures_pure ⟨?_, trivial⟩
    refine ((NextAll.passes [.RENAME, .TO] hall).trans hown.passes_name).cast ?_
    simp [AlterAction.pieces]
  -- a further column
  · next hkind =>
    refine ensures_bind (ensures_advance_next hkind (by simp)) fun _ mid₁ hadd => ?_
    refine ensures_bind (ensures_accept _) fun taken mid₂ hcolumn => ?_
    refine ensures_bind (h.goal (.rule .columnDefinition) mid₂) fun column rest hdefinition =>
      ensures_pure ⟨?_, hdefinition.2⟩
    refine (hadd.passes_keyword.trans ((Accepts.passes hcolumn).trans hdefinition.1)).cast ?_
    simp [AlterAction.pieces, Rule.pieces]
  · exact ensures_unexpected

theorem ensures_alter (h : Sound room) : Ensures room alter input fun statement rest =>
    Passes input (payload (Pieces.symbols statement.pieces)) rest ∧
      statement.action.WellFormed Phrase.Parsed := by
  refine ensures_bind (ensures_expectAll _) fun _ mid₁ hall => ?_
  refine ensures_bind ensures_qualifiedName fun table mid₂ htable => ?_
  refine ensures_bind (ensures_alterAction h) fun action rest haction =>
    ensures_pure ⟨?_, haction.2⟩
  refine ((NextAll.passes [.ALTER, .TABLE] hall).trans (htable.trans haction.1)).cast ?_
  simp [Alter.pieces]

end Grammar

end SqlGrammar
