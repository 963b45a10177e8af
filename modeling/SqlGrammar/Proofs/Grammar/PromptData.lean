import SqlGrammar.Proofs.Grammar.PromptDefinition

/-!
# Data statements are prompt

Insertions, updates and deletions. Behind the table of an insertion may stand its columns, or what
its rows come from.
-/

set_option autoImplicit false

namespace SqlGrammar.Grammar

open SqlGrammar.Parser Keyword

variable {limit room : Nat} {c : Cursor} (hgoals : GoalsPrompt limit room)

include hgoals

/-! ## Insertions -/

omit hgoals in
/-- A resolution is left out before anything but `OR`. -/
theorem prompt_conflictBehind {fit : List Symbol → Prop}
    (hne : ∀ ss, fit ss → kindAhead ss 0 ≠ .keyword .OR) :
    Prompt productions limit room (behind? OR conflictResolution) fit (fun _ => fit) :=
  prompt_behind? rfl strict_conflictResolution.prompt (fun _ _ _ => trivial) hne

omit hgoals in
/-- What stands behind the word for an insertion. -/
theorem prompt_insertVerb : Prompt productions limit room
    (do
      match ← behind? OR conflictResolution with
      | some resolution => return InsertVerb.insertOr resolution
      | none => return InsertVerb.insert)
    (StartsWith INTO) (fun _ => StartsWith INTO) := by
  refine prompt_bind (fun resolution => prompt_of_pure ?_) (fun _ _ => id)
    (prompt_conflictBehind fun _ hss => ne_of_startsWith hss (by decide))
  split <;> exact ⟨_, rfl⟩

omit hgoals in
/-- An insertion starts with `INSERT` or `REPLACE`, which its error names. -/
theorem strict_insertVerb : Strict productions limit room insertVerb (fun _ => True)
    (fun _ => StartsWith INTO) := by
  have hreplace : Prompt productions limit room (pure InsertVerb.replace) (StartsWith INTO)
      (fun _ => StartsWith INTO) := prompt_give fun _ => id
  exact Prompt.anywhere (prompt_accept rfl hreplace (strict_expect_bind prompt_insertVerb).prompt
    fun _ hss => ne_of_startsWith hss (by decide))

omit hgoals in
theorem offers_insertVerb {word : Keyword} (hword : word ∈ Rule.insert.firstWords) :
    Offers productions insertVerb (StartsWith word) (fun _ => StartsWith INTO) word := by
  simp only [Rule.firstWords, List.mem_cons, List.not_mem_nil, or_false] at hword
  rcases hword with rfl | rfl
  · have hverb : Prompt productions 0 0 _ _ _ := prompt_insertVerb
    exact hverb.writable.offers
      (fun _ _ _ _ hs hread => reads_bind (reads_accept_false (ne_of_startsWith hs (by decide)))
        (reads_bind (reads_expect hs) hread)) fun _ _ hs _ => hs
  · exact (writable_pure InsertVerb.replace).offers
      (fun _ _ _ _ hs hread => reads_bind (reads_accept_true hs) hread) fun _ _ hs _ => hs

/-- The values of a row stand in parentheses, which end them. -/
theorem strict_row : Strict productions limit room row (StartsWith Operator.leftParen)
    (fun _ _ => True) :=
  strict_parenthesized (strict_exprsBefore hgoals rfl (by decide)).prompt

omit hgoals in
/-- What rows come from starts here. -/
def StartsSource (ss : List Symbol) : Prop :=
  kindAhead ss 0 ∈ [TokenKind.keyword .VALUES, .keyword .SELECT, .keyword .WITH] ∨
    terminalsAhead ss 0 [DEFAULT, VALUES] = true

omit hgoals in
theorem StartsSource.of_kind {ss : List Symbol} {kind : TokenKind} (h : kindAhead ss 0 = kind)
    (hkind : kind ∈ [TokenKind.keyword .VALUES, .keyword .SELECT, .keyword .WITH]) :
    StartsSource ss := .inl (h ▸ hkind)

omit hgoals in
/-- A source starts with one of four words. -/
theorem StartsSource.ne {ss : List Symbol} {kind : TokenKind} (h : StartsSource ss)
    (hkind : kind ∉ [TokenKind.keyword .DEFAULT, .keyword .VALUES, .keyword .SELECT,
      .keyword .WITH]) : kindAhead ss 0 ≠ kind := by
  rintro rfl
  rcases h with h | h
  · exact hkind (List.mem_cons_of_mem _ h)
  · rw [show kindAhead ss 0 = .keyword .DEFAULT from startsWith_of_terminalsAhead h] at hkind
    exact hkind List.mem_cons_self

/-- A row is left by a comma, or by what ends the statement. -/
theorem strict_rows : Strict productions limit room (commaSeparated row)
    (StartsWith Operator.leftParen) (fun _ => EndsStatement) :=
  strict_commaSeparated (strict_row hgoals) (fun _ _ _ => trivial) (fun _ _ _ => trivial)
    (fun _ hss => hss.opens.ne (by decide)) (loopMoves_behind _ _)

/-- A query offers `SELECT`, which it starts with. -/
theorem offers_select : Offers productions select (StartsWith SELECT) (fun _ => EndsStatement)
    SELECT :=
  offers_of_endsStatement (strict_select hgoals).writable fun _ => id

/-- Each word that is named where no rows come from can start what they come from. -/
theorem offers_insertSource {t : Terminal}
    (ht : t ∈ Terminal.named ["VALUES", "SELECT", "DEFAULT"]) :
    Offers productions insertSource StartsSource (fun _ => EndsStatement) t := by
  have hmem := Terminal.mem_of_named [VALUES, SELECT, DEFAULT] [] rfl ht
  simp only [List.mem_cons, List.not_mem_nil, or_false] at hmem
  rcases hmem with rfl | rfl | rfl
  · exact ((strict_rows hgoals).map InsertSource.values).writable.offers
      (fun s ss v rest hs hread => reads_bind
        (reads_acceptAll_false (terminalsAhead_of_ne (ne_of_startsWith hs (by decide))))
        (reads_bind (reads_accept_true hs) hread)) fun s ss hs _ => .of_kind hs (by decide)
  · have hquery : Offers productions (InsertSource.query <$> Rule.select.parse)
        (StartsWith SELECT) (fun _ => EndsStatement) SELECT :=
      Completable.map InsertSource.query
        (Completable.goal (g := Goal.rule .select) (offers_select hgoals))
    refine Completable.of_reads hquery fun ss v rest hss hread => ⟨.of_kind hss (by decide), ?_⟩
    have hne {word : Keyword} (hword : word ≠ SELECT) : kindAhead ss 0 ≠ .keyword word :=
      ne_of_startsWith hss fun heq => hword (TokenKind.keyword.inj heq).symm
    refine reads_bind (reads_acceptAll_false (terminalsAhead_of_ne (hne (by decide))))
      (reads_bind (reads_accept_false (hne (by decide))) (reads_bind (reads_isAt _ _)
        (reads_bind (reads_isAt _ _) ?_)))
    rw [hss]
    exact hread
  · refine ⟨[.terminal VALUES], .defaults, fun tail htail => ⟨.inr rfl, ?_⟩⟩
    exact reads_bind (reads_acceptAll_of_kinds rfl) (reads_pure _ tail)

omit hgoals in
/-- Where no source starts, the error names the three words that could stand there. -/
theorem run_insertSource_of_not (h : ¬ StartsSource c.symbols) :
    insertSource.run productions limit room _ c =
      .failed (c.unexpected ["VALUES", "SELECT", "DEFAULT"]) c := by
  rw [StartsSource, ← c.kindAt_eq, not_or] at h
  have hne {word : Keyword}
      (hword : TokenKind.keyword word ∈ [TokenKind.keyword .VALUES, .keyword .SELECT,
        .keyword .WITH]) : c.kindAt 0 ≠ (Terminal.keyword word).kind := by
    intro heq
    rw [heq] at h
    exact h.1 hword
  have hat {word : Keyword}
      (hword : TokenKind.keyword word ∈ [TokenKind.keyword .VALUES, .keyword .SELECT,
        .keyword .WITH]) : Terminal.accepts word (c.kindAt 0) = false :=
    Bool.eq_false_iff.2 (mt Terminal.accepts_iff.1 (hne hword))
  rw [insertSource, run_bind_of_done (run_acceptAll_of_false (Bool.eq_false_iff.2 h.2)),
    if_neg Bool.false_ne_true, run_bind_of_done (run_accept_of_ne (hne (by decide))),
    if_neg Bool.false_ne_true, run_bind_of_done (run_isAt _), run_bind_of_done (run_isAt _),
    hat (by decide), hat (by decide), Bool.or_false, if_neg Bool.false_ne_true]
  exact run_unexpected limit room c _

/-- Where rows come from. A query is the same choice, whatever it is. -/
theorem strict_insertSource : Strict productions limit room insertSource StartsSource
    (fun _ => EndsStatement) where
  writable := (offers_insertSource hgoals (t := SELECT) (Terminal.mem_named.2 (by decide))).writable
  promptAt c := by
    by_cases hstart : StartsSource c.symbols
    · refine promptAt_acceptAll (fun taken c' _ hkinds => ?_) fun hahead => ?_
      · have hdefaults : Strict productions limit room (pure InsertSource.defaults)
            (fun _ => True) (fun _ => EndsStatement) := (prompt_give fun _ => id).anywhere
        have henter (new : List Symbol) (_ : True) : StartsSource (taken ++ new) :=
          .inr (terminalsAhead_of_kinds new hkinds)
        exact ⟨hdefaults.writable.mono henter fun _ _ => id,
          (hdefaults.promptAt c').mono henter fun _ _ => id⟩
      have hdefault {ss : List Symbol} (hne : kindAhead ss 0 ≠ .keyword .DEFAULT) :
          terminalsAhead ss 0 [DEFAULT, VALUES] = false := terminalsAhead_of_ne hne
      refine promptAt_accept (fun s ss _ hs => ?_) fun hvalues => ?_
      · exact ((strict_rows hgoals).map InsertSource.values).behind fun new _ =>
          ⟨.of_kind hs (by decide), hdefault (ne_of_startsWith hs (by decide))⟩
      -- neither of the words that come before a query stands here
      have hquery : c.kindAt 0 = .keyword .SELECT ∨ c.kindAt 0 = .keyword .WITH := by
        rcases hstart with hword | hdefault
        · rw [← c.kindAt_eq] at hword
          simp only [List.mem_cons, List.not_mem_nil, or_false] at hword
          exact hword.resolve_left hvalues
        · rw [hahead] at hdefault
          cases hdefault
      have hopens : opensQuery (c.kindAt 0) = true := by
        rcases hquery with h | h <;> rw [h] <;> rfl
      refine promptAt_isAt _ (promptAt_isAt _ ?_)
      rw [show (Terminal.accepts SELECT (c.kindAt 0) || Terminal.accepts WITH (c.kindAt 0)) = true
        from hopens]
      refine PromptAt.map InsertSource.query ((hgoals.sameHead .select rfl
        (quietAt_query hopens)).mono (fun ss hss => ?_) fun _ _ => id)
      obtain ⟨-, hsame⟩ := hss
      have hkind : kindAhead ss 0 = .keyword .SELECT ∨ kindAhead ss 0 = .keyword .WITH := by
        rwa [hsame]
      refine ⟨⟨⟨⟨?_, hdefault ?_⟩, ?_⟩, by rw [hsame]⟩, by rw [hsame]⟩ <;>
        rcases hkind with h | h
      all_goals first
        | exact .of_kind h (by decide)
        | rw [h]; nofun
    · exact promptAt_of_failed (run_insertSource_of_not hstart) fun t ht _ =>
        offers_insertSource hgoals ht

/-- What stands behind the verb of an insertion. -/
theorem prompt_insertBody (verb : InsertVerb) : Prompt productions limit room
    (do
      expect INTO
      let table ← qualifiedName
      let columns ← identifierList?
      return Insert.mk verb table columns (← insertSource))
    (StartsWith INTO) (fun _ => EndsStatement) := by
  have hsource (table : QualifiedName) (columns : List String) :=
    ((strict_insertSource hgoals).map (Insert.mk verb table columns)).prompt
  have hcolumns : Prompt productions limit room identifierList? StartsSource
      (fun _ => StartsSource) := prompt_identifierList? fun _ hss => hss.ne (by decide)
  exact (strict_expect_bind (strict_bind (fun table => prompt_bind (hsource table)
    (fun _ _ => id) hcolumns) (fun _ _ hss => hss.ne (by decide))
    strict_qualifiedName).prompt).prompt

/-- The parts of an insertion in order, up to its source. -/
theorem strict_insert : Strict productions limit room insert (fun _ => True)
    (fun _ => EndsStatement) :=
  strict_bind (prompt_insertBody hgoals) (fun _ _ => id) strict_insertVerb

/-- An insertion offers both of its first words. -/
theorem offers_insert {word : Keyword} (hword : word ∈ Rule.insert.firstWords) :
    Offers productions insert (StartsWith word) (fun _ => EndsStatement) word :=
  Completable.bind (offers_insertVerb hword) fun verb => (prompt_insertBody hgoals verb).writable

/-! ## Updates and deletions -/

/-- A new value is an expression, and left by what ends one. -/
theorem strict_assignment : Strict productions limit room assignment (fun _ => True)
    (fun _ ss => endsExpr (kindAhead ss 0) = true) := by
  have hvalue (column : String) : Prompt productions limit room
      (expect Operator.eq >>= fun _ => Assignment.mk column <$> Rule.expr.parse)
      (StartsWith Operator.eq) (fun _ ss => endsExpr (kindAhead ss 0) = true) :=
    (strict_expect_bind
      ((hgoals.expr.mono (fun _ => id) fun _ _ => .of_endsExpr).map _).prompt).prompt
  exact (strict_bind hvalue (fun _ _ _ => trivial) strict_identifier).mono (fun _ _ => trivial)
    fun _ _ => id

/-- A condition is left out before anything but `WHERE`. -/
theorem prompt_filter? : Prompt productions limit room filter? EndsStatement
    (fun _ => EndsStatement) := prompt_exprBehind hgoals .WHERE (by decide) rfl

/-- The parts of an update in order, up to its condition. -/
theorem strict_update : Strict productions limit room update (StartsWith UPDATE)
    (fun _ => EndsStatement) := by
  have hassignments : Strict productions limit room (commaSeparated Rule.assignment.parse)
      (fun _ => True) (fun _ => EndsStatement) :=
    strict_commaSeparated (hgoals.parse .assignment rfl)
      (fun _ _ hss => endsExpr_of_endsItem (endsItem_of_comma hss))
      (fun _ _ hss => hss.opens.all rfl) (fun _ hss => hss.opens.ne (by decide))
      (loopMoves_behind _ _)
  have hconflict : Prompt productions limit room (behind? OR conflictResolution) StartsName
      (fun _ => StartsName) := prompt_conflictBehind fun _ hss => TokenKind.ne_of_holds hss rfl
  have hset (orConflict : Option ConflictResolution) (table : QualifiedName) :=
    (strict_expect_bind (t := SET) (prompt_bind (fun assignments =>
      (prompt_filter? hgoals).map (Update.mk orConflict table assignments)) (fun _ _ => id)
      hassignments.prompt)).prompt
  exact strict_expect_bind (prompt_bind (fun orConflict => prompt_bind (hset orConflict)
    (fun _ _ hss => ne_of_startsWith hss (by decide)) strict_qualifiedName.prompt)
    (fun _ _ => id) hconflict)

theorem offers_update : Offers productions update (StartsWith UPDATE) (fun _ => EndsStatement)
    UPDATE :=
  offers_of_endsStatement (strict_update hgoals).writable fun _ => id

/-- Both words of a deletion are there, then its table and its condition. -/
theorem strict_delete : Strict productions limit room delete
    (fun ss => terminalsAhead ss 0 [DELETE, FROM] = true) (fun _ => EndsStatement) :=
  strict_bind (fun _ => prompt_bind (fun table => (prompt_filter? hgoals).map (Delete.mk table))
    (fun _ _ hss => hss.opens.ne (by decide)) strict_qualifiedName.prompt) (fun _ _ _ => trivial)
    (strict_expectAll _)

theorem offers_delete : Offers productions delete (StartsWith DELETE) (fun _ => EndsStatement)
    DELETE :=
  offers_of_endsStatement (strict_delete hgoals).writable fun _ => startsWith_of_terminalsAhead

end SqlGrammar.Grammar
