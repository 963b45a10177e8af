import SqlGrammar.Proofs.Creation
import SqlGrammar.Proofs.Grammar.PromptSchema

/-!
# Statements are prompt

All productions of parts of statements are prompt one level above goals that are, and so are the
goals of all levels (`goalsPrompt`). A whole statement is prompt unless it is the creation of an
object of no known kind, which fails at the word for the kind and names all four of them. What
stands before that word can be completed by those of the four that it suits
(`completable_creation`): the creation of such an object takes as much, and fails at the same place.
-/

set_option autoImplicit false

namespace SqlGrammar.Grammar

open SqlGrammar.Parser Keyword

variable {limit room : Nat} {c : Cursor}

/-! ## Creations of no known object -/

/-- Where a creation of no known object fails. -/
def unknownObject (c : Cursor) : Cursor :=
  if modifiesCreation (c.kindAt 1) then c.advance.advance else c.advance

section Unknown

variable (hcreate : c.kindAt 0 = .keyword .CREATE)

include hcreate

theorem kindAt_advance_create (n : Nat) : c.advance.kindAt n = c.kindAt (n + 1) :=
  c.kindAt_advance (by rw [hcreate]; nofun) n

theorem run_unknownCreation : unknownCreation.run productions limit room _ c =
    .failed ((unknownObject c).unexpected ["TABLE", "INDEX", "VIEW", "TRIGGER"])
      (unknownObject c) := by
  rw [unknownCreation, run_bind_of_done (run_expect_of_eq (t := CREATE) hcreate), kind,
    run_bind_of_done (run_look limit room c.advance 0), kindAt_advance_create hcreate,
    unknownObject]
  cases modifiesCreation (c.kindAt (0 + 1)) with
  | true =>
    exact (run_bind_of_done (run_advance limit room c.advance)).trans
      (run_unexpected limit room _ _)
  | false => exact run_unexpected limit room _ _

variable (hnone : createdKind? (c.kindAt 1) (c.kindAt 2) = none)

include hnone

/-- No object stands where the creation fails. -/
theorem objectKind?_unknownObject : objectKind? ((unknownObject c).kindAt 0) = none := by
  rw [createdKind?] at hnone
  rw [unknownObject]
  cases hmodifies : modifiesCreation (c.kindAt 1) with
  | true =>
    rw [if_pos hmodifies] at hnone
    have hne : c.advance.kindAt 0 ≠ .eof := by
      rw [kindAt_advance_create hcreate]
      intro heof
      rw [heof] at hmodifies
      cases hmodifies
    rwa [if_pos rfl, c.advance.kindAt_advance hne, kindAt_advance_create hcreate]
  | false =>
    rw [hmodifies] at hnone
    rwa [if_neg Bool.false_ne_true, kindAt_advance_create hcreate]

omit hnone in
/-- What such a creation has taken when it fails. -/
theorem exists_taken_unknownObject : ∃ used, c.symbols = used ++ (unknownObject c).symbols ∧
    used.map Symbol.kind = if modifiesCreation (c.kindAt 1) then [.keyword .CREATE, c.kindAt 1]
      else [.keyword .CREATE] := by
  obtain ⟨s, ss, hsymbols, hs⟩ := exists_symbols_of_kindAt hcreate nofun
  have hfirst := symbols_eq_singleton_append hsymbols (by rw [hs]; nofun)
  rw [unknownObject]
  cases hmodifies : modifiesCreation (c.kindAt 1) with
  | false => exact ⟨[s], hfirst, by rw [List.map_singleton, hs]; rfl⟩
  | true =>
    have hne : c.kindAt 1 ≠ .eof := by
      intro heof
      rw [heof] at hmodifies
      cases hmodifies
    obtain ⟨s', ss', hsymbols', hs'⟩ :=
      exists_symbols_of_kindAt (kindAt_advance_create hcreate 0) hne
    have hsecond := symbols_eq_singleton_append hsymbols' (by rwa [hs'])
    refine ⟨[s, s'], ?_, ?_⟩
    · rw [hfirst, hsecond]
      rfl
    · rw [List.map_cons, List.map_singleton, hs, hs']
      rfl

variable (object : ObjectKind)

/-- The word for an object is missing where the creation fails. -/
theorem run_expect_unknownObject :
    (expect object.keyword).run productions limit room _ (unknownObject c) =
      .failed ((unknownObject c).unexpected [object.keyword.text]) (unknownObject c) := by
  refine run_expect_of_ne fun heq => ?_
  have hobject := objectKind?_unknownObject hcreate hnone
  rw [heq] at hobject
  cases object <;> cases hobject

/-- The word behind `CREATE` suits the object, if it is one that says what the object is like. -/
def Admitted (c : Cursor) (object : ObjectKind) : Prop :=
  ∀ word, c.kindAt 1 = .keyword word → modifiesCreation (.keyword word) = true →
    object.admits word = true

omit hcreate hnone in
variable {object} in
theorem Admitted.ne (h : Admitted c object) {word : Keyword}
    (hmodifies : modifiesCreation (.keyword word) = true) (hunfit : object.admits word = false) :
    c.kindAt 1 ≠ .keyword word := by
  intro hkind
  rw [h word hkind hmodifies] at hunfit
  cases hunfit

theorem run_createIndex_of_none (hadmitted : Admitted c .index) :
    createIndex.run productions limit room _ c =
      .failed ((unknownObject c).unexpected [INDEX.text]) (unknownObject c) := by
  have hunique : ∃ set, (accept UNIQUE).run productions limit room _ c.advance =
      .done set (unknownObject c) := by
    have hkind := kindAt_advance_create hcreate 0
    by_cases hunique : c.kindAt 1 = .keyword .UNIQUE
    · refine ⟨true, (run_accept_of_eq (t := UNIQUE) (hkind.trans hunique)).trans ?_⟩
      rw [unknownObject, hunique]
      rfl
    have hplain : modifiesCreation (c.kindAt 1) = false := by
      unfold modifiesCreation
      split
      · exact absurd ‹_› (hadmitted.ne rfl rfl)
      · exact absurd ‹_› (hadmitted.ne rfl rfl)
      · exact absurd ‹_› hunique
      · rfl
    refine ⟨false, ?_⟩
    rw [unknownObject, hplain]
    exact run_accept_of_ne (t := UNIQUE) (hkind ▸ hunique)
  obtain ⟨set, hunique⟩ := hunique
  rw [createIndex, run_bind_of_done (run_expect_of_eq (t := CREATE) hcreate),
    run_bind_of_done hunique]
  exact run_bind_of_failed (run_expect_unknownObject hcreate hnone .index)

theorem run_createHead_of_none (hunique : c.kindAt 1 ≠ .keyword .UNIQUE) :
    (createHead object.keyword).run productions limit room _ c =
      .failed ((unknownObject c).unexpected [object.keyword.text]) (unknownObject c) := by
  have htemporary : ∃ set, temporary.run productions limit room _ c.advance =
      .done set (unknownObject c) := by
    have hkind := kindAt_advance_create hcreate 0
    by_cases htemp : c.kindAt 1 = .keyword .TEMP
    · refine ⟨true, (run_bind_of_done (run_accept_of_eq (t := TEMP) (hkind.trans htemp))).trans ?_⟩
      rw [unknownObject, htemp]
      exact run_pure limit room _ true
    by_cases htemporary : c.kindAt 1 = .keyword .TEMPORARY
    · refine ⟨true, (run_bind_of_done (run_accept_of_ne (t := TEMP) (hkind ▸ htemp))).trans ?_⟩
      rw [unknownObject, htemporary]
      exact run_accept_of_eq (t := TEMPORARY) (hkind.trans htemporary)
    have hplain : modifiesCreation (c.kindAt 1) = false := by
      unfold modifiesCreation
      split
      · exact absurd ‹_› htemp
      · exact absurd ‹_› htemporary
      · exact absurd ‹_› hunique
      · rfl
    refine ⟨false, (run_bind_of_done (run_accept_of_ne (t := TEMP) (hkind ▸ htemp))).trans ?_⟩
    rw [unknownObject, hplain]
    exact run_accept_of_ne (t := TEMPORARY) (hkind ▸ htemporary)
  obtain ⟨set, htemporary⟩ := htemporary
  rw [createHead, run_bind_of_done (run_expect_of_eq (t := CREATE) hcreate),
    run_bind_of_done htemporary]
  exact run_bind_of_failed (run_expect_unknownObject hcreate hnone object)

end Unknown

section Goals

variable (hgoals : GoalsPrompt limit room)

include hgoals

/-- What a creation of no known object has taken is completed by each object that it suits. -/
theorem completable_creation (hbelow : ∀ below, room = below + 1 → GoalsPrompt limit below)
    (hcreate : c.kindAt 0 = .keyword .CREATE)
    (hnone : createdKind? (c.kindAt 1) (c.kindAt 2) = none) {object : ObjectKind}
    (hadmitted : Admitted c object) {used : List Symbol} {next : List Filler}
    (hused : c.symbols = used ++ (unknownObject c).symbols)
    (hnext : Demanded used [object.keyword.text] next) :
    Completable productions creation (fun _ => True) (fun _ => EndsStatement) used next := by
  have hlift {r : Rule} (f : r.Tree → Statement)
      (hprompt : PromptAt productions limit room (rule r) (StartsCreation object)
        (fun _ => EndsStatement) c)
      (hrun : (rule r).run productions limit room _ c =
        .failed ((unknownObject c).unexpected [object.keyword.text]) (unknownObject c))
      (hreads : ∀ ss v rest, StartsCreation object ss → Reads (f <$> r.parse) ss v rest →
        Reads creation ss v rest) :
      Completable productions creation (fun _ => True) (fun _ => EndsStatement) used next := by
    obtain ⟨used', hused', hmore⟩ := hprompt.failed _ _ _ _ hrun
    obtain rfl : used' = used := List.append_cancel_right (hused'.symm.trans hused)
    have hrule : Completable productions (f <$> r.parse) (StartsCreation object)
        (fun _ => EndsStatement) used' next :=
      Completable.map f (Completable.goal (g := Goal.rule r) (hmore next hnext))
    exact hrule.of_reads fun ss v rest hss hread => ⟨trivial, hreads ss v rest hss hread⟩
  cases object with
  | table =>
    exact hlift (r := .createTable) Statement.createTable ((strict_createTable hgoals).promptAt c)
      (run_bind_of_failed (run_createHead_of_none hcreate hnone .table (hadmitted.ne rfl rfl)))
      fun _ _ _ hstart hread => reads_creation .table hstart hread
  | index =>
    exact hlift (r := .createIndex) Statement.createIndex ((strict_createIndex hgoals).promptAt c)
      (run_createIndex_of_none hcreate hnone hadmitted)
      fun _ _ _ hstart hread => reads_creation .index hstart hread
  | view =>
    exact hlift (r := .createView) Statement.createView ((strict_createView hgoals).promptAt c)
      (run_bind_of_failed (run_createHead_of_none hcreate hnone .view (hadmitted.ne rfl rfl)))
      fun _ _ _ hstart hread => reads_creation .view hstart hread
  | trigger =>
    exact hlift (r := .createTrigger) Statement.createTrigger
      ((strict_createTrigger hgoals hbelow).promptAt c)
      (run_bind_of_failed (run_createHead_of_none hcreate hnone .trigger (hadmitted.ne rfl rfl)))
      fun _ _ _ hstart hread => reads_creation .trigger hstart hread

theorem promptAt_creation (hcreate : c.kindAt 0 = .keyword .CREATE)
    (hknown : createdKind? (c.kindAt 1) (c.kindAt 2) ≠ none) :
    PromptAt productions limit room creation (fun ss => kindAhead ss 0 = c.kindAt 0)
      (fun _ => EndsStatement) c := by
  have hobject (object : ObjectKind) (r : Rule) (f : r.Tree → Statement) (hr : r.isPart = true)
      (hends : r.Leaves = EndsStatement) (henters : r.Enters = StartsCreation object)
      (hword : CREATE ∈ r.firstWords)
      (hrun : creation.run productions limit room _ c =
        (f <$> r.parse).run productions limit room _ c)
      (hreads : ∀ ss v rest, StartsCreation object ss → Reads (f <$> r.parse) ss v rest →
        Reads creation ss v rest) :
      PromptAt productions limit room creation (fun ss => kindAhead ss 0 = c.kindAt 0)
        (fun _ => EndsStatement) c :=
    promptAt_step (List.nil_append c.symbols).symm hrun
      (fun ss v rest hss => hreads ss v rest (henters ▸ hss.1)) (fun _ hss => hss.2)
      (PromptAt.map f (hends ▸ hgoals.sameHead r hr (quietAt_parse_of_mem hword hcreate)))
      fun hne => absurd rfl hne
  cases hkind : createdKind? (c.kindAt 1) (c.kindAt 2) with
  | none => exact absurd hkind hknown
  | some object =>
    have hrun : creation.run productions limit room _ c = _ :=
      (run_bind_of_done (run_look limit room c 1)).trans
        (run_bind_of_done (run_look limit room c 2))
    rw [hkind] at hrun
    cases object with
    | table =>
      exact hobject .table .createTable Statement.createTable rfl rfl rfl (by decide) hrun
        fun _ _ _ hstart hread => reads_creation .table hstart hread
    | index =>
      exact hobject .index .createIndex Statement.createIndex rfl rfl rfl (by decide) hrun
        fun _ _ _ hstart hread => reads_creation .index hstart hread
    | view =>
      exact hobject .view .createView Statement.createView rfl rfl rfl (by decide) hrun
        fun _ _ _ hstart hread => reads_creation .view hstart hread
    | trigger =>
      exact hobject .trigger .createTrigger Statement.createTrigger rfl rfl rfl (by decide) hrun
        fun _ _ _ hstart hread => reads_creation .trigger hstart hread

/-- The creation of a table is one that a statement may start with. -/
theorem offers_creation : Offers productions creation (fun _ => True) (fun _ => EndsStatement)
    CREATE := by
  have htable : Offers productions (Statement.createTable <$> Rule.createTable.parse)
      (fun ss => StartsWith CREATE ss ∧ StartsCreation .table ss) (fun _ => EndsStatement)
      CREATE :=
    Completable.map Statement.createTable
      (Completable.goal (g := Goal.rule .createTable) (offers_createTable hgoals))
  exact Completable.of_reads htable fun ss v rest hss hread =>
    ⟨trivial, reads_creation .table hss.2 hread⟩

/-! ## Statements -/

omit hgoals in
/-- The creation of an object of no known kind starts here. -/
def OpensUnknown (c : Cursor) : Prop :=
  c.kindAt 0 = .keyword .CREATE ∧ createdKind? (c.kindAt 1) (c.kindAt 2) = none

theorem promptAt_statement (hknown : ¬ OpensUnknown c) :
    PromptAt productions limit room statement (fun _ => True) (fun _ => EndsStatement) c := by
  refine promptAt_branches
    ["SELECT", "INSERT", "REPLACE", "UPDATE", "DELETE", "CREATE", "DROP", "ALTER"]
    [SELECT, INSERT, REPLACE, UPDATE, DELETE, CREATE, DROP, ALTER] rfl
    (fun now hnow => ?_) fun t ht => ?_
  · split
    all_goals first
      | exact .inl rfl
      | exact .inr ⟨_, rfl⟩
      | simp [Terminal.kind] at hnow
  · simp only [List.mem_cons, List.not_mem_nil, or_false] at ht
    rcases ht with rfl | rfl | rfl | rfl | rfl | rfl | rfl | rfl
    · exact hgoals.branch .select rfl Statement.select (by decide) (offers_select hgoals)
        fun _ _ => trivial
    · exact hgoals.branch .insert rfl Statement.insert (by decide)
        (offers_insert hgoals (by decide)) fun _ _ => trivial
    · exact hgoals.branch .insert rfl Statement.insert (by decide)
        (offers_insert hgoals (by decide)) fun _ _ => trivial
    · exact hgoals.branch .update rfl Statement.update (by decide) (offers_update hgoals)
        fun _ _ => trivial
    · exact hgoals.branch .delete rfl Statement.delete (by decide) (offers_delete hgoals)
        fun _ _ => trivial
    · refine ⟨offers_creation hgoals, fun hcreate => ?_⟩
      exact (promptAt_creation hgoals hcreate fun hnone => hknown ⟨hcreate, hnone⟩).mono
        (fun _ hss => ⟨trivial, hss.trans hcreate⟩) fun _ _ => id
    · exact hgoals.branch .drop rfl Statement.drop (by decide) offers_drop fun _ _ => trivial
    · exact hgoals.branch .alter rfl Statement.alter (by decide) (offers_alter hgoals)
        fun _ _ => trivial

end Goals

/-! ## Something to read for each goal -/

/-- A well-formed tree is read back before whatever its rule may leave. For an expression that is
less than what ends an expression, and says nothing about the end of its own. -/
theorem reads_before {r : Rule} {tree : r.Tree} {tail : List Symbol} (hr : r ≠ .expr)
    (h : r.WellFormed Phrase.Unambiguous tree) (htail : r.Leaves tail) :
    Reads (rule r) (Pieces.symbols (r.pieces tree) ++ tail) (r.regroup .written tree) tail := by
  have hopens (hends : EndsStatement tail) : Opens [] tail := hends.opens
  cases r with
  | statement => exact reads_statement h (hopens htail)
  | select => exact Phrase.readsBack h tail htail
  | insert => exact reads_insert h (hopens htail)
  | update => exact reads_update h (hopens htail)
  | delete => exact reads_delete h (hopens htail)
  | createTable => exact reads_createTable h (hopens htail)
  | createIndex => exact reads_createIndex h (hopens htail)
  | createView => exact reads_createView h (hopens htail)
  | createTrigger => exact reads_createTrigger h tail
  | drop => exact reads_drop tree ((hopens htail).ne (by decide))
  | alter => exact reads_alter h (EndsStatement.endsDefinition htail)
  | expr => exact absurd rfl hr
  | literal =>
    obtain ⟨s, hs, hkind⟩ := Literal.symbols_pieces h
    rw [Rule.pieces, hs]
    exact reads_literal hkind
  | functionCall => exact Phrase.readsBack h tail
  | resultColumn => exact Phrase.readsBack h tail htail
  | selectSource => exact reads_selectSource tree htail
  | tableSource => exact reads_tableSource tree htail
  | joinClause => cases tree
  | orderingTerm => exact Phrase.readsBack h tail htail
  | assignment => exact reads_assignment h htail
  | columnDefinition => exact reads_columnDefinition h htail
  | columnConstraint => exact reads_columnConstraint h htail
  | tableConstraint => exact reads_tableConstraint h htail
  | typeName => exact reads_typeName h htail.1 htail.2
  | signedNumber => exact reads_signedNumber h tail
  | conflictClause => exact reads_conflictClause tree tail
  | foreignKey => exact reads_foreignKey tree htail
  | indexedColumn =>
    have hends : EndsDefinition tail := htail
    exact reads_indexedColumn tree (hends.ne (by decide)) (hends.ne (by decide))
      (hends.ne (by decide))

theorem writable_operand (least : Nat) : Writable productions (operand least) StartsOperand
    (fun _ => EndsOperand least) :=
  ⟨[Filler.terminal NULL], .literal .null, fun _ htail =>
    ⟨⟨rfl, startsAllOf_of_not_name rfl⟩, reads_operand_null htail⟩⟩

section Samples

theorem wellFormed_null : (Expr.literal .null).WellFormed Phrase.Unambiguous :=
  .leaf trivial trivial rfl

/-- All columns, from nowhere. -/
def selectAll : Select := ⟨false, [.all], [], none, [], none, [], none⟩

theorem wellFormed_selectAll : selectAll.WellFormed Phrase.Unambiguous :=
  .single ⟨by simp [selectAll], nofun⟩ trivial rfl (.leaf trivial trivial rfl)

/-- A column with nothing but a name. -/
def bareColumn : ColumnDefinition := ⟨"a", none, []⟩

theorem wellFormed_bareColumn : bareColumn.WellFormed Phrase.Unambiguous :=
  ⟨by simp [bareColumn], by simp [bareColumn]⟩

theorem writable_of_tree (r : Rule) (tree : r.Tree) (ts : List Filler) (hr : r ≠ .expr)
    (h : r.WellFormed Phrase.Unambiguous tree)
    (hsymbols : ts.map Filler.symbol = Pieces.symbols (r.pieces tree))
    (henter : ∀ tail, r.Enters (ts.map Filler.symbol ++ tail)) :
    Writable productions (rule r) r.Enters (fun _ => r.Leaves) :=
  ⟨ts, r.regroup .written tree, fun tail htail => ⟨henter tail, by
    rw [hsymbols]
    exact reads_before hr h htail⟩⟩

theorem writable_rule (r : Rule) (hr : r.isPart = true) :
    Writable productions (rule r) r.Enters (fun _ => r.Leaves) := by
  cases r with
  | statement => cases hr
  | select =>
    exact writable_of_tree .select selectAll [Filler.terminal SELECT, Filler.terminal Operator.star]
      nofun wellFormed_selectAll rfl fun _ => trivial
  | insert =>
    exact writable_of_tree .insert ⟨.replace, .bare "a", [], .defaults⟩
      [Filler.terminal REPLACE, Filler.terminal INTO, .name "a", Filler.terminal DEFAULT,
        Filler.terminal VALUES] nofun trivial rfl fun _ => trivial
  | update =>
    exact writable_of_tree .update ⟨none, .bare "a", [⟨"a", .literal .null⟩], none⟩
      [Filler.terminal UPDATE, .name "a", Filler.terminal SET, .name "a",
        Filler.terminal Operator.eq, Filler.terminal NULL] nofun
      ⟨by simp, by simp [wellFormed_null], by simp⟩ rfl fun _ => trivial
  | delete =>
    exact writable_of_tree .delete ⟨.bare "a", none⟩
      [Filler.terminal DELETE, Filler.terminal FROM, .name "a"] nofun
      (by simp [Rule.WellFormed, Delete.WellFormed]) rfl fun _ => trivial
  | createTable =>
    exact writable_of_tree .createTable
      ⟨false, false, .bare "a", .columns [bareColumn] [] false⟩
      [Filler.terminal CREATE, Filler.terminal TABLE, .name "a", Filler.terminal Operator.leftParen,
        .name "a", Filler.terminal Operator.rightParen] nofun
      ⟨by simp, by simp [wellFormed_bareColumn], by simp⟩ rfl fun _ => rfl
  | createIndex =>
    exact writable_of_tree .createIndex ⟨false, false, .bare "a", "a", [.named "a"], none⟩
      [Filler.terminal CREATE, Filler.terminal INDEX, .name "a", Filler.terminal ON, .name "a",
        Filler.terminal Operator.leftParen, .name "a", Filler.terminal Operator.rightParen] nofun
      ⟨by simp, by simp⟩ rfl fun _ => rfl
  | createView =>
    exact writable_of_tree .createView ⟨false, false, .bare "a", [], selectAll⟩
      [Filler.terminal CREATE, Filler.terminal VIEW, .name "a", Filler.terminal AS,
        Filler.terminal SELECT, Filler.terminal Operator.star] nofun wellFormed_selectAll rfl
      fun _ => rfl
  | createTrigger =>
    exact writable_of_tree .createTrigger
      ⟨false, false, .bare "a", none, .delete, "a", false, none, [.select selectAll]⟩
      [Filler.terminal CREATE, Filler.terminal TRIGGER, .name "a", Filler.terminal DELETE,
        Filler.terminal ON, .name "a", Filler.terminal BEGIN, Filler.terminal SELECT,
        Filler.terminal Operator.star, Filler.terminal Operator.semicolon, Filler.terminal END]
      nofun ⟨by simp, by simp, by simp [Statement.StepWellFormed, wellFormed_selectAll]⟩ rfl
      fun _ => rfl
  | drop =>
    exact writable_of_tree .drop ⟨.table, false, .bare "a"⟩
      [Filler.terminal DROP, Filler.terminal TABLE, .name "a"] nofun trivial rfl fun _ => trivial
  | alter =>
    exact writable_of_tree .alter ⟨.bare "a", .renameTo "a"⟩
      [Filler.terminal ALTER, Filler.terminal TABLE, .name "a", Filler.terminal RENAME,
        Filler.terminal TO, .name "a"] nofun trivial rfl fun _ => trivial
  | expr => exact Writable.goal (g := Goal.operand 0) (writable_operand 0)
  | literal =>
    exact writable_of_tree .literal .null [Filler.terminal NULL] nofun trivial rfl fun _ => rfl
  | functionCall => exact writable_functionCall
  | resultColumn => exact writable_resultColumn
  | selectSource =>
    exact writable_of_tree .selectSource (.table (.named "a")) [.name "a"] nofun trivial rfl
      fun _ => trivial
  | tableSource =>
    exact writable_of_tree .tableSource (.named "a") [.name "a"] nofun trivial rfl
      fun _ => trivial
  | joinClause => cases hr
  | orderingTerm =>
    exact writable_of_tree .orderingTerm ⟨.literal .null, none⟩ [Filler.terminal NULL] nofun
      (.single trivial trivial rfl wellFormed_null) rfl fun _ => trivial
  | assignment =>
    exact writable_of_tree .assignment ⟨"a", .literal .null⟩
      [.name "a", Filler.terminal Operator.eq, Filler.terminal NULL] nofun wellFormed_null rfl
      fun _ => trivial
  | columnDefinition =>
    exact writable_of_tree .columnDefinition bareColumn [.name "a"] nofun wellFormed_bareColumn
      rfl fun _ => rfl
  | columnConstraint =>
    exact writable_of_tree .columnConstraint ⟨none, .unique none⟩ [Filler.terminal UNIQUE] nofun
      trivial rfl fun _ => ⟨rfl, terminalsAhead_of_ne nofun⟩
  | tableConstraint =>
    exact writable_of_tree .tableConstraint ⟨none, .check (.literal .null)⟩
      [Filler.terminal CHECK, Filler.terminal Operator.leftParen, Filler.terminal NULL,
        Filler.terminal Operator.rightParen] nofun wellFormed_null rfl fun _ => rfl
  | typeName =>
    exact writable_of_tree .typeName (.named "a") [.name "a"] nofun
      ⟨by simp [TypeName.named], by simp [TypeName.named]⟩ rfl fun _ => trivial
  | signedNumber =>
    have hnumber : Strict productions 0 0 signedNumber _ _ := strict_signedNumber
    exact hnumber.writable
  | conflictClause =>
    exact writable_of_tree .conflictClause .abort
      [Filler.terminal ON, Filler.terminal CONFLICT, Filler.terminal ABORT] nofun trivial rfl
      fun _ => rfl
  | foreignKey =>
    exact writable_of_tree .foreignKey ⟨"a", [], [], none⟩ [Filler.terminal REFERENCES, .name "a"]
      nofun trivial rfl fun _ => trivial
  | indexedColumn =>
    exact writable_of_tree .indexedColumn (.named "a") [.name "a"] nofun trivial rfl
      fun _ => trivial

end Samples

/-! ## All goals -/

/-- The productions of a level are prompt if the goals of that level and of the next are. -/
theorem strict_rule (hgoals : GoalsPrompt limit room)
    (hbelow : ∀ below, room = below + 1 → GoalsPrompt limit below) (r : Rule)
    (hr : r.isPart = true) :
    Strict productions limit room (rule r) r.Enters (fun _ => r.Leaves) := by
  cases r with
  | statement => cases hr
  | select => exact (strict_select hgoals).mono (fun _ _ => trivial) fun _ _ => id
  | insert => exact strict_insert hgoals
  | update => exact (strict_update hgoals).mono (fun _ _ => trivial) fun _ _ => id
  | delete => exact (strict_delete hgoals).mono (fun _ _ => trivial) fun _ _ => id
  | createTable => exact strict_createTable hgoals
  | createIndex => exact strict_createIndex hgoals
  | createView => exact strict_createView hgoals
  | createTrigger => exact strict_createTrigger hgoals hbelow
  | drop => exact strict_drop.mono (fun _ _ => trivial) fun _ _ => id
  | alter => exact (strict_alter hgoals).mono (fun _ _ => trivial) fun _ _ => id
  | expr => exact hgoals.operand 0
  | literal => exact strict_literal
  | functionCall => exact strict_functionCall hgoals
  | resultColumn => exact strict_resultColumn hgoals
  | selectSource => exact strict_selectSource hgoals
  | tableSource => exact strict_tableSource
  | joinClause => cases hr
  | orderingTerm => exact strict_orderingTerm hgoals
  | assignment => exact strict_assignment hgoals
  | columnDefinition => exact strict_columnDefinition hgoals
  | columnConstraint => exact strict_columnConstraint hgoals
  | tableConstraint => exact strict_tableConstraint hgoals
  | typeName => exact strict_typeName hgoals
  | signedNumber => exact strict_signedNumber
  | conflictClause => exact strict_conflictClause
  | foreignKey => exact strict_foreignKey.mono (fun _ _ => trivial) fun _ _ => id
  | indexedColumn => exact strict_indexedColumn

/-- Without a level left there is nothing to show but that each goal can be read. -/
theorem goalsPrompt_zero : GoalsPrompt limit 0 := by
  intro g hg
  cases g with
  | rule r => exact strict_goal_zero (writable_rule r hg)
  | operand least => exact strict_goal_zero (writable_operand least)

theorem goalsPrompt_succ (hgoals : GoalsPrompt limit room)
    (hbelow : ∀ below, room = below + 1 → GoalsPrompt limit below) :
    GoalsPrompt limit (room + 1) := by
  intro g hg
  cases g with
  | rule r => exact strict_goal_succ (strict_rule hgoals hbelow r hg)
  | operand least => exact strict_goal_succ (strict_operand hgoals least)

/-- All goals that are parts of statements are prompt, however many levels are left. -/
theorem goalsPrompt (limit room : Nat) : GoalsPrompt limit room := by
  -- a statement in a trigger is two levels deeper than the trigger
  induction room using Nat.strongRecOn with
  | ind room ih =>
    cases room with
    | zero => exact goalsPrompt_zero
    | succ room =>
      exact goalsPrompt_succ (ih room (Nat.lt_succ_self room)) fun below hbelow =>
        ih below (by omega)

end SqlGrammar.Grammar
