import SqlGrammar.Proofs.Grammar.PromptData

/-!
# Schema statements are prompt

A creation is told by the words behind the first, which are looked at before any is taken. A comma
behind a column belongs to a further column or to a constraint of the table; the word behind it
decides which, and is looked at together with the comma.
-/

set_option autoImplicit false

namespace SqlGrammar.Grammar

open SqlGrammar.Parser Keyword

variable {limit room : Nat} {c : Cursor} {α : Type}

/-! ## The start of a creation -/

/-- No name starts with `IF`, so that `ifNotExists` is left out before one. -/
theorem strict_ifNotExists_bind {f : Bool → Production α} {leave : α → List Symbol → Prop}
    (hf : ∀ set, Prompt productions limit room (f set) StartsName leave) :
    Prompt productions limit room (ifNotExists >>= f) StartsName leave :=
  prompt_acceptAll rfl (hf true) (hf false) fun _ hss =>
    terminalsAhead_of_ne (TokenKind.ne_of_holds hss rfl)

/-- The creation of an object of this kind starts here, behind the first word. -/
def Creates (object : ObjectKind) (ss : List Symbol) : Prop :=
  createdKind? (kindAhead ss 0) (kindAhead ss 1) = some object

/-- A word of `objectKind?` creates its object if it is no modifier. -/
theorem creates_of_startsWith {word : Keyword} {object : ObjectKind} {ss : List Symbol}
    (h : StartsWith word ss) (hword : objectKind? (.keyword word) = some object)
    (hplain : modifiesCreation (.keyword word) = false) : Creates object ss := by
  have hkind : kindAhead ss 0 = .keyword word := h
  rw [Creates, hkind, createdKind?, hplain]
  exact hword

/-- A modifier stands before what it modifies. -/
theorem creates_cons {s : Symbol} {word : Keyword} {object : ObjectKind} {ss : List Symbol}
    (hs : modifiesCreation s.kind = true) (h : StartsWith word ss)
    (hword : objectKind? (.keyword word) = some object) : Creates object (s :: ss) := by
  rw [Creates, kindAhead_cons_zero, kindAhead_cons_one, createdKind?, if_pos hs, h]
  exact hword

section Creation

variable {word : Keyword} {object : ObjectKind} (hword : objectKind? (.keyword word) = some object)
  (hplain : modifiesCreation (.keyword word) = false)

include hword hplain

/-- `TEMP` or `TEMPORARY` may stand before the object. -/
theorem strict_temporary_bind {rest : Bool → Production α} {leave : α → List Symbol → Prop}
    (hrest : ∀ set, Strict productions limit room (rest set) (StartsWith word) leave) :
    Strict productions limit room (temporary >>= rest) (Creates object) leave := by
  have hne {ss : List Symbol} {other : TokenKind} (h : StartsWith word ss)
      (hother : modifiesCreation other = true) : kindAhead ss 0 ≠ other := by
    rintro rfl
    rw [h] at hother
    exact absurd (hplain.symm.trans hother) Bool.false_ne_true
  refine ⟨?_, fun c => PromptAt.assoc (promptAt_accept (fun s ss _ hs => ?_) fun _ =>
    promptAt_accept (fun s ss _ hs => ?_) fun _ => ?_)⟩
  · obtain ⟨ts, v, hcompletes⟩ := (hrest false).writable
    refine ⟨ts, v, fun tail htail => ?_⟩
    obtain ⟨hstart, hread⟩ := hcompletes tail htail
    exact ⟨creates_of_startsWith hstart hword hplain, reads_bind (reads_bind
      (reads_accept_false (hne hstart rfl)) (reads_accept_false (hne hstart rfl))) hread⟩
  · exact (hrest true).pure_bind.behind fun _ hnew => creates_cons (hs ▸ rfl) hnew hword
  · refine (hrest true).behind fun _ hnew => ⟨creates_cons (hs ▸ rfl) hnew hword, ?_⟩
    rw [kindAhead_cons_zero, hs]
    nofun
  · exact ((hrest false).promptAt c).mono (fun _ hss =>
      ⟨⟨creates_of_startsWith hss hword hplain, hne hss rfl⟩, hne hss rfl⟩) fun _ _ => id

/-- What stands behind `CREATE`, up to the name of the object. -/
theorem strict_createdObject : Strict productions limit room
    (temporary >>= fun temporary => expect word >>= fun _ => ifNotExists >>= fun set =>
      pure (temporary, set))
    (Creates object) (fun _ => StartsName) :=
  strict_temporary_bind hword hplain fun _ =>
    strict_expect_bind (strict_ifNotExists_bind fun _ => prompt_give fun _ => id)

/-- From `CREATE` up to the name of the object. -/
theorem strict_createHead : Strict productions limit room (createHead word)
    (StartsCreation object) (fun _ => StartsName) :=
  (strict_createdObject hword hplain).behindExpected fun _ _ _ hss => hss

theorem offers_createHead : Offers productions (createHead word)
    (fun ss => StartsWith CREATE ss ∧ StartsCreation object ss) (fun _ => StartsName) CREATE := by
  have hobject : Strict productions 0 0 _ _ _ := strict_createdObject hword hplain
  exact hobject.writable.offers_expect fun _ _ hs hss => ⟨hs, hss⟩

end Creation

/-! ## Tables -/

section Columns

variable {ss : List Symbol}

/-- A further column is looked for behind a comma, if no constraint of the table is there. -/
def startsFurtherColumn (ss : List Symbol) : Bool :=
  Terminal.accepts Operator.comma (kindAhead ss 0) && !startsTableConstraint (kindAhead ss 1)

/-- `furtherColumn?` looks at the comma and the name behind it together. -/
theorem run_furtherColumn? (limit room : Nat) (c : Cursor) :
    furtherColumn?.run productions limit room _ c =
    (if startsFurtherColumn c.symbols then advance >>= fun _ => some <$> Rule.columnDefinition.parse
      else pure none : Production (Option ColumnDefinition)).run productions limit room _ c := by
  rw [furtherColumn?, run_bind_of_done (run_isAt _), run_bind_of_done (run_look limit room c 1),
    startsFurtherColumn, c.kindAt_eq, c.kindAt_eq]

/-- As `run_furtherColumn?`, for what is read. -/
theorem reads_furtherColumn? {rest : List Symbol} {v : Option ColumnDefinition}
    (h : Reads (if startsFurtherColumn ss then advance >>= fun _ =>
      some <$> Rule.columnDefinition.parse else pure none) ss v rest) :
    Reads furtherColumn? ss v rest :=
  reads_bind (reads_isAt _ ss) (reads_bind (reads_look 1 ss) h)

/-- What stands behind the columns of a table: its constraints, or the end. -/
def EndsColumns (ss : List Symbol) : Prop :=
  (StartsWith Operator.comma ss ∧ startsTableConstraint (kindAhead ss 1) = true) ∨
    StartsWith Operator.rightParen ss

/-- What stands behind a column of a table. -/
def EndsColumn (ss : List Symbol) : Prop :=
  StartsWith Operator.comma ss ∨ StartsWith Operator.rightParen ss

theorem EndsColumns.endsColumn (h : EndsColumns ss) : EndsColumn ss := h.imp_left And.left

theorem EndsColumn.endsDefinition (h : EndsColumn ss) : EndsDefinition ss :=
  h.elim (endsDefinition_of_startsWith · (by decide))
    (endsDefinition_of_startsWith · (by decide))

/-- Where the columns end no further one starts. -/
theorem EndsColumns.startsFurtherColumn (h : EndsColumns ss) :
    Grammar.startsFurtherColumn ss = false := by
  rw [Grammar.startsFurtherColumn]
  rcases h with ⟨-, hconstraint⟩ | hclose
  · rw [hconstraint, Bool.not_true, Bool.and_false]
  · rw [hclose]
    rfl

/-- Both symbols that `startsFurtherColumn` looks at are among those that `LooksLike` compares. -/
theorem startsFurtherColumn_of_looksLike {old new : List Symbol} (h : LooksLike old new) :
    startsFurtherColumn new = startsFurtherColumn old := by
  rw [startsFurtherColumn, startsFurtherColumn, h.kind]
  by_cases hcomma : kindAhead old 0 = .operator .comma
  · rw [h 1 (by rw [hcomma]; exact Nat.le_refl 1)]
  · have hother : Terminal.accepts Operator.comma (kindAhead old 0) = false :=
      Bool.eq_false_iff.2 (mt Terminal.accepts_iff.1 hcomma)
    rw [hother, Bool.false_and, Bool.false_and]

/-- A name behind a comma is that of a further column. -/
theorem startsFurtherColumn_cons {s : Symbol} (hs : s.kind = .operator .comma)
    (h : StartsName ss) : startsFurtherColumn (s :: ss) = true := by
  obtain ⟨own, hown⟩ := exists_name_of_isIdentifier h
  rw [startsFurtherColumn, kindAhead_cons_zero, kindAhead_cons_one, hs, hown]
  rfl

end Columns

section Goals

variable (hgoals : GoalsPrompt limit room)

include hgoals

/-- The columns are a loop that ends before a constraint or the parenthesis. -/
theorem prompt_furtherColumns : Prompt productions limit room (many furtherColumn?) EndsColumn
    (fun _ => EndsColumns) := by
  have hnone {ss : List Symbol} (h : startsFurtherColumn ss = false) :
      Reads furtherColumn? ss none ss := by
    refine reads_furtherColumn? ?_
    rw [h]
    exact reads_pure none ss
  have hcolumn : Strict productions limit room (some <$> Rule.columnDefinition.parse) StartsName
      (leaveRound EndsColumn EndsColumns) := by
    refine ((hgoals.parse .columnDefinition rfl).map some).mono (fun _ => id) fun o ss hss => ?_
    cases o with
    | none => exact hss.endsColumn.endsDefinition
    | some column => exact EndsColumn.endsDefinition hss
  refine prompt_many (fun c => ?_) ⟨[], fun tail htail =>
    ⟨htail.endsColumn, hnone htail.startsFurtherColumn⟩⟩ suits_loopMoves.furtherColumn
  have hrun := run_furtherColumn? limit room c
  cases hfurther : startsFurtherColumn c.symbols with
  | true =>
    have hcomma : c.kindAt 0 = .operator .comma := by
      rw [c.kindAt_eq]
      exact Terminal.accepts_iff.1 (Bool.and_eq_true_iff.1 hfurther).1
    obtain ⟨s, ss, hsymbols, hs⟩ := exists_symbols_of_kindAt hcomma nofun
    rw [hfurther] at hrun
    refine promptAt_step (symbols_eq_singleton_append hsymbols (by rw [hs]; nofun))
      (hrun.trans (run_bind_of_done (run_advance limit room c)))
      (fun new v rest hnew hread => reads_furtherColumn? ?_) (fun _ _ => .inl (.inl hs))
      (hcolumn.promptAt _) fun _ => hcolumn.writable
    rw [List.singleton_append, startsFurtherColumn_cons hs hnew]
    exact reads_bind (reads_advance (by rw [hs]; nofun)) hread
  | false =>
    rw [hfurther] at hrun
    refine promptAt_of_run_done (hrun.trans (run_pure limit room c none)) (List.nil_append _).symm
      fun tail htail => ⟨htail.mono fun _ => EndsColumns.endsColumn, hnone ?_⟩
    rcases htail with hends | hlooks
    · exact hends.startsFurtherColumn
    · exact (startsFurtherColumn_of_looksLike hlooks).trans hfurther

/-- The constraints of a table, each behind a comma. -/
theorem prompt_constraints : Prompt productions limit room
    (listBehind [Operator.comma] Rule.tableConstraint.parse) EndsColumns
    (fun _ => StartsWith Operator.rightParen) := by
  have hends {t : Terminal} (ht : t.kind ∈ definitionEnds) (ss : List Symbol)
      (hss : StartsWith t ss) : EndsDefinition ss := endsDefinition_of_startsWith hss ht
  have hlist : Strict productions limit room (commaSeparated Rule.tableConstraint.parse)
      Rule.tableConstraint.Enters (fun _ => StartsWith Operator.rightParen) :=
    strict_commaSeparated (hgoals.parse .tableConstraint rfl) (fun _ => hends (by decide))
      (fun _ => hends (by decide)) (fun _ hss => ne_of_startsWith hss (by decide))
      (loopMoves_behind _ _)
  have hnone (ss : List Symbol) (h : StartsWith Operator.rightParen ss) :
      terminalsAhead ss 0 [Operator.comma] = false :=
    terminalsAhead_of_ne (ne_of_startsWith h (by decide))
  refine ⟨⟨[], [], fun tail htail => ⟨.inr htail, reads_bind
    (reads_acceptAll_false (hnone tail htail)) (reads_pure [] tail)⟩⟩, fun c =>
    promptAt_acceptAll (fun taken c' _ hkinds => ?_) fun hahead => ?_⟩
  · obtain ⟨s, taken, rfl, hs, hnil⟩ := List.map_eq_cons_iff.1 hkinds
    rw [List.map_nil, List.map_eq_nil_iff] at hnil
    subst hnil
    have henter (new : List Symbol) (hnew : Rule.tableConstraint.Enters new) :
        Replaces EndsColumns c.symbols ([s] ++ new) := .inl (.inl ⟨hs, hnew⟩)
    exact ⟨hlist.writable.mono henter fun _ _ => id,
      (hlist.promptAt c').mono henter fun _ _ => id⟩
  · refine promptAt_pure fun tail htail => ⟨htail.mono fun _ => .inr, ?_⟩
    rcases htail with hclose | hlooks
    · exact hnone tail hclose
    · exact hlooks.terminalsAhead_false (Nat.zero_le _) hahead

/-- The columns and the constraints of a table in their parentheses. -/
theorem strict_tableEntries : Strict productions limit room tableEntries
    (StartsWith Operator.leftParen) (fun _ _ => True) := by
  have hentries (first : ColumnDefinition) (others : List ColumnDefinition) :=
    (prompt_constraints hgoals).map fun constraints => (first :: others, constraints)
  exact strict_parenthesized (prompt_bind (fun first => prompt_bind (hentries first)
    (fun _ _ => id) (prompt_furtherColumns hgoals)) (fun _ _ => EndsColumn.endsDefinition)
    (hgoals.parse .columnDefinition rfl).prompt)

/-- A body in parentheses, or a query behind `AS` in the place of one. -/
theorem prompt_tableBody : Prompt productions limit room tableBody
    (StartsWith Operator.leftParen) (fun _ => EndsStatement) := by
  have hquery : Prompt productions limit room (TableBody.asSelect <$> Rule.select.parse)
      (fun _ => True) (fun _ => EndsStatement) := (hgoals.select.map _).prompt
  have hwithout : Prompt productions limit room (behind? WITHOUT (expectWord "ROWID"))
      EndsStatement (fun _ => EndsStatement) :=
    prompt_behind? rfl (strict_expectWord (Terminal.named_description .rowid)).prompt
      (fun _ _ _ => trivial) fun _ hss => hss.opens.ne (by decide)
  have hcolumns := strict_bind (fun entries => hwithout.map fun withoutRowid : Option Unit =>
    TableBody.columns entries.1 entries.2 withoutRowid.isSome) (fun _ _ _ => trivial)
    (strict_tableEntries hgoals)
  exact prompt_accept rfl hquery hcolumns.prompt fun _ hss => ne_of_startsWith hss (by decide)

/-- The name of a new table and what the table is made of. -/
theorem prompt_createdTable (head : Bool × Bool) : Prompt productions limit room
    (do
      let name ← qualifiedName
      return CreateTable.mk head.1 head.2 name (← tableBody))
    StartsName (fun _ => EndsStatement) :=
  prompt_bind (fun name => (prompt_tableBody hgoals).map (CreateTable.mk head.1 head.2 name))
    (fun _ _ hss => ne_of_startsWith hss (by decide)) strict_qualifiedName.prompt

/-- The head, the name and the body of a table. -/
theorem strict_createTable : Strict productions limit room createTable (StartsCreation .table)
    (fun _ => EndsStatement) :=
  strict_bind (prompt_createdTable hgoals) (fun _ _ => id) (strict_createHead rfl rfl)

theorem offers_createTable : Offers productions createTable
    (fun ss => StartsWith CREATE ss ∧ StartsCreation .table ss) (fun _ => EndsStatement) CREATE :=
  Completable.bind (offers_createHead rfl rfl) fun head =>
    (prompt_createdTable hgoals head).writable

/-! ## Indexes and views -/

/-- What stands behind the word for an index. -/
theorem prompt_indexBody (unique ifNotExists : Bool) : Prompt productions limit room
    (do
      let name ← qualifiedName
      expect ON
      let table ← identifier
      let columns ← indexedColumns
      return CreateIndex.mk unique ifNotExists name table columns (← filter?))
    StartsName (fun _ => EndsStatement) := by
  have htable (name : QualifiedName) := strict_expect_bind (t := ON) (strict_bind (fun table =>
    (strict_bind (fun columns => (prompt_filter? hgoals).map
      (CreateIndex.mk unique ifNotExists name table columns)) (fun _ _ _ => trivial)
      (strict_indexedColumns hgoals)).prompt) (fun _ _ _ => trivial) strict_identifier).prompt
  exact (strict_bind (fun name => (htable name).prompt)
    (fun _ _ hss => ne_of_startsWith hss (by decide)) strict_qualifiedName).prompt

/-- An index has no modifier but `UNIQUE`, so that its head is its own. -/
theorem strict_createIndex : Strict productions limit room createIndex (StartsCreation .index)
    (fun _ => EndsStatement) := by
  have hindex (unique : Bool) := strict_expect_bind (t := INDEX)
    (strict_ifNotExists_bind fun set => prompt_indexBody hgoals unique set)
  have hunique : Strict productions limit room
      (accept UNIQUE >>= fun unique => expect INDEX >>= fun _ => ifNotExists >>= fun set => do
        let name ← qualifiedName
        expect ON
        let table ← identifier
        let columns ← indexedColumns
        return CreateIndex.mk unique set name table columns (← filter?))
      (Creates .index) (fun _ => EndsStatement) := by
    refine ⟨?_, fun c => promptAt_accept (fun s ss _ hs => ?_) fun _ => ?_⟩
    · obtain ⟨ts, v, hcompletes⟩ := (hindex false).writable
      refine ⟨ts, v, fun tail htail => ?_⟩
      obtain ⟨hstart, hread⟩ := hcompletes tail htail
      exact ⟨creates_of_startsWith hstart rfl rfl,
        reads_bind (reads_accept_false (ne_of_startsWith hstart (by decide))) hread⟩
    · exact (hindex true).behind fun _ hnew => creates_cons (hs ▸ rfl) hnew rfl
    · exact ((hindex false).promptAt c).mono (fun _ hss =>
        ⟨creates_of_startsWith hss rfl rfl, ne_of_startsWith hss (by decide)⟩) fun _ _ => id
  exact hunique.behindExpected fun _ _ _ hss => hss

theorem strict_createView : Strict productions limit room createView (StartsCreation .view)
    (fun _ => EndsStatement) := by
  have hquery (head : Bool × Bool) (name : QualifiedName) (columns : List String) :=
    (strict_expect_bind (t := AS)
      (hgoals.select.map (CreateView.mk head.1 head.2 name columns)).prompt).prompt
  have hcolumns : Prompt productions limit room identifierList? (StartsWith AS)
      (fun _ => StartsWith AS) :=
    prompt_identifierList? fun _ hss => ne_of_startsWith hss (by decide)
  exact strict_bind (fun head => prompt_bind (fun name => prompt_bind (hquery head name)
    (fun _ _ => id) hcolumns) (fun _ _ hss => ne_of_startsWith hss (by decide))
    strict_qualifiedName.prompt) (fun _ _ => id) (strict_createHead rfl rfl)

/-! ## Triggers -/

omit hgoals in
/-- The event of a trigger starts here. -/
def StartsEvent (ss : List Symbol) : Prop :=
  kindAhead ss 0 ∈ [TokenKind.keyword .DELETE, .keyword .INSERT, .keyword .UPDATE]

omit hgoals in
/-- An event starts with one of three words. -/
theorem StartsEvent.ne {ss : List Symbol} {kind : TokenKind} (h : StartsEvent ss)
    (hkind : kind ∉ [TokenKind.keyword .DELETE, .keyword .INSERT, .keyword .UPDATE]) :
    kindAhead ss 0 ≠ kind := by
  rintro rfl
  exact hkind h

omit hgoals in
/-- No timing starts like an event. -/
theorem prompt_triggerTiming? : Prompt productions limit room triggerTiming? StartsEvent
    (fun _ => StartsEvent) := by
  have hgive (timing : Option TriggerTiming) : Prompt productions limit room (pure timing)
      StartsEvent (fun _ => StartsEvent) := prompt_give fun _ => id
  have hinstead := (strict_expect_bind (t := OF) (hgive (some .insteadOf))).prompt
  exact prompt_accept rfl (hgive (some .before)) (prompt_accept rfl (hgive (some .after))
    (prompt_accept rfl hinstead (hgive none) fun _ hss => hss.ne (by decide))
    fun _ hss => hss.ne (by decide)) fun _ hss => hss.ne (by decide)

omit hgoals in
/-- The columns behind `UPDATE OF` end before `ON`. -/
theorem strict_triggerEvent : Strict productions limit room triggerEvent StartsEvent
    (fun _ => StartsWith ON) := by
  have hgive (event : TriggerEvent) : Prompt productions limit room (pure event) (StartsWith ON)
      (fun _ => StartsWith ON) := prompt_give fun _ => id
  have hcolumns : Prompt productions limit room (listBehind [OF] identifier) (StartsWith ON)
      (fun _ => StartsWith ON) :=
    prompt_listBehind strict_identifier (fun _ _ => trivial) (fun _ _ => trivial)
      (fun _ hss => ne_of_startsWith hss (by decide)) rfl
      fun _ hss => ne_of_startsWith hss (by decide)
  have hword {word : Keyword}
      (hmem : .keyword word ∈ [TokenKind.keyword .DELETE, .keyword .INSERT, .keyword .UPDATE])
      (ss : List Symbol) (hss : StartsWith word ss) : StartsEvent ss := by
    have hkind : kindAhead ss 0 = .keyword word := hss
    rwa [StartsEvent, hkind]
  refine strict_branches ["DELETE", "INSERT", "UPDATE"] [DELETE, INSERT, UPDATE] rfl
    (fun now hnow => ?_) (t := DELETE) (by decide) fun c t ht => ?_
  · split
    all_goals first
      | exact .inl rfl
      | simp [Terminal.kind] at hnow
  · simp only [List.mem_cons, List.not_mem_nil, or_false] at ht
    rcases ht with rfl | rfl | rfl
    · exact (hgive .delete).anywhere.branchBehind (hword (by decide))
    · exact (hgive .insert).anywhere.branchBehind (hword (by decide))
    · exact (hcolumns.map TriggerEvent.update).anywhere.branchBehind (hword (by decide))

omit hgoals in
/-- A statement in the body of a trigger starts here. -/
def StartsStep (ss : List Symbol) : Prop :=
  kindAhead ss 0 ∈ [TokenKind.keyword .INSERT, .keyword .REPLACE, .keyword .UPDATE,
    .keyword .DELETE, .keyword .SELECT]

/-- One case for each word that starts a step. -/
theorem strict_triggerStep : Strict productions limit room triggerStep StartsStep
    (fun _ => EndsStatement) := by
  have hword {word : Keyword} (hmem : .keyword word ∈ [TokenKind.keyword .INSERT, .keyword .REPLACE,
        .keyword .UPDATE, .keyword .DELETE, .keyword .SELECT])
      (ss : List Symbol) (hss : StartsWith word ss) : StartsStep ss := by
    have hkind : kindAhead ss 0 = .keyword word := hss
    rwa [StartsStep, hkind]
  refine strict_branches ["INSERT", "REPLACE", "UPDATE", "DELETE", "SELECT"]
    [INSERT, REPLACE, UPDATE, DELETE, SELECT] rfl (fun now hnow => ?_)
    (t := SELECT) (by decide) fun c t ht => ?_
  · split
    all_goals first
      | exact .inl rfl
      | exact .inr ⟨_, rfl⟩
      | simp [Terminal.kind] at hnow
  · simp only [List.mem_cons, List.not_mem_nil, or_false] at ht
    rcases ht with rfl | rfl | rfl | rfl | rfl
    · exact hgoals.branch .insert rfl Statement.insert (by decide)
        (offers_insert hgoals (by decide)) (hword (by decide))
    · exact hgoals.branch .insert rfl Statement.insert (by decide)
        (offers_insert hgoals (by decide)) (hword (by decide))
    · exact hgoals.branch .update rfl Statement.update (by decide) (offers_update hgoals)
        (hword (by decide))
    · exact hgoals.branch .delete rfl Statement.delete (by decide) (offers_delete hgoals)
        (hword (by decide))
    · exact hgoals.branch .select rfl Statement.select (by decide) (offers_select hgoals)
        (hword (by decide))

section Steps

variable (hbelow : ∀ below, room = below + 1 → GoalsPrompt limit below)

include hbelow

/-- A step ends at its semicolon, which is taken with it. -/
theorem strict_closedStep : Strict productions limit room closedStep StartsStep
    (fun _ _ => True) := by
  have hstep : Strict productions limit room (deeper triggerStep) StartsStep
      (fun _ => EndsStatement) := by
    cases room with
    | zero => exact strict_deeper_zero (strict_triggerStep hgoals).writable
    | succ below => exact strict_deeper_succ (strict_triggerStep (hbelow below rfl))
  have hclose (step : Statement) : Prompt productions limit room
      (expect Operator.semicolon >>= fun _ => pure step) (StartsWith Operator.semicolon)
      (fun _ _ => True) := (strict_expect_bind (prompt_pure step)).prompt
  refine strict_bind hclose (fun _ ss hss => ?_) hstep
  change endsQuery (kindAhead ss 0) = true
  rw [hss]
  rfl

/-- Behind a statement of a trigger stands another one, or the end of the body. -/
theorem prompt_furtherSteps : Prompt productions limit room (many furtherStep?)
    (fun ss => StartsWith END ss ∨ StartsStep ss) (fun _ _ => True) := by
  have hend : Prompt productions limit room (pure none : Production (Option Statement))
      (fun _ => True)
      (leaveRound (fun ss => StartsWith END ss ∨ StartsStep ss) fun _ => True) :=
    prompt_give fun _ => id
  have hstep : Strict productions limit room (some <$> closedStep) StartsStep
      (leaveRound (fun ss => StartsWith END ss ∨ StartsStep ss) fun _ => True) :=
    ((strict_closedStep hgoals hbelow).map some).leavesAny
  have hfurther : Prompt productions limit room furtherStep?
      (fun ss => StartsWith END ss ∨ StartsStep ss)
      (leaveRound (fun ss => StartsWith END ss ∨ StartsStep ss) fun _ => True) :=
    prompt_accept_either hend hstep.prompt fun ss hss heq => by
      rw [StartsStep, heq] at hss
      revert hss
      decide
  exact prompt_many hfurther.promptAt ⟨[Filler.terminal END], fun tail _ =>
    ⟨.inl rfl, reads_bind (reads_accept_true rfl) (reads_pure none tail)⟩⟩
    suits_loopMoves.furtherStep

/-- The steps end at `END`, where no step starts. -/
theorem strict_triggerBody : Strict productions limit room triggerBody StartsStep
    (fun _ _ => True) :=
  strict_bind (fun first => (prompt_furtherSteps hgoals hbelow).map (List.cons first))
    (fun _ _ _ => trivial) (strict_closedStep hgoals hbelow)

/-- The parts of a trigger in order, up to its `END`. -/
theorem strict_createTrigger : Strict productions limit room createTrigger
    (StartsCreation .trigger) (fun _ => EndsStatement) := by
  have hbody (head : Bool × Bool) (name : QualifiedName) (timing : Option TriggerTiming)
      (event : TriggerEvent) (table : String) (forEachRow : Bool) (condition : Option Expr) :
      Prompt productions limit room
        (expect BEGIN >>= fun _ => triggerBody >>= fun body =>
          pure (CreateTrigger.mk head.1 head.2 name timing event table forEachRow condition body))
        (StartsWith BEGIN) (fun _ => EndsStatement) :=
    (strict_expect_bind ((strict_triggerBody hgoals hbelow).map _).leavesAny.prompt).prompt
  have hwhen : Prompt productions limit room (behind? WHEN Rule.expr.parse) (StartsWith BEGIN)
      (fun _ => StartsWith BEGIN) :=
    prompt_behind? rfl (strict_exprBefore hgoals rfl).prompt (fun _ _ => id) fun _ hss =>
      ne_of_startsWith hss (by decide)
  have hrow (head : Bool × Bool) (name : QualifiedName) (timing : Option TriggerTiming)
      (event : TriggerEvent) (table : String) :
      Prompt productions limit room
        (acceptAll [FOR, EACH, ROW] >>= fun forEachRow => behind? WHEN Rule.expr.parse >>=
          fun condition => expect BEGIN >>= fun _ => triggerBody >>= fun body =>
            pure (CreateTrigger.mk head.1 head.2 name timing event table forEachRow condition body))
        (StartsWith BEGIN) (fun _ => EndsStatement) := by
    have hcondition (forEachRow : Bool) := prompt_bind
      (hbody head name timing event table forEachRow) (fun _ _ => id) hwhen
    exact prompt_acceptAll rfl (hcondition true) (hcondition false) fun _ hss =>
      terminalsAhead_of_ne (ne_of_startsWith hss (by decide))
  have htable (head : Bool × Bool) (name : QualifiedName) (timing : Option TriggerTiming)
      (event : TriggerEvent) := (strict_expect_bind (t := ON) (prompt_bind
        (hrow head name timing event) (fun _ _ _ => trivial) strict_identifier.prompt)).prompt
  exact strict_bind (fun head => prompt_bind (fun name => prompt_bind (fun timing => prompt_bind
    (htable head name timing) (fun _ _ => id) strict_triggerEvent.prompt) (fun _ _ => id)
    prompt_triggerTiming?) (fun _ _ hss => hss.ne (by decide)) strict_qualifiedName.prompt)
    (fun _ _ => id) (strict_createHead rfl rfl)

end Steps

/-! ## Removal and change -/

omit hgoals in
/-- What ends a statement ends a definition. -/
theorem EndsStatement.endsDefinition {ss : List Symbol} (h : EndsStatement ss) :
    EndsDefinition ss :=
  List.contains_iff_mem.1 (h.opens.all (p := definitionEnds.contains) rfl)

omit hgoals in
theorem strict_drop : Strict productions limit room drop (StartsWith DROP)
    (fun _ => EndsStatement) := by
  have hname (kind : ObjectKind) (ifExists : Bool) : Strict productions limit room
      (qualifiedName >>= fun name => pure (Drop.mk kind ifExists name)) StartsName
      (fun _ => EndsStatement) :=
    (strict_qualifiedName.mono (fun _ => id) fun _ _ hss => hss.opens.ne (by decide)).map _
  have hobject (kind : ObjectKind) : Strict productions limit room
      (acceptAll [IF, EXISTS] >>= fun ifExists => qualifiedName >>= fun name =>
        pure (Drop.mk kind ifExists name))
      (fun _ => True) (fun _ => EndsStatement) :=
    strict_acceptAll (hname kind true) (hname kind false) fun _ hss =>
      terminalsAhead_of_ne (TokenKind.ne_of_holds hss rfl)
  exact strict_expect_bind (strict_chosen objectKind? ["TABLE", "INDEX", "VIEW", "TRIGGER"]
    (fun _ _ h => by rw [h]) (fun _ h => by rw [h])
    (Terminal.forall_named [TABLE, INDEX, VIEW, TRIGGER] [] rfl (by decide)) hobject rfl
    (show objectKind? (Filler.terminal TABLE).symbol.kind = some .table from rfl)).prompt

omit hgoals in
theorem offers_drop : Offers productions drop (StartsWith DROP) (fun _ => EndsStatement) DROP := by
  have hdrop : Strict productions 0 0 drop _ _ := strict_drop
  exact offers_of_endsStatement hdrop.writable fun _ => id

/-- What is changed about a table is told by its first word. -/
def StartsChange (ss : List Symbol) : Prop :=
  kindAhead ss 0 ∈ [TokenKind.keyword .RENAME, .keyword .ADD]

/-- The two changes start with different words. -/
theorem strict_alterAction : Strict productions limit room alterAction StartsChange
    (fun _ => EndsStatement) := by
  have hrename : Strict productions limit room
      (expectAll [RENAME, TO] >>= fun _ => identifier >>= fun name =>
        pure (AlterAction.renameTo name))
      (fun ss => terminalsAhead ss 0 [RENAME, TO] = true) (fun _ => EndsStatement) :=
    strict_bind (fun _ => (strict_identifier.map _).leavesAny.prompt) (fun _ _ _ => trivial)
      (strict_expectAll _)
  have hcolumn : Prompt productions limit room
      (Rule.columnDefinition.parse >>= fun column => pure (AlterAction.addColumn column)) StartsName
      (fun _ => EndsStatement) :=
    (((hgoals.parse .columnDefinition rfl).mono (fun _ => id) fun _ _ =>
      EndsStatement.endsDefinition).map _).prompt
  have hadd : Prompt productions limit room
      (accept COLUMN >>= fun _ => Rule.columnDefinition.parse >>= fun column =>
        pure (AlterAction.addColumn column))
      StartsName (fun _ => EndsStatement) :=
    prompt_accept (f := fun _ => Rule.columnDefinition.parse >>= fun column =>
      pure (AlterAction.addColumn column)) rfl hcolumn hcolumn fun _ hss =>
        TokenKind.ne_of_holds hss rfl
  have hword {word : Keyword} (hmem : .keyword word ∈ [TokenKind.keyword .RENAME, .keyword .ADD])
      (ss : List Symbol) (hss : StartsWith word ss) : StartsChange ss := by
    have hkind : kindAhead ss 0 = .keyword word := hss
    rwa [StartsChange, hkind]
  refine strict_branches ["RENAME", "ADD"] [RENAME, ADD] rfl (fun now hnow => ?_)
    (t := RENAME) (by decide) fun c t ht => ?_
  · split
    all_goals first
      | exact .inl rfl
      | simp [Terminal.kind] at hnow
  · simp only [List.mem_cons, List.not_mem_nil, or_false] at ht
    rcases ht with rfl | rfl
    · exact hrename.branch (fun ss hss =>
        have hstart := startsWith_of_terminalsAhead hss
        ⟨hword (by decide) ss hstart, hstart⟩) fun _ =>
          ⟨[], endsStatement_nil, not_startsWith_nil _⟩
    · exact hadd.anywhere.branchBehind (hword (by decide))

theorem strict_alter : Strict productions limit room alter
    (fun ss => terminalsAhead ss 0 [ALTER, TABLE] = true) (fun _ => EndsStatement) := by
  refine strict_bind (fun _ => prompt_bind (fun table => ((strict_alterAction hgoals).map
    (Alter.mk table)).prompt) (fun _ ss hss heq => ?_) strict_qualifiedName.prompt)
    (fun _ _ _ => trivial) (strict_expectAll _)
  rw [StartsChange, heq] at hss
  revert hss
  decide

theorem offers_alter : Offers productions alter (StartsWith ALTER) (fun _ => EndsStatement)
    ALTER :=
  offers_of_endsStatement (strict_alter hgoals).writable fun _ => startsWith_of_terminalsAhead

end Goals

end SqlGrammar.Grammar
