import SqlGrammar.Proofs.Grammar.PromptOperand
import SqlGrammar.Proofs.Grammar.Steady

/-!
# Queries are prompt

The clauses of a query may all be left out, so that each of them is entered and left by what ends
the query. Joins and further queries are refused where they stand, which is no error of a token that
was not expected.
-/

set_option autoImplicit false

namespace SqlGrammar.Grammar

open SqlGrammar.Parser Keyword

variable {limit room : Nat} {c : Cursor} {α : Type} {fit : List Symbol → Prop}

/-! ## What is refused -/

/-- A parser that looks at one symbol and takes none: it refuses the symbol, or gives a value. -/
theorem prompt_refuse (refuses : TokenKind → Bool) (construct : String)
    {f : TokenKind → Production α} {v : α}
    (hrefuses : ∀ kind, refuses kind = true → f kind = unsupported construct)
    (hgives : ∀ kind, refuses kind = false → f kind = pure v)
    (hfit : ∀ ss, fit ss → refuses (kindAhead ss 0) = false) :
    Prompt productions limit room (kind >>= f) fit (fun _ => fit) := by
  have hreads (ss : List Symbol) (h : refuses (kindAhead ss 0) = false) :
      Reads (kind >>= f) ss v ss := by
    refine reads_bind (reads_kind ss) ?_
    rw [hgives _ h]
    exact reads_pure v ss
  refine ⟨⟨[], v, fun tail htail => ⟨htail, hreads tail (hfit tail htail)⟩⟩, fun c => ?_⟩
  cases hkind : refuses (c.kindAt 0) with
  | true =>
    have hrun : (kind >>= f).run productions limit room _ c =
        .failed (c.unsupported construct) c := by
      rw [kind, run_bind_of_done (run_look limit room c 0), hrefuses _ hkind, run_unsupported]
    exact promptAt_of_nameless hrun rfl
  | false =>
    have hrun : (kind >>= f).run productions limit room _ c = .done v c := by
      rw [kind, run_bind_of_done (run_look limit room c 0), hgives _ hkind, run_pure]
    refine promptAt_of_run_done hrun (List.nil_append _).symm fun tail htail =>
      ⟨htail, hreads tail ?_⟩
    exact htail.kindAt (p := fun kind => refuses kind = false) (hfit tail) hkind

theorem strict_refusedAt {p : Production α} {enter : List Symbol → Prop}
    {leave : α → List Symbol → Prop} {t : Terminal} (construct : String)
    (hp : Strict productions limit room p enter leave)
    (hne : ∀ ss, enter ss → kindAhead ss 0 ≠ t.kind) :
    Strict productions limit room
      (isAt t >>= fun refused => if refused then unsupported construct else p) enter leave where
  writable := by
    obtain ⟨ts, v, hcompletes⟩ := hp.writable
    refine ⟨ts, v, fun tail htail => ?_⟩
    obtain ⟨hin, hread⟩ := hcompletes tail htail
    exact ⟨hin, reads_bind (reads_isAt_false (hne _ hin)) hread⟩
  promptAt c := by
    refine promptAt_isAt t ?_
    cases hat : t.accepts (c.kindAt 0) with
    | true => exact promptAt_unsupported construct
    | false =>
      exact (hp.promptAt c).mono (fun ss hss =>
        ⟨hss, Bool.eq_false_iff.2 (mt Terminal.accepts_iff.1 (hne ss hss))⟩) fun _ _ => id

/-! ## Columns and order -/

theorem prompt_aliasName? (hname : ∀ ss, fit ss → (kindAhead ss 0).isIdentifier = false)
    (has : ∀ ss, fit ss → kindAhead ss 0 ≠ .keyword .AS) :
    Prompt productions limit room aliasName? fit (fun _ => fit) :=
  prompt_accept rfl (strict_identifier.map some).leavesAny.prompt (prompt_identifier? hname) has

theorem prompt_direction? (hasc : ∀ ss, fit ss → kindAhead ss 0 ≠ .keyword .ASC)
    (hdesc : ∀ ss, fit ss → kindAhead ss 0 ≠ .keyword .DESC) :
    Prompt productions limit room direction? fit (fun _ => fit) := by
  have hdescending : Prompt productions limit room
      (accept Keyword.DESC >>= fun desc =>
        if desc then pure (some SortDirection.desc) else pure none)
      fit (fun _ => fit) :=
    prompt_accept rfl (prompt_give fun _ => id) (prompt_give fun _ => id) hdesc
  have hascending : Prompt productions limit room (pure (some SortDirection.asc)) fit
      (fun _ => fit) := prompt_give fun _ => id
  exact prompt_accept rfl hascending hdescending hasc

/-! ## Sources -/

theorem strict_qualifiedName : Strict productions limit room qualifiedName StartsName
    (fun _ ss => kindAhead ss 0 ≠ .operator .dot) := by
  have hmore (first : String) : Prompt productions limit room
      (accept Operator.dot >>= fun qualified =>
        if qualified then identifier >>= fun own => pure (QualifiedName.mk (some first) own)
        else pure (.bare first))
      (fun ss => kindAhead ss 0 ≠ .operator .dot)
      (fun _ ss => kindAhead ss 0 ≠ .operator .dot) :=
    prompt_accept rfl (strict_identifier.map _).leavesAny.prompt (prompt_give fun _ => id)
      fun _ => id
  exact strict_bind hmore (fun _ _ _ => trivial) strict_identifier

theorem prompt_indexHint?
    (hby : ∀ ss, fit ss → terminalsAhead ss 0 [Keyword.INDEXED, Keyword.BY] = false)
    (hnot : ∀ ss, fit ss → terminalsAhead ss 0 [Keyword.NOT, Keyword.INDEXED] = false) :
    Prompt productions limit room indexHint? fit (fun _ => fit) := by
  have hindexed : Prompt productions limit room
      (identifier >>= fun index => pure (some (IndexHint.indexedBy index))) StartsName
      (fun _ => fit) := (strict_identifier.map _).leavesAny.prompt
  have hnotIndexed : Prompt productions limit room
      (acceptAll [Keyword.NOT, Keyword.INDEXED] >>= fun free =>
        if free then pure (some IndexHint.notIndexed) else pure none)
      fit (fun _ => fit) :=
    prompt_acceptAll rfl (prompt_give fun _ => id) (prompt_give fun _ => id) hnot
  exact prompt_acceptAll rfl hindexed hnotIndexed hby

/-! What ends an entry of a query ends each of its parts. -/

section EndsItem

variable {ss : List Symbol} (h : endsItem (kindAhead ss 0) = true)

include h

theorem ne_of_endsItem {kind : TokenKind} (hkind : endsItem kind = false) :
    kindAhead ss 0 ≠ kind :=
  TokenKind.ne_of_holds h hkind

theorem terminalsAhead_of_endsItem {t : Terminal} (ts : List Terminal)
    (ht : endsItem t.kind = false) : terminalsAhead ss 0 (t :: ts) = false :=
  terminalsAhead_of_ne (ne_of_endsItem h ht)

end EndsItem

theorem strict_tableSource : Strict productions limit room tableSource (fun _ => True)
    (fun _ ss => endsItem (kindAhead ss 0) = true) := by
  have hhint : Prompt productions limit room indexHint?
      (fun ss => endsItem (kindAhead ss 0) = true)
      (fun _ ss => endsItem (kindAhead ss 0) = true) :=
    prompt_indexHint? (fun _ hss => terminalsAhead_of_endsItem hss _ rfl)
      fun _ hss => terminalsAhead_of_endsItem hss _ rfl
  have halias : Prompt productions limit room aliasName?
      (fun ss => endsItem (kindAhead ss 0) = true)
      (fun _ ss => endsItem (kindAhead ss 0) = true) :=
    prompt_aliasName? (fun _ => isIdentifier_of_endsItem) fun _ hss => ne_of_endsItem hss rfl
  have hsource := strict_bind
    (fun table => prompt_bind (fun aliasName => hhint.map (TableSource.mk table aliasName))
      (fun _ _ => id) halias)
    (fun _ _ hss => ne_of_endsItem hss rfl) strict_qualifiedName
  refine (strict_refusedAt (t := Operator.leftParen) "sub-query table source" hsource
    fun ss hss => ?_).mono (fun _ _ => trivial) fun _ _ => id
  exact TokenKind.ne_of_holds hss rfl

/-- A table as a source is told by names. -/
theorem nameless_tableSource : Nameless productions Rule.tableSource.parse := by
  have hname : Nameless productions qualifiedName := by
    refine nameless_identifier.bind fun first => (nameless_accept _).bind fun qualified => ?_
    split
    · exact nameless_identifier.map _
    · exact nameless_pure _
  have halias : Nameless productions aliasName? := by
    refine (nameless_accept _).bind fun behind => ?_
    split
    · exact nameless_identifier.map some
    · exact nameless_identifier?
  have hhint : Nameless productions indexHint? := by
    refine (nameless_acceptAll _).bind fun indexed => ?_
    split
    · exact nameless_identifier.map _
    · refine (nameless_acceptAll _).bind fun free => ?_
      split
      · exact nameless_pure _
      · exact nameless_pure _
  refine nameless_goal (g := Goal.rule .tableSource) ((nameless_isAt _).bind fun opens => ?_)
  split
  · exact nameless_unsupported _
  · exact hname.bind fun table => halias.bind fun aliasName => hhint.map _

/-- A join fails where it starts, whatever stands there, and names no other terminal than `JOIN`. -/
theorem exists_run_joinClause (limit room : Nat) (c : Cursor) :
    ∃ error, (SelectSource.join <$> Rule.joinClause.parse).run productions limit room _ c =
      .failed error c ∧ ∀ t ∈ Terminal.named error.expected, t = Keyword.JOIN := by
  suffices h : ∃ error, Rule.joinClause.parse.run productions limit room _ c = .failed error c ∧
      ∀ t ∈ Terminal.named error.expected, t = Keyword.JOIN by
    obtain ⟨error, hrun, hnamed⟩ := h
    exact ⟨error, run_bind_of_failed hrun, hnamed⟩
  cases room with
  | zero => exact ⟨c.tooDeep limit, rfl, fun t ht => by cases ht⟩
  | succ room =>
    change ∃ error, joinClause.run productions limit room _ c = .failed error c ∧ _
    rw [joinClause, kind, run_bind_of_done (run_look limit room c 0)]
    split
    · exact ⟨_, run_unsupported limit room c _, fun t ht => by cases ht⟩
    · exact ⟨_, run_unexpected limit room c _, fun t ht =>
        (Terminal.mem_named_text (t := Keyword.JOIN)).1 ht⟩

/-- Where a join is all that is left to choose, it is all that is named besides what is known. -/
theorem exists_run_firstOf_join (limit room : Nat) (known : List String) (c : Cursor) :
    ∃ error, (firstOf known [SelectSource.join <$> Rule.joinClause.parse]).run productions limit
      room _ c = .failed error c ∧
        ∀ t ∈ Terminal.named error.expected, t ∈ Terminal.named known ∨ t = Keyword.JOIN := by
  obtain ⟨error, hrun, hnamed⟩ := exists_run_joinClause limit room c
  cases hmismatch : error.isMismatchAt c.current.span.start with
  | true =>
    rw [run_firstOf_of_mismatch hrun hmismatch]
    exact ⟨_, run_unexpected limit room c _, fun t ht =>
      (Terminal.mem_named_mergeExpected ht).imp_right (hnamed t)⟩
  | false =>
    exact ⟨_, run_firstOf_of_committed hrun hmismatch _ _, fun t ht => .inr (hnamed t ht)⟩

section Goals

variable (hgoals : GoalsPrompt limit room)

include hgoals

/-- A source is a table; where none starts, a join is looked for, and fails at the same place. -/
theorem strict_selectSource : Strict productions limit room selectSource (fun _ => True)
    (fun _ ss => endsItem (kindAhead ss 0) = true) := by
  have htable : Strict productions limit room (SelectSource.table <$> Rule.tableSource.parse)
      (fun _ => True) (fun _ ss => endsItem (kindAhead ss 0) = true) :=
    (hgoals.parse .tableSource rfl).map _
  have hreads {ss rest : List Symbol} {v : SelectSource}
      (h : Reads (SelectSource.table <$> Rule.tableSource.parse) ss v rest) :
      Reads selectSource ss v rest := reads_firstOf h
  refine ⟨?_, fun c => ?_⟩
  · obtain ⟨ts, v, hcompletes⟩ := htable.writable
    exact ⟨ts, v, fun tail htail => ⟨trivial, hreads (hcompletes tail htail).2⟩⟩
  · have hsame (h : selectSource.run productions limit room _ c =
        (SelectSource.table <$> Rule.tableSource.parse).run productions limit room _ c) :
        PromptAt productions limit room selectSource (fun _ => True)
          (fun _ ss => endsItem (kindAhead ss 0) = true) c :=
      promptAt_step (List.nil_append c.symbols).symm h (fun _ _ _ _ => hreads) (fun _ => id)
        (htable.promptAt c) fun hne => absurd rfl hne
    cases hrun : (SelectSource.table <$> Rule.tableSource.parse).run productions limit room _ c with
    | done v c' => exact hsame ((run_firstOf_of_done hrun _ _).trans hrun.symm)
    | failed error c' =>
      cases hmismatch : error.isMismatchAt c.current.span.start with
      | true =>
        obtain ⟨error', hjoin, hnamed⟩ :=
          exists_run_firstOf_join limit room (mergeExpected [] error.expected) c
        refine promptAt_of_failed ((run_firstOf_of_mismatch hrun hmismatch _ _).trans hjoin)
          fun t ht haccepted => ?_
        -- the table has named nothing, and the join is refused
        rcases hnamed t ht with hknown | rfl
        · rcases Terminal.mem_named_mergeExpected hknown with hnone | htable
          · cases hnone
          · rw [nameless_tableSource.map _ limit room c error c' hrun] at htable
            cases htable
        · cases haccepted
      | false => exact hsame ((run_firstOf_of_committed hrun hmismatch _ _).trans hrun.symm)

/-! ## Clauses -/

omit hgoals in
theorem EndsStatement.opens {ss : List Symbol} (h : EndsStatement ss) : Opens [] ss :=
  .of_endsQuery h

omit hgoals in
theorem EndsStatement.item {ss : List Symbol} (h : EndsStatement ss) :
    endsItem (kindAhead ss 0) = true := h.opens.all rfl

omit hgoals in
theorem EndsStatement.operand {ss : List Symbol} {least : Nat} (h : EndsStatement ss) :
    EndsOperand least ss := .of_endsExpr (h.opens.all rfl)

omit hgoals in
theorem endsItem_of_comma {ss : List Symbol} (h : StartsWith Operator.comma ss) :
    endsItem (kindAhead ss 0) = true := by
  rw [h]
  rfl

/-- An expression behind a keyword, where the query may also end. -/
theorem prompt_exprBehind (word : Keyword)
    (hword : TokenKind.keyword word ∉ openingKinds [])
    (hreach : (Terminal.kind word).reach = 0) :
    Prompt productions limit room (behind? word Rule.expr.parse) EndsStatement
      (fun _ => EndsStatement) :=
  prompt_behind? hreach hgoals.expr.prompt (fun _ _ => EndsStatement.operand) fun _ hss =>
    hss.opens.ne hword

theorem prompt_sources : Prompt productions limit room sources EndsStatement
    (fun _ => EndsStatement) := by
  have hrefuse (sources : List SelectSource) : Prompt productions limit room
      (kind >>= fun now => if startsJoin now then unsupported "JOIN clause" else pure sources)
      EndsStatement (fun _ => EndsStatement) := by
    refine prompt_refuse startsJoin "JOIN clause" (fun _ h => if_pos h)
      (fun kind h => if_neg (by rw [h]; nofun)) fun ss hss => ?_
    have hjoin := hss.opens.all (p := fun kind => !startsJoin kind) rfl
    rwa [Bool.not_eq_true'] at hjoin
  have hlist : Strict productions limit room (commaSeparated Rule.selectSource.parse)
      (fun _ => True) (fun _ => EndsStatement) :=
    strict_commaSeparated (hgoals.parse .selectSource rfl)
      (fun _ ss hss => endsItem_of_comma hss) (fun _ _ => EndsStatement.item)
      (fun _ hss => hss.opens.ne (by decide)) (loopMoves_behind _ _)
  exact prompt_accept rfl (prompt_bind hrefuse (fun _ _ => id) hlist.prompt)
    (prompt_give fun _ => id) fun _ hss => hss.opens.ne (by decide)

theorem prompt_grouping : Prompt productions limit room grouping EndsStatement
    (fun _ => EndsStatement) := by
  have hexprs : Strict productions limit room (commaSeparated Rule.expr.parse) StartsOperand
      (fun _ => EndsStatement) :=
    strict_exprs hgoals (fun _ hss => hss.opens.all rfl) fun _ hss => hss.opens.ne (by decide)
  have hhaving := prompt_exprBehind hgoals .HAVING (by decide) rfl
  have hgroups := prompt_bind (fun groupBy : List Expr => hhaving.map (Prod.mk groupBy))
    (fun _ _ => id) hexprs.prompt
  exact prompt_acceptAll rfl hgroups (prompt_give fun _ => id) fun _ hss =>
    terminalsAhead_of_ne (hss.opens.ne (by decide))

theorem strict_limitClause : Strict productions limit room limitClause StartsOperand
    (fun _ => EndsStatement) := by
  have hexpr : Strict productions limit room Rule.expr.parse StartsOperand
      (fun _ => EndsStatement) := hgoals.expr.mono (fun _ => id) fun _ _ => EndsStatement.operand
  have hoffset (first : Expr) := (hexpr.map fun offset => LimitClause.mk first (some offset)).prompt
  have hlimit (first : Expr) := (hexpr.map fun limit => LimitClause.mk limit (some first)).prompt
  have hswapped (first : Expr) : Prompt productions limit room
      (accept Operator.comma >>= fun swapped =>
        if swapped then Rule.expr.parse >>= fun limit => pure (LimitClause.mk limit (some first))
        else pure (LimitClause.mk first none))
      (fun ss => StartsWith Operator.comma ss ∨ EndsStatement ss) (fun _ => EndsStatement) :=
    prompt_accept_either (hlimit first) (prompt_give fun _ => id) fun _ hss =>
      hss.opens.ne (by decide)
  have hmore (first : Expr) : Prompt productions limit room
      (accept Keyword.OFFSET >>= fun offset =>
        if offset then Rule.expr.parse >>= fun offset => pure (LimitClause.mk first (some offset))
        else accept Operator.comma >>= fun swapped =>
          if swapped then Rule.expr.parse >>= fun limit => pure (LimitClause.mk limit (some first))
          else pure (LimitClause.mk first none))
      (fun ss => StartsWith Operator.comma ss ∨ EndsStatement ss) (fun _ => EndsStatement) :=
    prompt_accept rfl (hoffset first) (hswapped first) fun _ hss =>
      hss.elim (fun hcomma => ne_of_startsWith hcomma (by decide)) fun hends =>
        hends.opens.ne (by decide)
  refine strict_bind hmore (fun _ _ hss => hss.elim (fun hcomma => ?_) EndsStatement.operand)
    hgoals.expr
  exact .of_endsExpr (endsExpr_of_endsItem (endsItem_of_comma hcomma))

omit hgoals in
/-- Items behind their words, before what is no further item. -/
theorem prompt_listBehind {item : Production α} {enter leave : List Symbol → Prop} {t : Terminal}
    {ts : List Terminal} (hitem : Strict productions limit room item enter (fun _ => leave))
    (hcomma : ∀ ss, StartsWith Operator.comma ss → leave ss) (hfit : ∀ ss, fit ss → leave ss)
    (hlast : ∀ ss, fit ss → ¬ StartsWith Operator.comma ss) (hreach : t.kind.reach = ts.length)
    (hne : ∀ ss, fit ss → kindAhead ss 0 ≠ t.kind) :
    Prompt productions limit room (listBehind (t :: ts) item) fit (fun _ => fit) := by
  have hlist : Strict productions limit room (commaSeparated item) enter (fun _ => fit) :=
    strict_commaSeparated hitem (fun _ => hcomma) (fun _ => hfit) hlast (loopMoves_behind _ _)
  exact prompt_acceptAll hreach hlist.prompt (prompt_give fun _ => id) fun ss hss =>
    terminalsAhead_of_ne (hne ss hss)

/-! ## Parts of a query -/

omit hgoals in
theorem prompt_distinct : Prompt productions limit room distinct Rule.resultColumn.Enters
    (fun _ => Rule.resultColumn.Enters) := by
  have hne {ss : List Symbol} {word : Keyword} (h : Rule.resultColumn.Enters ss)
      (hword : startsExpr (.keyword word) = false) : kindAhead ss 0 ≠ .keyword word := by
    rcases h with h | h
    · rw [h]
      nofun
    · exact TokenKind.ne_of_holds h hword
  have hall : Prompt productions limit room (accept Keyword.ALL >>= fun _ => pure false)
      Rule.resultColumn.Enters (fun _ => Rule.resultColumn.Enters) :=
    prompt_accept (t := Keyword.ALL) (f := fun _ => pure false) rfl (prompt_give fun _ => id)
      (prompt_give fun _ => id) fun _ hss => hne hss rfl
  exact prompt_accept rfl (prompt_give fun _ => id) hall fun _ hss => hne hss rfl

omit hgoals in
theorem writable_resultColumn : Writable productions resultColumn Rule.resultColumn.Enters
    (fun _ ss => endsItem (kindAhead ss 0) = true) :=
  ⟨[Filler.terminal Operator.star], .all, fun _ _ =>
    ⟨.inl rfl, reads_bind (reads_accept_true rfl) (reads_pure _ _)⟩⟩

/-- A result column, told from an expression by the star. -/
theorem strict_resultColumn : Strict productions limit room resultColumn Rule.resultColumn.Enters
    (fun _ ss => endsItem (kindAhead ss 0) = true) where
  writable := writable_resultColumn
  promptAt c := by
    have halias : Prompt productions limit room aliasName?
        (fun ss => endsItem (kindAhead ss 0) = true)
        (fun _ ss => endsItem (kindAhead ss 0) = true) :=
      prompt_aliasName? (fun _ => isIdentifier_of_endsItem) fun _ hss => ne_of_endsItem hss rfl
    have hexpr : Strict productions limit room
        (Rule.expr.parse >>= fun value => ResultColumn.expr value <$> aliasName?) StartsOperand
        (fun _ ss => endsItem (kindAhead ss 0) = true) :=
      strict_bind (fun value => halias.map (ResultColumn.expr value))
        (fun _ _ hss => .of_endsExpr (endsExpr_of_endsItem hss)) hgoals.expr
    refine promptAt_accept (fun s ss _ hs => ?_) fun hstar => ?_
    · exact (prompt_pure ResultColumn.all).anywhere.behind fun _ _ => .inl hs
    refine promptAt_kind (promptAt_of_done (run_areAhead _ 1)
      (fun ss hss => ⟨_, reads_areAhead ss _ 1, hss⟩) ?_)
    cases hall : (c.kindAt 0).isIdentifier &&
        terminalsAhead c.symbols 1 [Operator.dot, Operator.star] with
    | true =>
      rw [Bool.and_eq_true] at hall
      obtain ⟨own, hkind⟩ := exists_name_of_isIdentifier hall.1
      obtain ⟨s, ss, hsymbols, hs⟩ := exists_symbols_of_kindAt hkind nofun
      have hstars : Strict productions limit room
          (expectAll [Operator.dot, Operator.star] >>= fun _ => pure (ResultColumn.allOf own))
          (fun ss => terminalsAhead ss 0 [Operator.dot, Operator.star] = true)
          (fun _ ss => endsItem (kindAhead ss 0) = true) :=
        strict_bind (fun _ => prompt_give fun _ => id) (fun _ _ _ => trivial) (strict_expectAll _)
      refine promptAt_step (symbols_eq_singleton_append hsymbols (by rw [hs]; nofun))
        (run_bind_of_done (run_identifier_of_kind hkind))
        (fun new v rest _ hread => reads_bind (reads_identifier_of_kind hs new) hread)
        (fun new hnew => ?_) (hstars.promptAt _) fun _ => hstars.writable
      have hsame : kindAhead ([s] ++ new) 0 = c.kindAt 0 := hs.trans hkind.symm
      refine ⟨⟨⟨.inr ?_, by rw [hsame]; exact hstar⟩, hsame⟩, ?_⟩
      · rw [hsame, hkind]
        rfl
      · rw [List.singleton_append, terminalsAhead_cons_succ, hnew, hall.1, Bool.true_and]
    | false =>
      refine ((hexpr.promptAt c).sameHead quietAt_expr.bind).mono (fun ss hss => ?_) fun _ _ => id
      obtain ⟨⟨hstart, hnone⟩, hsame⟩ := hss
      refine ⟨⟨⟨.inr hstart, by rw [hsame]; exact hstar⟩, hsame⟩, ?_⟩
      rw [startsAllOf, hsame] at hnone
      rw [hnone]

omit hgoals in
theorem prompt_refuseCompound : Prompt productions limit room refuseCompound EndsStatement
    (fun _ => EndsStatement) := by
  refine prompt_refuse TokenKind.addsQuery "compound SELECT" (v := ())
    (fun k h => ?_) (fun k h => ?_) fun ss hss => ?_
  · unfold TokenKind.addsQuery at h
    split at h <;> first | rfl | cases h
  · split <;> first | rfl | cases h
  · have hadds := hss.opens.all (p := fun kind => !kind.addsQuery) rfl
    rwa [Bool.not_eq_true'] at hadds

theorem strict_orderingTerm : Strict productions limit room orderingTerm (fun _ => True)
    (fun _ ss => endsItem (kindAhead ss 0) = true) := by
  have hdirection : Prompt productions limit room direction?
      (fun ss => endsItem (kindAhead ss 0) = true)
      (fun _ ss => endsItem (kindAhead ss 0) = true) :=
    prompt_direction? (fun _ hss => ne_of_endsItem hss rfl) fun _ hss => ne_of_endsItem hss rfl
  refine (strict_bind (fun key => hdirection.map (OrderingTerm.mk key)) (fun _ _ hss => ?_)
    hgoals.expr).mono (fun _ _ => trivial) fun _ _ => id
  exact .of_endsExpr (endsExpr_of_endsItem hss)

theorem strict_select : Strict productions limit room select (StartsWith SELECT)
    (fun _ => EndsStatement) := by
  have hcolumns : Strict productions limit room (commaSeparated Rule.resultColumn.parse)
      Rule.resultColumn.Enters (fun _ => EndsStatement) :=
    strict_commaSeparated (hgoals.parse .resultColumn rfl) (fun _ _ => endsItem_of_comma)
      (fun _ _ => EndsStatement.item) (fun _ hss => hss.opens.ne (by decide)) (loopMoves_behind _ _)
  have hwhere := prompt_exprBehind hgoals .WHERE (by decide) rfl
  have horder : Prompt productions limit room (listBehind [ORDER, BY] Rule.orderingTerm.parse)
      EndsStatement (fun _ => EndsStatement) :=
    prompt_listBehind (hgoals.parse .orderingTerm rfl) (fun _ => endsItem_of_comma)
      (fun _ => EndsStatement.item) (fun _ hss => hss.opens.ne (by decide)) rfl
      fun _ hss => hss.opens.ne (by decide)
  have hlimit : Prompt productions limit room (behind? LIMIT limitClause) EndsStatement
      (fun _ => EndsStatement) :=
    prompt_behind? rfl (strict_limitClause hgoals).prompt (fun _ _ => id) fun _ hss =>
      hss.opens.ne (by decide)
  -- the clauses from the last to the first
  have htail (distinct : Bool) (columns : List ResultColumn) (sources : List SelectSource)
      (filter : Option Expr) (groupBy : List Expr) (having : Option Expr) :
      Prompt productions limit room (do
        refuseCompound
        let orderBy ← listBehind [ORDER, BY] Rule.orderingTerm.parse
        let limit ← behind? LIMIT limitClause
        refuseCompound
        return Select.mk distinct columns sources filter groupBy having orderBy limit)
      EndsStatement (fun _ => EndsStatement) :=
    prompt_bind (fun _ => prompt_bind (fun orderBy => prompt_bind (fun limit =>
      prompt_refuseCompound.map fun _ => Select.mk _ _ _ _ _ _ orderBy limit)
      (fun _ _ => id) hlimit) (fun _ _ => id) horder) (fun _ _ => id) prompt_refuseCompound
  have hclauses (distinct : Bool) (columns : List ResultColumn) :=
    prompt_bind (fun sources => prompt_bind (fun filter => prompt_bind
      (fun groups : List Expr × Option Expr =>
        htail distinct columns sources filter groups.1 groups.2)
      (fun _ _ => id) (prompt_grouping hgoals)) (fun _ _ => id) hwhere)
      (fun _ _ => id) (prompt_sources hgoals)
  have hquery := strict_expect_bind (t := SELECT) (prompt_bind (fun distinct =>
    prompt_bind (hclauses distinct) (fun _ _ => id) hcolumns.prompt) (fun _ _ => id)
      prompt_distinct)
  exact strict_refusedAt (t := WITH) "common table expression" hquery fun _ hss =>
    ne_of_startsWith hss (by decide)

end Goals

end SqlGrammar.Grammar
