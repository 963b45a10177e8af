import SqlGrammar.Proofs.Reading.Phrase

/-!
# Reading the clauses of a query

The clauses of a query come in a fixed order, and each may be missing. What is left of a query
behind a clause starts with the keyword of a later clause or with what ends the query (`Opens`), and
so with nothing that the clause itself could go on with.
-/

set_option autoImplicit false

namespace SqlGrammar

open SqlGrammar.Parser Grammar

namespace Grammar

/-! ## What stands behind a clause -/

/-- The kinds of symbols that can start what is left of a query: those of further clauses, and those
that end it. -/
def openingKinds (words : List Keyword) : List TokenKind :=
  [.eof, .operator .rightParen, .operator .semicolon] ++ words.map .keyword

/-- What is left starts with one of the keywords, or with what ends a query. -/
def Opens (words : List Keyword) (ss : List Symbol) : Prop := kindAhead ss 0 ∈ openingKinds words

section Opens

variable {words : List Keyword} {ss rest : List Symbol}

/-- What ends a query opens no clause, and so `Opens` whatever clauses there may be. -/
theorem Opens.of_endsQuery (h : endsQuery (kindAhead ss 0) = true) : Opens words ss := by
  have hmem : kindAhead ss 0 ∈ [TokenKind.eof, .operator .rightParen, .operator .semicolon] :=
    List.contains_iff_mem.1 h
  exact List.mem_append_left _ hmem

/-- `Opens` allows one more clause. -/
theorem Opens.weaken (h : Opens words ss) (word : Keyword) : Opens (word :: words) ss := by
  rcases List.mem_append.1 h with hend | hword
  · exact List.mem_append_left _ hend
  · exact List.mem_append_right _ (List.mem_cons_of_mem _ hword)

/-- What holds of all kinds that may open holds of the one ahead. -/
theorem Opens.all (h : Opens words ss) {p : TokenKind → Bool}
    (hp : (openingKinds words).all p = true) : p (kindAhead ss 0) = true :=
  List.all_eq_true.1 hp _ h

/-- A kind that may not open is not ahead. -/
theorem Opens.ne (h : Opens words ss) {kind : TokenKind} (hkind : kind ∉ openingKinds words) :
    kindAhead ss 0 ≠ kind := by
  intro heq
  rw [Opens, heq] at h
  exact hkind h

theorem Opens.notMem (h : Opens words ss) {kinds : List TokenKind}
    (hkinds : (openingKinds words).all (fun kind => !kinds.contains kind) = true) :
    kindAhead ss 0 ∉ kinds := by
  have hmem := h.all hkinds
  simpa using hmem

theorem Opens.keyword (word : Keyword) (ss : List Symbol) :
    Opens (word :: words) (.keyword word :: ss) := by
  simp [Opens, openingKinds]

/-- A clause that may be left out: its first word opens it, or what follows does. -/
theorem Opens.clause (h : Opens words rest) (word : Keyword) (more : List Keyword)
    (o : Option (List Piece)) :
    Opens (word :: words) (Pieces.symbols (Pieces.clause (word :: more) o) ++ rest) := by
  cases o with
  | none => exact h.weaken word
  | some ps =>
    rw [Pieces.symbols_clause_some]
    exact .keyword word _

/-- As `Opens.clause`, for a list that may be empty. -/
theorem Opens.listClause (h : Opens words rest) (word : Keyword) (more : List Keyword)
    (items : List (List Piece)) :
    Opens (word :: words) (Pieces.symbols (Pieces.listClause (word :: more) items) ++ rest) := by
  cases items with
  | nil => exact h.weaken word
  | cons ps items =>
    rw [Pieces.symbols_listClause_cons]
    exact .keyword word _

end Opens

/-! ## Clauses -/

section Clauses

variable {words : List Keyword} {rest : List Symbol}

/-- Nothing is read where no query is added. -/
theorem reads_refuseCompound
    (h : kindAhead rest 0 ∉ [TokenKind.keyword .UNION, .keyword .INTERSECT, .keyword .EXCEPT]) :
    Reads refuseCompound rest () rest := by
  refine reads_bind (reads_kind rest) ?_
  generalize kindAhead rest 0 = kind at h
  split
  · exact absurd (by simp) h
  · exact absurd (by simp) h
  · exact absurd (by simp) h
  · exact reads_pure _ _

theorem reads_distinct (set : Bool) (h : kindAhead rest 0 ≠ .keyword .DISTINCT)
    (hall : kindAhead rest 0 ≠ .keyword .ALL) :
    Reads distinct (Pieces.symbols (Pieces.flag [.DISTINCT] set) ++ rest) set rest := by
  refine reads_bind (reads_accept_flag _ _ fun _ => h) ?_
  cases set with
  | true => exact reads_pure _ _
  | false => exact reads_bind (reads_accept_false hall) (reads_pure _ _)

/-- The sources end where the next clause opens, and that is no `JOIN`. -/
theorem reads_sources (sources : List SelectSource)
    (h : Opens [.WHERE, .GROUP, .ORDER, .LIMIT] rest) :
    Reads Grammar.sources
      (Pieces.symbols (Pieces.listClause [.FROM] (sources.map SelectSource.pieces)) ++ rest) sources
      rest := by
  cases sources with
  | nil => exact reads_bind (reads_accept_false (h.ne (by decide))) (reads_pure _ _)
  | cons source others =>
    have hlist := reads_commaList (p := Rule.selectSource.parse) SelectSource.pieces id
      (fun kind => endsItem kind = true) (source :: others) rest
      (fun s _ more hmore => reads_goal (reads_selectSource s hmore)) (by simp) rfl
      (h.all rfl) (h.ne (by decide))
    -- no clause behind the sources is a join
    have hjoin : startsJoin (kindAhead rest 0) = false := by
      have := h.all (p := fun kind => !startsJoin kind) rfl
      simpa using this
    rw [List.map_id] at hlist
    rw [List.map_cons, Pieces.symbols_listClause_cons, List.append_assoc]
    refine reads_bind (reads_accept_true rfl) (reads_bind hlist (reads_bind (reads_kind _) ?_))
    rw [hjoin]
    exact reads_pure _ _

theorem reads_exprs {es : List Expr} (h : ∀ e ∈ es, e.ReadsBack) (hne : es ≠ [])
    (hends : endsExpr (kindAhead rest 0) = true) (hcomma : kindAhead rest 0 ≠ .operator .comma) :
    Reads (commaSeparated Rule.expr.parse)
      (Pieces.symbols (Pieces.commaList (es.map Expr.pieces)) ++ rest)
      (es.map (Expr.regroup .written)) rest :=
  reads_commaList _ _ (fun kind => endsExpr kind = true) es rest
    (fun e he _ hmore => (h e he).reads hmore) hne rfl hends hcomma

/-- An expression behind a keyword, if there is one. -/
theorem reads_exprBehind (word : Keyword) (e : Option Expr) (rest : List Symbol)
    (h : ∀ x ∈ e, x.ReadsBack) (hends : endsExpr (kindAhead rest 0) = true)
    (hword : kindAhead rest 0 ≠ .keyword word) :
    Reads (behind? word Rule.expr.parse)
      (Pieces.symbols (Pieces.clause [word] (e.map Expr.pieces)) ++ rest)
      (e.map (Expr.regroup .written)) rest :=
  reads_behind_clause word _ _ e rest (fun x hx => (h x hx).reads hends) fun _ => hword

/-- The pieces of the groups of a query, and of what is demanded of them. -/
def groupingPieces (groupBy : List Expr) (having : Option Expr) : List Piece :=
  Pieces.listClause [.GROUP, .BY] (groupBy.map Expr.pieces) ++
    if groupBy.isEmpty then [] else Pieces.clause [.HAVING] (having.map Expr.pieces)

/-- The groups, and what is demanded of them, which is written only with groups. -/
theorem reads_grouping (groupBy : List Expr) (having : Option Expr)
    (hgroups : ∀ e ∈ groupBy, e.ReadsBack) (hdemand : ∀ e ∈ having, e.ReadsBack)
    (hempty : having.isSome = true → groupBy ≠ []) (h : Opens [.ORDER, .LIMIT] rest) :
    Reads grouping (Pieces.symbols (groupingPieces groupBy having) ++ rest)
      (groupBy.map (Expr.regroup .written), having.map (Expr.regroup .written)) rest := by
  cases groupBy with
  | nil =>
    -- nothing is demanded of groups that are not there
    have hnone : having = none := by
      cases having with
      | none => rfl
      | some e => exact absurd rfl (hempty rfl)
    subst hnone
    exact reads_bind (reads_acceptAll_false (terminalsAhead_of_ne (h.ne (by decide))))
      (reads_pure _ _)
  | cons e es =>
    have hbehind : Opens [.HAVING, .ORDER, .LIMIT]
        (Pieces.symbols (Pieces.clause [.HAVING] (having.map Expr.pieces)) ++ rest) :=
      h.clause .HAVING [] _
    have hsymbols : Pieces.symbols (groupingPieces (e :: es) having) ++ rest =
        [Keyword.GROUP, .BY].map Symbol.keyword ++
          (Pieces.symbols (Pieces.commaList ((e :: es).map Expr.pieces)) ++
            (Pieces.symbols (Pieces.clause [.HAVING] (having.map Expr.pieces)) ++ rest)) := by
      rw [groupingPieces, List.map_cons, Pieces.symbols_append, Pieces.symbols_listClause_cons,
        List.append_assoc, List.append_assoc]
      rfl
    rw [hsymbols, map_symbol_keyword]
    refine reads_bind (reads_acceptAll_true _ _) (reads_bind (reads_exprs hgroups (by simp)
      (hbehind.all rfl) (hbehind.ne (by decide))) ?_)
    exact reads_bind (reads_exprBehind .HAVING having rest hdemand (h.all rfl) (h.ne (by decide)))
      (reads_pure _ _)

/-- Groups that are left out leave what follows to open. -/
theorem opens_grouping (groupBy : List Expr) (having : Option Expr)
    (h : Opens [.ORDER, .LIMIT] rest) :
    Opens [.GROUP, .ORDER, .LIMIT] (Pieces.symbols (groupingPieces groupBy having) ++ rest) := by
  cases groupBy with
  | nil => exact h.weaken .GROUP
  | cons e es =>
    rw [groupingPieces, List.map_cons, Pieces.symbols_append, Pieces.symbols_listClause_cons]
    exact .keyword .GROUP _

end Clauses

/-! ## Queries -/

/-- A result column starts like an expression, or with a star. -/
theorem startsColumn {P : Phrase → Prop} {column : ResultColumn}
    (h : (Phrase.column column).WellFormed P) (rest : List Symbol) :
    startsExpr (kindAhead (Pieces.symbols column.pieces ++ rest) 0) = true ∨
      kindAhead (Pieces.symbols column.pieces ++ rest) 0 = .operator .star := by
  cases column with
  | all => exact .inr rfl
  | allOf table => exact .inl rfl
  | expr value aliasName =>
    rw [ResultColumn.pieces, Pieces.symbols_append, List.append_assoc]
    exact .inl (Expr.startsExpr (P := P) (h.part (q := .expr value) (by simp [Phrase.parts])) _)

theorem startsColumn_ne {P : Phrase → Prop} {column : ResultColumn}
    (h : (Phrase.column column).WellFormed P) (rest : List Symbol) {other : TokenKind}
    (hother : startsExpr other = false) (hstar : other ≠ .operator .star) :
    kindAhead (Pieces.symbols column.pieces ++ rest) 0 ≠ other := by
  rcases startsColumn h rest with hstart | heq
  · exact TokenKind.ne_of_holds hstart hother
  · rw [heq]
    exact hstar.symm

end Grammar

/-- The pieces of a query, clause by clause. -/
theorem Select.symbols_pieces (q : Select) (rest : List Symbol) :
    Pieces.symbols q.pieces ++ rest = .keyword .SELECT ::
      (Pieces.symbols (Pieces.flag [.DISTINCT] q.distinct) ++
        (Pieces.symbols (Pieces.commaList (q.columns.map ResultColumn.pieces)) ++
          (Pieces.symbols (Pieces.listClause [.FROM] (q.sources.map SelectSource.pieces)) ++
            (Pieces.symbols (Pieces.clause [.WHERE] (q.filter.map Expr.pieces)) ++
              (Pieces.symbols (Grammar.groupingPieces q.groupBy q.having) ++
                (Pieces.symbols
                    (Pieces.listClause [.ORDER, .BY] (q.orderBy.map OrderingTerm.pieces)) ++
                  (Pieces.symbols (Pieces.clause [.LIMIT] (q.limit.map LimitClause.pieces)) ++
                    rest))))))) := by
  obtain ⟨distinct, columns, sources, filter, groupBy, having, orderBy, limit⟩ := q
  simp [Select.pieces, Grammar.groupingPieces]

namespace Grammar

variable {P : Phrase → Prop} {rest : List Symbol}

/-- The clauses of a query in order; each is left out where the next one opens. -/
theorem reads_select {q : Select} (hwf : q.WellFormed P)
    (h : ∀ p ∈ (Phrase.query q).parts, p.ReadsBack) (hends : endsQuery (kindAhead rest 0) = true) :
    Reads select (Pieces.symbols q.pieces ++ rest) (q.regroup .written) rest := by
  obtain ⟨hcolumns, hhaving⟩ := hwf.self.1
  -- what is left behind each clause
  have hend : Opens [] rest := .of_endsQuery hends
  have hlimit := hend.clause .LIMIT [] (q.limit.map LimitClause.pieces)
  have horder := hlimit.listClause .ORDER [.BY] (q.orderBy.map OrderingTerm.pieces)
  have hgroup := opens_grouping q.groupBy q.having horder
  have hwhere := hgroup.clause .WHERE [] (q.filter.map Expr.pieces)
  have hfrom := hwhere.listClause .FROM [] (q.sources.map SelectSource.pieces)
  -- what is read as each clause
  have hpart : ∀ p, p ∈ (Phrase.query q).parts → p.ReadsBack := h
  simp only [Phrase.parts, List.mem_append, Phrase.mem_ofOption, List.mem_map,
    Option.mem_toList] at hpart
  have readsColumns := reads_commaList (p := Rule.resultColumn.parse) ResultColumn.pieces
    (ResultColumn.regroup .written) (fun kind => endsItem kind = true) q.columns _
    (fun c hc more hmore => reads_goal (show Reads resultColumn _ _ _ from
      hpart (.column c) (.inl (.inl (.inl (.inl (.inl ⟨c, hc, rfl⟩))))) more hmore))
    hcolumns rfl (hfrom.all rfl) (hfrom.ne (by decide))
  have readsFilter := reads_exprBehind .WHERE q.filter _
    (fun x hx => hpart (.expr x) (.inl (.inl (.inl (.inl (.inr ⟨x, hx, rfl⟩)))))) (hgroup.all rfl)
    (hgroup.ne (by decide))
  have readsGrouping := reads_grouping q.groupBy q.having
    (fun x hx => hpart (.expr x) (.inl (.inl (.inl (.inr ⟨x, hx, rfl⟩)))))
    (fun x hx => hpart (.expr x) (.inl (.inl (.inr ⟨x, hx, rfl⟩)))) hhaving horder
  have readsOrder := reads_listBehind (p := Rule.orderingTerm.parse) .ORDER [.BY]
    OrderingTerm.pieces (OrderingTerm.regroup .written) q.orderBy _ (fun hne => reads_commaList _ _
      (fun kind => endsItem kind = true) q.orderBy _ (fun t ht more hmore => reads_goal
        (show Reads orderingTerm _ _ _ from
          hpart (.term t) (.inl (.inr ⟨t, ht, rfl⟩)) more hmore))
      hne rfl (hlimit.all rfl) (hlimit.ne (by decide))) (fun _ => hlimit.ne (by decide))
  have readsLimit := reads_behind_clause (p := limitClause) .LIMIT LimitClause.pieces
    (LimitClause.regroup .written) q.limit rest
    (fun l hl => hpart (.limit l) (.inr ⟨l, hl, rfl⟩) rest hends) (fun _ => hend.ne (by decide))
  -- the first column is not taken for a `DISTINCT` or `ALL`
  have hstart : ∀ more other, startsExpr other = false → other ≠ .operator .star →
      kindAhead (Pieces.symbols (Pieces.commaList (q.columns.map ResultColumn.pieces)) ++ more) 0 ≠
        other := by
    intro more other hother hstar
    obtain ⟨c, cs, hcs⟩ := List.exists_cons_of_ne_nil hcolumns
    rw [hcs, List.map_cons, Pieces.symbols_commaList_cons, List.append_assoc]
    exact startsColumn_ne (P := P) (hwf.part (q := .column c) (by simp [Phrase.parts, hcs])) _
      hother hstar
  rw [Select.symbols_pieces, Select.regroup_eq]
  exact reads_bind (reads_isAt_false (by simp [Terminal.kind])) (reads_bind (reads_expect rfl)
    (reads_bind (reads_distinct q.distinct (hstart _ _ rfl (by simp)) (hstart _ _ rfl (by simp)))
      (reads_bind readsColumns (reads_bind (reads_sources q.sources hwhere)
        (reads_bind readsFilter (reads_bind readsGrouping
          (reads_bind (reads_refuseCompound (horder.notMem rfl)) (reads_bind readsOrder
            (reads_bind readsLimit (reads_bind (reads_refuseCompound (hend.notMem rfl))
              (reads_pure _ _)))))))))))

end Grammar

end SqlGrammar
