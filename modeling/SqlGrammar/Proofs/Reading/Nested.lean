import SqlGrammar.Proofs.Reading.Query

/-!
# Reading phrases with phrases inside

Calls, sets, cases, casts and the items of the clauses of a query are read back if their parts are.
With the operators and the queries this covers every form of a phrase, so that all well-formed
phrases in which no operator is ambiguous are read back (`Phrase.readsBack`).
-/

set_option autoImplicit false

namespace SqlGrammar

open SqlGrammar.Parser Grammar

namespace Grammar

variable {P : Phrase → Prop} {rest : List Symbol}

/-! ## Lists in parentheses -/

/-- A list of expressions starts like its first expression. -/
theorem startsExpr_list (es : List Expr) (hwf : ∀ e ∈ es, e.WellFormed P) (hne : es ≠ [])
    (rest : List Symbol) : startsExpr
      (kindAhead (Pieces.symbols (Pieces.commaList (es.map Expr.pieces)) ++ rest) 0) = true := by
  obtain ⟨e, es, rfl⟩ := List.exists_cons_of_ne_nil hne
  rw [List.map_cons, Pieces.symbols_commaList_cons, List.append_assoc]
  exact Expr.startsExpr (hwf e (by simp)) _

/-- A query starts with its keyword. -/
theorem reads_startsQuery_true (q : Select) (rest : List Symbol) :
    Reads startsQuery (Pieces.symbols q.pieces ++ rest) true (Pieces.symbols q.pieces ++ rest) := by
  rw [Select.symbols_pieces]
  exact reads_bind (reads_isAt_true rfl) (reads_pure _ _)

theorem reads_inSet {set : InSet} (hwf : (Phrase.set set).WellFormed P)
    (h : ∀ p ∈ (Phrase.set set).parts, p.ReadsBack) :
    (Phrase.set set).ReadsBack := by
  intro rest
  cases set with
  | query q =>
    have hq : Reads select _ _ _ := h (.query q) (by simp [Phrase.parts])
      (.operator .rightParen :: rest) rfl
    exact reads_bind (reads_startsQuery_true q _) (reads_bind (reads_goal hq) (reads_pure _ _))
  | values es =>
    rw [InSet.regroup, regroupExprs_eq, InSet.pieces, exprsPieces_eq]
    cases es with
    | nil =>
      -- an empty set is a parenthesis and no query
      have hne : ∀ word, kindAhead (.operator .rightParen :: rest) 0 ≠ .keyword word := by simp
      exact reads_bind (reads_bind (reads_isAt_false (hne _)) (reads_isAt_false (hne _)))
        (reads_bind (reads_isAt_true rfl) (reads_pure _ _))
    | cons e es =>
      have hstart := startsExpr_list (P := P) (e :: es)
        (fun x hx => hwf.part (List.mem_map_of_mem hx)) (by simp) (.operator .rightParen :: rest)
      exact reads_bind (reads_startsQuery_false hstart) (reads_bind
        (reads_isAt_false (TokenKind.ne_of_holds hstart rfl)) (reads_bind (reads_exprs
          (fun x hx => h _ (List.mem_map_of_mem hx)) (by simp) rfl (by simp)) (reads_pure _ _)))

/-! ## Calls -/

theorem reads_callArgs {args : CallArgs} (hwf : (Phrase.args args).WellFormed P)
    (h : ∀ p ∈ (Phrase.args args).parts, p.ReadsBack) : (Phrase.args args).ReadsBack := by
  intro rest
  cases args with
  | star => exact reads_bind (reads_accept_true rfl) (reads_pure _ _)
  | list distinct es =>
    rw [CallArgs.regroup, regroupExprs_eq, CallArgs.pieces, exprsPieces_eq, Pieces.symbols_append,
      List.append_assoc]
    cases es with
    | nil =>
      cases distinct with
      | true => exact absurd rfl (hwf.self.1 rfl)
      | false =>
        have hne : kindAhead (.operator .rightParen :: rest) 0 ≠ .operator .star := by simp
        exact reads_bind (reads_accept_false hne) (reads_bind (reads_isAt_true rfl)
          (reads_pure _ _))
    | cons e es =>
      have hstart := startsExpr_list (P := P) (e :: es)
        (fun x hx => hwf.part (List.mem_map_of_mem hx)) (by simp) (.operator .rightParen :: rest)
      -- the arguments start with their `DISTINCT`, or like the first of them
      have hahead : ∀ other, startsExpr other = false → other ≠ .keyword .DISTINCT →
          kindAhead (Pieces.symbols (Pieces.flag [.DISTINCT] distinct) ++
            (Pieces.symbols (Pieces.commaList ((e :: es).map Expr.pieces)) ++
              .operator .rightParen :: rest)) 0 ≠ other := by
        intro other hother hdistinct
        cases distinct with
        | true => exact hdistinct.symm
        | false => exact TokenKind.ne_of_holds hstart hother
      exact reads_bind (reads_accept_false (hahead _ rfl (by simp [Terminal.kind]))) (reads_bind
        (reads_isAt_false (hahead _ rfl (by simp [Terminal.kind]))) (reads_bind
          (reads_accept_flag _ _ fun _ => TokenKind.ne_of_holds hstart rfl) (reads_bind (reads_exprs
            (fun x hx => h _ (List.mem_map_of_mem hx)) (by simp) rfl (by simp))
            (reads_pure _ _))))

theorem reads_functionCall {c : FunctionCall} (h : (Phrase.args c.args).ReadsBack) :
    (Phrase.call c).ReadsBack := by
  intro rest
  obtain ⟨name, args⟩ := c
  obtain ⟨s, hs, hcalls⟩ := symbols_calleePieces name
  have hsymbols : Pieces.symbols (FunctionCall.pieces ⟨name, args⟩) ++ rest =
      s :: .operator .leftParen ::
        (Pieces.symbols args.pieces ++ .operator .rightParen :: rest) := by
    simp [FunctionCall.pieces, hs]
  have hne : s.kind ≠ .eof := by
    intro heq
    have hkind := hcalls.kind
    rw [heq] at hkind
    cases hkind
  rw [hsymbols]
  refine reads_bind (reads_callee s _) ?_
  rw [hcalls.callee]
  exact reads_bind (reads_advance hne) (reads_bind (reads_parenthesized (h rest)) (reads_pure _ _))

/-! ## Items -/

theorem reads_whenBranch {b : WhenBranch} (hc : b.condition.ReadsBack) (hr : b.result.ReadsBack) :
    (Phrase.branch b).ReadsBack := by
  intro rest hends
  obtain ⟨condition, result⟩ := b
  exact reads_bind (hc.reads rfl) (reads_bind (reads_expect rfl) (reads_bind (hr.reads hends)
    (reads_pure _ _)))

theorem reads_resultColumn {c : ResultColumn} (hwf : (Phrase.column c).WellFormed P)
    (h : ∀ p ∈ (Phrase.column c).parts, p.ReadsBack) : (Phrase.column c).ReadsBack := by
  intro rest hends
  cases c with
  | all => exact reads_bind (reads_accept_true rfl) (reads_pure _ _)
  | allOf table =>
    refine reads_bind (reads_accept_false (by simp [Terminal.kind, ResultColumn.pieces]))
      (reads_bind (reads_kind _) (reads_bind (reads_areAhead _ _ 1) ?_))
    exact reads_bind (reads_identifier table _) (reads_bind
      (reads_expectAll [Terminal.operator .dot, .operator .star] rest) (reads_pure _ _))
  | expr value aliasName =>
    have hvalue : value.WellFormed P := hwf.part (q := .expr value) (by simp [Phrase.parts])
    have hread : value.ReadsBack := h (.expr value) (by simp [Phrase.parts])
    have hahead :
        endsExpr (kindAhead (Pieces.symbols (aliasPieces aliasName) ++ rest) 0) = true := by
      cases aliasName with
      | none => exact endsExpr_of_endsItem hends
      | some own => rfl
    have hstart := Expr.startsExpr hvalue (Pieces.symbols (aliasPieces aliasName) ++ rest)
    have hdot : kindAhead (Pieces.symbols (aliasPieces aliasName) ++ rest) 0 ≠ .operator .dot :=
      TokenKind.ne_of_holds hahead (by decide)
    -- no name, dot and star stand ahead, which would be read as all columns of a table
    have hall := Phrase.not_startsAllOf hvalue value rfl _ hdot
    rw [ResultColumn.pieces, Pieces.symbols_append, List.append_assoc]
    refine reads_bind (reads_accept_false (TokenKind.ne_of_holds hstart rfl))
      (reads_bind (reads_kind _) (reads_bind (reads_areAhead _ _ 1) ?_))
    rw [startsAllOf, Expr.symbols] at hall
    rw [hall]
    exact reads_bind (hread.reads hahead) (reads_bind (reads_aliasName? aliasName (.inl hends))
      (reads_pure _ _))

theorem reads_orderingTerm {t : OrderingTerm} (h : t.key.ReadsBack) :
    (Phrase.term t).ReadsBack := by
  intro rest hends
  obtain ⟨key, direction⟩ := t
  have hahead : endsExpr (kindAhead (Pieces.symbols (directionPieces direction) ++ rest) 0) =
      true := by
    rcases direction with _ | _ | _
    · exact endsExpr_of_endsItem hends
    · rfl
    · rfl
  rw [OrderingTerm.pieces, Pieces.symbols_append, List.append_assoc]
  exact reads_bind (h.reads hahead) (reads_bind (reads_direction? direction
    (TokenKind.ne_of_holds hends rfl) (TokenKind.ne_of_holds hends rfl)) (reads_pure _ _))

theorem reads_limitClause {l : LimitClause} (h : l.limit.ReadsBack)
    (ho : ∀ e ∈ l.offset, e.ReadsBack) : (Phrase.limit l).ReadsBack := by
  intro rest hends
  obtain ⟨limit, offset⟩ := l
  have hopens : Opens [] rest := .of_endsQuery hends
  rw [LimitClause.pieces, exprPieces?_eq, LimitClause.regroup, regroupExpr?_eq,
    Pieces.symbols_append, List.append_assoc]
  cases offset with
  | none =>
    exact reads_bind (h.reads (hopens.all rfl)) (reads_bind (reads_accept_false
      (hopens.ne (by decide))) (reads_bind (reads_accept_false (hopens.ne (by decide)))
        (reads_pure _ _)))
  | some offset =>
    exact reads_bind (h.reads rfl) (reads_bind (reads_accept_true rfl) (reads_bind
      ((ho offset rfl).reads (hopens.all rfl)) (reads_pure _ _)))

/-! ## Cases and casts -/

theorem symbols_branch (b : WhenBranch) : Pieces.symbols b.pieces =
    .keyword .WHEN :: (b.condition.symbols ++ .keyword .THEN :: b.result.symbols) := by
  obtain ⟨condition, result⟩ := b
  simp [WhenBranch.pieces, Expr.symbols]

/-- A branch behind its `WHEN`. -/
theorem reads_behind_branch {b : WhenBranch} (h : (Phrase.branch b).ReadsBack)
    (hends : endsExpr (kindAhead rest 0) = true) :
    Reads (behind? Keyword.WHEN whenBranch) (Pieces.symbols b.pieces ++ rest)
      (some (b.regroup .written)) rest := by
  rw [symbols_branch, List.cons_append, List.append_assoc]
  exact reads_behind_some rfl (h rest hends)

theorem symbols_caseWhen (operand otherwise : Option Expr) (branches : List WhenBranch)
    (rest : List Symbol) : (Expr.caseWhen operand branches otherwise).symbols ++ rest =
      .keyword .CASE :: (Pieces.symbols ((operand.map Expr.pieces).getD []) ++
        (branches.flatMap (fun b => Pieces.symbols b.pieces) ++
          (Pieces.symbols (Pieces.clause [.ELSE] (otherwise.map Expr.pieces)) ++
            .keyword .END :: rest))) := by
  simp [Expr.symbols, Expr.pieces, Pieces.symbols_flatMap]

/-- The operand of a case is there unless a branch comes first. -/
theorem reads_caseOperand {α : Type} {operand : Option Expr} {f : Option Expr → Production α}
    {v : α} {ss : List Symbol} (hwf : ∀ e ∈ operand, e.WellFormed P)
    (h : ∀ e ∈ operand, e.ReadsBack)
    (hf : Reads (f (operand.map (Expr.regroup .written))) (.keyword .WHEN :: ss) v rest) :
    Reads (isAt Keyword.WHEN >>= fun here =>
        if here then pure none >>= f else (some <$> Rule.expr.parse) >>= f)
      (Pieces.symbols ((operand.map Expr.pieces).getD []) ++ .keyword .WHEN :: ss) v rest := by
  cases operand with
  | none => exact reads_bind (reads_isAt_true rfl) (reads_bind (reads_pure _ _) hf)
  | some e =>
    have hstart := Expr.startsExpr (hwf e rfl) (.keyword .WHEN :: ss)
    exact reads_bind (reads_isAt_false (TokenKind.ne_of_holds hstart rfl))
      (reads_bind (reads_map ((h e rfl).reads rfl)) hf)

theorem reads_caseExpr {operand otherwise : Option Expr} {branches : List WhenBranch}
    (hwf : (Phrase.expr (.caseWhen operand branches otherwise)).WellFormed P)
    (h : ∀ p ∈ (Phrase.expr (.caseWhen operand branches otherwise)).parts, p.ReadsBack) :
    Reads caseExpr ((Expr.caseWhen operand branches otherwise).symbols ++ rest)
      ((Expr.caseWhen operand branches otherwise).regroup .written) rest := by
  obtain ⟨first, others, rfl⟩ := List.exists_cons_of_ne_nil hwf.self.1
  simp only [Phrase.parts, List.mem_append, Phrase.mem_ofOption, List.mem_map] at h
  have hbranch : ∀ b ∈ first :: others, (Phrase.branch b).ReadsBack :=
    fun b hb => h (.branch b) (.inl (.inr ⟨b, hb, rfl⟩))
  have hotherwise := reads_exprBehind .ELSE otherwise (.keyword .END :: rest)
    (fun x hx => h (.expr x) (.inr ⟨x, hx, rfl⟩)) rfl (by simp)
  -- what is left behind the last branch
  generalize hlast : Pieces.symbols (Pieces.clause [.ELSE] (otherwise.map Expr.pieces)) ++
    .keyword .END :: rest = last at hotherwise
  have hends : endsExpr (kindAhead last 0) = true ∧ kindAhead last 0 ≠ .keyword .WHEN := by
    subst hlast
    cases otherwise with
    | none => exact ⟨rfl, by simp⟩
    | some e => exact ⟨rfl, by simp⟩
  have hmany := reads_many (P := productions) (p := behind? Keyword.WHEN whenBranch)
    (fun b => Pieces.symbols b.pieces) (WhenBranch.regroup .written)
    (fun more => endsExpr (kindAhead more 0) = true) others
    (fun b hb more hmore => reads_behind_branch (hbranch b (by simp [hb])) hmore)
    (fun b _ => by simp [symbols_branch])
    (fun b _ more => by rw [symbols_branch]; rfl) hends.1 (reads_behind_none hends.2)
  -- behind the first branch stands the second one, or what ends the last
  have hmore : endsExpr (kindAhead
      (others.flatMap (fun b => Pieces.symbols b.pieces) ++ last) 0) = true := by
    cases others with
    | nil => exact hends.1
    | cons b bs =>
      rw [List.flatMap_cons, symbols_branch]
      rfl
  rw [symbols_caseWhen, hlast, List.flatMap_cons, symbols_branch, List.append_assoc,
    List.cons_append, List.append_assoc, List.cons_append]
  have hregroup : (Expr.caseWhen operand (first :: others) otherwise).regroup .written =
      .caseWhen (operand.map (Expr.regroup .written))
        (first.regroup .written :: others.map (WhenBranch.regroup .written))
        (otherwise.map (Expr.regroup .written)) := by
    simp [Expr.regroup]
  rw [hregroup]
  exact reads_bind (reads_expect rfl) (reads_caseOperand (P := P)
    (fun x hx => hwf.part (by simp_all [Phrase.parts, Phrase.ofOption]))
    (fun x hx => h (.expr x) (.inl (.inl ⟨x, hx, rfl⟩)))
    (reads_bind (reads_expect rfl) (reads_bind (hbranch first (by simp) _ hmore) (reads_bind hmany
      (reads_bind hotherwise (reads_bind (reads_expect rfl) (reads_pure _ _)))))))

theorem reads_castBody {subject : Expr} {type : TypeName} (h : subject.ReadsBack)
    (htype : type.WellMade) :
    Reads castBody (subject.symbols ++ .keyword .AS ::
        (Pieces.symbols type.pieces ++ .operator .rightParen :: rest))
      ((Expr.cast subject type).regroup .written) (.operator .rightParen :: rest) :=
  reads_bind (h.reads rfl) (reads_bind (reads_expect rfl) (reads_bind
    (reads_goal (reads_typeName htype rfl (by simp))) (reads_pure _ _)))

end Grammar

/-! ## All phrases -/

namespace Expr

variable {P : Phrase → Prop}

theorem readsBack_call {c : FunctionCall} (h : (Phrase.call c).ReadsBack) :
    (call c).ReadsBack := by
  obtain ⟨s, ss, hs, hcalls⟩ := c.symbols_pieces
  have hsymbols : (call c).symbols = s :: .operator .leftParen :: ss := hs
  -- no name of a function is a prefix operator
  have hkind : UnaryOp.ofKind? s.kind = none := by
    have hstart := hcalls.kind
    unfold startsCall at hstart
    split at hstart
    · next own heq => rw [heq]; rfl
    · next word heq => rw [heq]; cases word <;> first | rfl | cases hstart
    · cases hstart
  refine readsBack_of_primary (fun rest => ?_) fun rest _ => ?_
  · rw [hsymbols]
    exact hkind
  · have hread := h rest
    rw [hs] at hread
    rw [hsymbols]
    exact reads_primary_call hcalls rfl hread

theorem readsBack_cast {subject : Expr} {type : TypeName} (h : subject.ReadsBack)
    (htype : type.WellMade) : (cast subject type).ReadsBack := by
  refine readsBack_of_primary (fun _ => rfl) fun rest _ => ?_
  have hsymbols : (cast subject type).symbols ++ rest = .keyword .CAST :: .operator .leftParen ::
      (subject.symbols ++ .keyword .AS ::
        (Pieces.symbols type.pieces ++ .operator .rightParen :: rest)) := by
    simp [symbols, pieces]
  rw [hsymbols]
  exact reads_bind (reads_kind _) (reads_bind (reads_isNext _ _)
    (reads_bind (reads_advance (by simp)) (reads_parenthesized (reads_castBody h htype))))

theorem readsBack_existsRow {q : Select} (h : (Phrase.query q).ReadsBack) :
    (existsRow q).ReadsBack := by
  refine readsBack_of_primary (fun _ => rfl) fun rest _ => ?_
  have hsymbols : (existsRow q).symbols ++ rest = .keyword .EXISTS :: .operator .leftParen ::
      (Pieces.symbols q.pieces ++ .operator .rightParen :: rest) := by
    simp [symbols, pieces]
  have hread : Reads select _ _ _ := h (.operator .rightParen :: rest) rfl
  rw [hsymbols]
  exact reads_bind (reads_kind _) (reads_bind (reads_isNext _ _) (reads_bind
    (reads_advance (by simp)) (reads_bind (reads_parenthesized (reads_goal hread))
      (reads_pure _ _))))

theorem readsBack_subquery {q : Select} (h : (Phrase.query q).ReadsBack) :
    (subquery q).ReadsBack := by
  refine readsBack_of_primary (fun _ => rfl) fun rest _ => ?_
  have hsymbols : (subquery q).symbols ++ rest = .operator .leftParen ::
      (Pieces.symbols q.pieces ++ .operator .rightParen :: rest) := by
    simp [symbols, pieces]
  have hread : Reads select _ _ _ := h (.operator .rightParen :: rest) rfl
  rw [hsymbols]
  exact reads_primary_paren (reads_bind (reads_startsQuery_true q _)
    (reads_bind (reads_goal hread) (reads_pure _ _)))

/-- An expression is read back if its parts are. -/
theorem readsBack_of_parts {e : Expr} (hwf : e.WellFormed Phrase.Unambiguous)
    (h : ∀ p ∈ (Phrase.expr e).parts, p.ReadsBack) : e.ReadsBack := by
  obtain ⟨hmade, hclear⟩ := hwf.self
  have hpart : ∀ x, .expr x ∈ (Phrase.expr e).parts → x.WellFormed Phrase.Unambiguous :=
    fun x hx => hwf.part hx
  have hread : ∀ x, .expr x ∈ (Phrase.expr e).parts → x.ReadsBack := fun x hx => h _ hx
  cases e with
  | literal value => exact readsBack_literal hmade
  | parameter text => exact readsBack_parameter hmade
  | column schema table own => exact readsBack_column hmade
  | unary op operand =>
    exact readsBack_unary (hpart _ (by simp [Phrase.parts])) (hread _ (by simp [Phrase.parts]))
  | binary left op right =>
    have hl := hpart left (by simp [Phrase.parts])
    have hr := hpart right (by simp [Phrase.parts])
    have hleft := hread left (by simp [Phrase.parts])
    have hright := hread right (by simp [Phrase.parts])
    cases op with
    | is => exact readsBack_is hl hr hleft hright hclear.1 hclear.2
    | isNot => exact readsBack_isNot hl hr hleft hright hclear
    | _ => exact readsBack_binary hl hr hleft hright (by simp) (by simp)
  | like subject op pattern escape negated =>
    have hs := hpart subject (by simp [Phrase.parts])
    have hp := hpart pattern (by simp [Phrase.parts])
    have hsubject := hread subject (by simp [Phrase.parts])
    have hpattern := hread pattern (by simp [Phrase.parts])
    cases escape with
    | none => exact readsBack_like hs hp hsubject hpattern
    | some escape =>
      exact readsBack_like_escape hs hp (hpart escape (by simp [Phrase.parts])) hsubject hpattern
        (hread escape (by simp [Phrase.parts])) hclear
  | isNull subject negated =>
    exact readsBack_isNull (hpart _ (by simp [Phrase.parts])) (hread _ (by simp [Phrase.parts]))
  | between subject low high negated =>
    exact readsBack_between (hpart subject (by simp [Phrase.parts]))
      (hpart low (by simp [Phrase.parts])) (hpart high (by simp [Phrase.parts]))
      (hread subject (by simp [Phrase.parts])) (hread low (by simp [Phrase.parts]))
      (hread high (by simp [Phrase.parts]))
  | within subject set negated =>
    exact readsBack_within (hpart subject (by simp [Phrase.parts]))
      (hread subject (by simp [Phrase.parts])) (h (.set set) (by simp [Phrase.parts]))
  | collate subject collation =>
    exact readsBack_collate (hpart _ (by simp [Phrase.parts])) (hread _ (by simp [Phrase.parts]))
  | call c => exact readsBack_call (h (.call c) (by simp [Phrase.parts]))
  | cast subject type => exact readsBack_cast (hread subject (by simp [Phrase.parts])) hmade
  | caseWhen operand branches otherwise =>
    exact readsBack_of_primary (fun _ => rfl) fun rest _ => reads_bind (reads_kind _)
      (reads_bind (reads_isNext _ _) (reads_caseExpr hwf h))
  | existsRow q => exact readsBack_existsRow (h (.query q) (by simp [Phrase.parts]))
  | subquery q => exact readsBack_subquery (h (.query q) (by simp [Phrase.parts]))
  | paren inner =>
    exact readsBack_of_primary (fun _ => rfl) fun rest _ =>
      reads_paren (hpart inner (by simp [Phrase.parts])) (hread inner (by simp [Phrase.parts]))

end Expr

/-- A well-formed phrase in which no operator is ambiguous is read back. -/
theorem Phrase.readsBack {p : Phrase} (h : p.WellFormed Unambiguous) : p.ReadsBack := by
  induction h with
  | @intro p hself hparts ih =>
    -- every kind of phrase is read back if its parts are
    have hwf : p.WellFormed Unambiguous := ⟨hself, hparts⟩
    have hexpr : ∀ x, .expr x ∈ p.parts → x.WellFormed Unambiguous ∧ x.ReadsBack :=
      fun x hx => ⟨hparts _ hx, ih _ hx⟩
    cases p with
    | query q => exact fun rest hends => reads_select hwf ih hends
    | set s => exact reads_inSet hwf ih
    | args a => exact reads_callArgs hwf ih
    | call c => exact reads_functionCall (ih _ (by simp [parts]))
    | branch b =>
      exact reads_whenBranch (hexpr _ (by simp [parts])).2 (hexpr _ (by simp [parts])).2
    | column c => exact reads_resultColumn hwf ih
    | term t => exact reads_orderingTerm (hexpr _ (by simp [parts])).2
    | limit l =>
      exact reads_limitClause (hexpr _ (by simp [parts])).2
        fun e he => (hexpr e (by simp_all [parts, ofOption])).2
    | expr e => exact Expr.readsBack_of_parts hwf ih

end SqlGrammar
