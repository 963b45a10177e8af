import SqlGrammar.Proofs.Grammar.PromptGoals

/-!
# Expressions are prompt
-/

set_option autoImplicit false

namespace SqlGrammar.Grammar

open SqlGrammar.Parser

variable {limit room : Nat} {c : Cursor} (hgoals : GoalsPrompt limit room)

/-! ## Lists of expressions -/

theorem loopMoves_behind {α : Type} (t : Terminal) (p : Production α) :
    LoopMoves productions (List α) (collecting (behind? t p)) :=
  suits_loopMoves.behind t p

theorem ne_of_startsWith {t : Terminal} {kind : TokenKind} {ss : List Symbol}
    (h : StartsWith t ss) (hne : t.kind ≠ kind) : kindAhead ss 0 ≠ kind := by
  rw [h]
  exact hne

include hgoals

/-- Expressions with commas between them, before what ends an expression and is no comma. -/
theorem strict_exprs {fit : List Symbol → Prop}
    (hends : ∀ ss, fit ss → endsExpr (kindAhead ss 0) = true)
    (hcomma : ∀ ss, fit ss → ¬ StartsWith Operator.comma ss) :
    Strict productions limit room (commaSeparated Rule.expr.parse) StartsOperand
      (fun _ => fit) := by
  refine strict_commaSeparated hgoals.expr (fun _ ss hss => .of_endsExpr ?_)
    (fun _ ss hss => .of_endsExpr (hends ss hss)) hcomma (loopMoves_behind _ _)
  rw [hss]
  rfl

/-- Expressions before a terminal that ends them. -/
theorem strict_exprsBefore {t : Terminal} (ht : endsExpr t.kind = true)
    (hne : t.kind ≠ .operator .comma) :
    Strict productions limit room (commaSeparated Rule.expr.parse) StartsOperand
      (fun _ => StartsWith t) :=
  strict_exprs hgoals (fun ss hss => by rw [hss]; exact ht) fun _ hss => ne_of_startsWith hss hne

/-- An expression before a terminal that ends expressions. -/
theorem strict_exprBefore {t : Terminal} (ht : endsExpr t.kind = true) :
    Strict productions limit room Rule.expr.parse StartsOperand (fun _ => StartsWith t) :=
  hgoals.expr.mono (fun _ => id) fun _ ss hss => .of_endsExpr (by rw [hss]; exact ht)

/-! ## Calls -/

omit hgoals in
theorem strict_literal : Strict productions limit room literal Rule.literal.Enters
    (fun _ _ => True) :=
  strict_chosen Literal.ofKind? ["literal value"] (fun _ _ h => by rw [h]) (fun _ h => by rw [h])
    (Terminal.forall_named [] [.literal] rfl nofun) (fun value => (prompt_pure value).anywhere) rfl
    (show Literal.ofKind? (Filler.terminal Keyword.NULL).symbol.kind = some .null from rfl)

/-- The arguments of a call stand behind a parenthesis, where nothing is asked of them. -/
theorem strict_callArgs : Strict productions limit room callArgs (fun _ => True)
    (fun _ => StartsWith Operator.rightParen) where
  writable := ⟨[Filler.terminal Operator.star], .star,
    fun tail _ => ⟨trivial, reads_bind (reads_accept_true rfl) (reads_pure _ _)⟩⟩
  promptAt c := by
    have hlist : Strict productions limit room (commaSeparated Rule.expr.parse) StartsOperand
        (fun _ => StartsWith Operator.rightParen) :=
      strict_exprsBefore hgoals rfl (by decide)
    refine promptAt_accept (fun s ss hsymbols hs => ?_) fun hstar => ?_
    · exact (prompt_pure CallArgs.star).anywhere.behind fun _ _ => trivial
    refine promptAt_isAt _ ?_
    cases hclose : Terminal.accepts Operator.rightParen (c.kindAt 0) with
    | true =>
      have hkind := Terminal.accepts_iff.1 hclose
      refine promptAt_pure fun tail htail => ?_
      have hsame : kindAhead tail 0 = .operator .rightParen :=
        htail.kindAt (p := (· = .operator .rightParen)) id hkind
      exact ⟨⟨trivial, by rw [hsame]; nofun⟩, by rw [hsame]; rfl⟩
    | false =>
      refine promptAt_accept (fun s ss hsymbols hs => ?_) fun hdistinct => ?_
      · refine (hlist.map (CallArgs.list true)).behind fun new _ => ⟨⟨trivial, ?_⟩, ?_⟩
        · rw [kindAhead_cons_zero, hs]
          nofun
        · rw [kindAhead_cons_zero, hs]
          rfl
      · refine PromptAt.map (CallArgs.list false)
          (((hlist.promptAt c).sameHead quietAt_exprs).mono (fun ss hss => ?_) fun _ _ => id)
        obtain ⟨-, hsame⟩ := hss
        rw [hsame]
        exact ⟨⟨⟨trivial, hstar⟩, hclose⟩, hdistinct⟩

omit hgoals in
theorem writable_functionCall : Writable productions functionCall Rule.functionCall.Enters
    (fun _ _ => True) := by
  refine ⟨[.name "a", Filler.terminal Operator.leftParen, Filler.terminal Operator.star,
    Filler.terminal Operator.rightParen], ⟨"a", .star⟩, fun tail _ => ⟨rfl, ?_⟩⟩
  refine reads_bind (reads_callee (.name "a") _) (reads_bind (reads_advance nofun)
    (reads_bind (reads_parenthesized ?_) (reads_pure _ _)))
  exact reads_bind (reads_accept_true rfl) (reads_pure CallArgs.star _)

/-- A call. The name is not a symbol of its own kind, so that the symbol itself is kept. -/
theorem strict_functionCall : Strict productions limit room functionCall Rule.functionCall.Enters
    (fun _ _ => True) where
  writable := writable_functionCall
  promptAt c := by
    have hargs : Strict productions limit room (parenthesized callArgs)
        (StartsWith Operator.leftParen) (fun _ _ => True) :=
      strict_parenthesized (strict_callArgs hgoals).prompt
    cases hcallee : c.current.callee? with
    | none =>
      have hrun : functionCall.run productions limit room _ c =
          .failed (c.unexpected ["function name"]) c := by
        rw [functionCall, run_bind_of_done (run_callee limit room c), hcallee]
        exact run_unexpected limit room c _
      exact promptAt_of_mismatch hrun (Terminal.named_description .functionName)
    | some name =>
      have hne : c.kindAt 0 ≠ .eof := by
        intro heof
        rw [c.kindAt_zero] at heof
        rw [Token.callee?, heof] at hcallee
        cases hcallee
      obtain ⟨s, ss, hsymbols, hs⟩ := exists_symbols_of_kindAt rfl hne
      have hrun : functionCall.run productions limit room _ c =
          ((FunctionCall.mk name) <$> parenthesized callArgs).run productions limit room _
            c.advance := by
        rw [functionCall, run_bind_of_done (run_callee limit room c), hcallee]
        exact run_bind_of_done (run_advance limit room c)
      have hcall : Strict productions limit room (FunctionCall.mk name <$> parenthesized callArgs)
          (StartsWith Operator.leftParen) (fun _ _ => True) := hargs.map _
      refine promptAt_step (symbols_eq_singleton_append hsymbols (hs ▸ hne)) hrun
        (fun new v rest _ hread => ?_) (fun new hnew => hnew) (hcall.promptAt _)
        fun _ => hcall.writable
      have hsame : s.callee? = some name := by rw [← Cursor.callee?_current hsymbols, hcallee]
      refine reads_bind (reads_callee s new) ?_
      rw [hsame]
      exact reads_bind (reads_advance (hs ▸ hne)) hread

/-! ## Names -/

/-- Neither a dot nor an opening parenthesis. -/
structure EndsName (ss : List Symbol) : Prop where
  dot : kindAhead ss 0 ≠ .operator .dot
  call : kindAhead ss 0 ≠ .operator .leftParen

omit hgoals in
/-- Behind the second name of a column there may be a third one, and then nothing else. -/
theorem prompt_behindSecondName (first second : String) : Prompt productions limit room
    (accept Operator.dot >>= fun more =>
      if more then identifier >>= fun third =>
        pure (Expr.column (some first) (some second) third)
      else pure (Expr.column none (some first) second))
    EndsName (fun _ => EndsName) := by
  have hthird : Prompt productions limit room
      (identifier >>= fun third => pure (Expr.column (some first) (some second) third))
      StartsName (fun _ => EndsName) :=
    (strict_bind (fun _ => prompt_pure _) (fun _ _ _ => trivial) strict_identifier).prompt
  exact prompt_accept rfl hthird (prompt_give fun _ => id) fun ss hss => hss.dot

omit hgoals in
/-- A symbol that starts an expression and stands before neither a point nor a parenthesis starts an
operand that is no call. -/
theorem startsOperand_of_endsName {s : Symbol} {new : List Symbol}
    (hstart : startsExpr s.kind = true) (hnew : EndsName new) :
    StartsOperand (s :: new) ∧ kindAhead new 0 ≠ .operator .leftParen :=
  ⟨⟨hstart, startsAllOf_of_ne_dot hnew.dot⟩, hnew.call⟩

omit hgoals in
/-- Behind the first name of a column there may be a point with the second one, which is no star. -/
theorem promptAt_behindFirstName (first : String) {s : Symbol} (hstart : startsExpr s.kind = true)
    (hcall : c.kindAt 0 ≠ .operator .leftParen) :
    PromptAt productions limit room
      (accept Operator.dot >>= fun qualified =>
        if qualified then identifier >>= fun second => accept Operator.dot >>= fun more =>
          if more then identifier >>= fun third =>
            pure (Expr.column (some first) (some second) third)
          else pure (Expr.column none (some first) second)
        else pure (Expr.column none none first))
      (fun new => StartsOperand (s :: new) ∧ kindAhead new 0 ≠ .operator .leftParen)
      (fun _ => EndsName) c := by
  refine promptAt_accept (fun dot ss hsymbols hdot => ?_) fun hdot => ?_
  · have hbehind (second : String) : Prompt productions limit room _ EndsName (fun _ => EndsName) :=
      prompt_behindSecondName first second
    have hsecond := strict_bind hbehind (fun _ _ _ => trivial) strict_identifier
    refine hsecond.behind fun new hnew => ⟨⟨hstart, startsAllOf_of_ne_star ?_⟩, ?_⟩
    · exact TokenKind.ne_of_holds hnew rfl
    · rw [kindAhead_cons_zero, hdot]
      nofun
  · refine promptAt_pure fun tail htail => ?_
    have hends : EndsName tail :=
      ⟨htail.kindAt (p := (· ≠ .operator .dot)) EndsName.dot hdot,
        htail.kindAt (p := (· ≠ .operator .leftParen)) EndsName.call hcall⟩
    exact ⟨startsOperand_of_endsName hstart hends, hends.dot⟩

omit hgoals in
/-- A column, which is no call. -/
theorem promptAt_columnName (hcall : c.kindAt 1 ≠ .operator .leftParen) :
    PromptAt productions limit room columnName
      (fun ss => StartsOperand ss ∧ kindAhead ss 1 ≠ .operator .leftParen) (fun _ => EndsName)
      c := by
  cases hname : (c.kindAt 0).isIdentifier with
  | false =>
    exact promptAt_of_mismatch (run_bind_of_failed (run_identifier_of_not hname))
      (Terminal.named_description .identifier)
  | true =>
    obtain ⟨own, hkind⟩ := exists_name_of_isIdentifier hname
    obtain ⟨s, ss, hsymbols, hs⟩ := exists_symbols_of_kindAt hkind nofun
    have hne : s.kind ≠ .eof := by
      rw [hs]
      nofun
    have hstart : startsExpr s.kind = true := by
      rw [hs]
      rfl
    have hnext : c.advance.kindAt 0 ≠ .operator .leftParen := by
      rwa [c.kindAt_advance (by rw [hkind]; nofun)]
    refine promptAt_step (symbols_eq_singleton_append hsymbols hne)
      (run_bind_of_done (run_identifier_of_kind hkind))
      (fun new v rest _ hread => reads_bind (reads_identifier_of_kind hs new) hread)
      (fun _ => id) (promptAt_behindFirstName own hstart hnext) fun _ => ?_
    exact ⟨[], .column none none own, fun tail htail => ⟨startsOperand_of_endsName hstart htail,
      reads_bind (reads_accept_false htail.dot) (reads_pure _ tail)⟩⟩

/-! ## Casts and cases -/

theorem strict_castBody : Strict productions limit room castBody StartsOperand
    (fun _ => StartsWith Operator.rightParen) := by
  have htype (subject : Expr) : Prompt productions limit room
      (Expr.cast subject <$> Rule.typeName.parse) (fun _ => True)
      (fun _ => StartsWith Operator.rightParen) := by
    refine (((hgoals.parse .typeName rfl).mono (fun _ => id) fun _ ss hss => ?_).map _).prompt
    exact ⟨by rw [hss]; rfl, ne_of_startsWith hss nofun⟩
  have hcast (subject : Expr) := (strict_expect_bind (t := Keyword.AS) (htype subject)).prompt
  exact strict_bind hcast (fun _ _ => id) (strict_exprBefore hgoals rfl)

theorem strict_whenBranch : Strict productions limit room whenBranch StartsOperand
    (fun _ => EndsOperand 0) := by
  have hresult (condition : Expr) : Prompt productions limit room
      (WhenBranch.mk condition <$> Rule.expr.parse) StartsOperand (fun _ => EndsOperand 0) :=
    (hgoals.expr.map _).prompt
  have hthen (condition : Expr) :=
    (strict_expect_bind (t := Keyword.THEN) (hresult condition)).prompt
  exact strict_bind hthen (fun _ _ => id) (strict_exprBefore hgoals rfl)

/-- The operand of a case, which is left out before a `WHEN`. -/
theorem strict_caseOperand {rest : Option Expr → Production Expr}
    (hrest : ∀ operand, Prompt productions limit room (rest operand) (StartsWith Keyword.WHEN)
      (fun _ _ => True)) :
    Strict productions limit room
      (isAt Keyword.WHEN >>= fun bare =>
        if bare then pure none >>= rest else (some <$> Rule.expr.parse) >>= rest)
      (fun _ => True) (fun _ _ => True) where
  writable := by
    obtain ⟨ts, v, hcompletes⟩ := (hrest none).writable
    refine ⟨ts, v, fun tail htail => ⟨trivial, ?_⟩⟩
    obtain ⟨hwhen, hread⟩ := hcompletes tail htail
    refine reads_bind (reads_isAt _ _) ?_
    rw [hwhen]
    exact reads_bind (reads_pure none _) hread
  promptAt c := by
    refine promptAt_isAt _ ?_
    cases hwhen : Terminal.accepts Keyword.WHEN (c.kindAt 0) with
    | true =>
      refine PromptAt.pure_bind (((hrest none).promptAt c).mono (fun ss hss => ⟨trivial, ?_⟩)
        fun _ _ => id)
      exact hss.kindAt (p := fun kind => Terminal.accepts Keyword.WHEN kind = true)
        (fun h => by rw [h]; rfl) hwhen
    | false =>
      have hexpr := ((strict_exprBefore hgoals (t := Keyword.WHEN) rfl).promptAt c).sameHead
        quietAt_expr
      refine promptAt_bind' hrest (fun _ _ => id)
        (PromptAt.map some (hexpr.mono (fun ss hss => ⟨trivial, ?_⟩) fun _ _ => id))
      rw [hss.2]
      exact hwhen

theorem strict_caseExpr : Strict productions limit room caseExpr (StartsWith Keyword.CASE)
    (fun _ _ => True) := by
  have hends {ss : List Symbol} (h : StartsWith Keyword.END ss) : EndsOperand 0 ss :=
    .of_endsExpr (by rw [h]; rfl)
  have hbranch := strict_whenBranch hgoals
  have hmore : Prompt productions limit room (many (behind? Keyword.WHEN whenBranch))
      (StartsWith Keyword.END) (fun _ => StartsWith Keyword.END) :=
    prompt_many_optional
      (prompt_behind? rfl hbranch.prompt (fun _ _ => hends) fun _ h => ne_of_startsWith h nofun)
      (fun _ h => reads_behind_none (ne_of_startsWith h nofun)) (loopMoves_behind _ _)
  have helse : Prompt productions limit room (behind? Keyword.ELSE Rule.expr.parse)
      (StartsWith Keyword.END) (fun _ => StartsWith Keyword.END) :=
    prompt_behind? rfl hgoals.expr.prompt (fun _ _ => hends) fun _ h => ne_of_startsWith h nofun
  have hclose (result : Expr) : Prompt productions limit room
      (expect Keyword.END >>= fun _ => pure result) (StartsWith Keyword.END) (fun _ _ => True) :=
    (strict_expect_bind (prompt_pure result)).prompt
  have hwhen (operand : Option Expr) := strict_expect_bind (t := Keyword.WHEN)
    (strict_bind
      (fun first => prompt_bind
        (fun others => prompt_bind
          (fun otherwise => hclose (.caseWhen operand (first :: others) otherwise))
          (fun _ _ => id) helse)
        (fun _ _ => id) hmore)
      (fun _ _ => hends) hbranch).prompt
  exact strict_expect_bind (strict_caseOperand hgoals fun operand => (hwhen operand).prompt).prompt

/-! ## Parentheses -/

/-- Whether a symbol of this kind starts a query, or common tables before one. -/
def opensQuery (kind : TokenKind) : Bool :=
  Terminal.accepts Keyword.SELECT kind || Terminal.accepts Keyword.WITH kind

omit hgoals in
theorem opensQuery_of_startsExpr {kind : TokenKind} (h : startsExpr kind = true) :
    opensQuery kind = false := by
  have hselect : kind ≠ .keyword .SELECT := TokenKind.ne_of_holds h rfl
  have hwith : kind ≠ .keyword .WITH := TokenKind.ne_of_holds h rfl
  rw [opensQuery, Bool.or_eq_false_iff, ← Bool.not_eq_true, ← Bool.not_eq_true,
    Terminal.accepts_iff, Terminal.accepts_iff]
  exact ⟨hselect, hwith⟩

omit hgoals in
theorem run_startsQuery : startsQuery.run productions limit room _ c =
    .done (opensQuery (c.kindAt 0)) c := by
  rw [startsQuery, run_bind_of_done (run_isAt _), opensQuery]
  cases Terminal.accepts Keyword.SELECT (c.kindAt 0) with
  | true => exact run_pure limit room c true
  | false => exact run_isAt _

omit hgoals in
theorem reads_startsQuery (ss : List Symbol) :
    Reads startsQuery ss (opensQuery (kindAhead ss 0)) ss := by
  refine reads_bind (reads_isAt _ ss) ?_
  rw [opensQuery]
  cases Terminal.accepts Keyword.SELECT (kindAhead ss 0) with
  | true => exact reads_pure true ss
  | false => exact reads_isAt _ ss

omit hgoals in
theorem quietAt_query (h : opensQuery (c.kindAt 0) = true) :
    QuietAt productions limit room Rule.select.parse c := by
  rw [opensQuery, Bool.or_eq_true, Terminal.accepts_iff, Terminal.accepts_iff] at h
  rcases h with h | h
  · exact quietAt_parse_of_mem (by decide) h
  · exact quietAt_parse_of_mem (by decide) h

/-- A choice between a query and something else, by the symbol that is there. -/
theorem strict_queryOr {α : Type} (ofQuery : Select → α) {other : Production α}
    {enter fit : List Symbol → Prop} (hwritable : Writable productions other enter (fun _ => fit))
    (henter : ∀ ss, enter ss → opensQuery (kindAhead ss 0) = false)
    (hfit : ∀ ss, fit ss → EndsStatement ss)
    (hother : ∀ c, opensQuery (c.kindAt 0) = false → PromptAt productions limit room other
      (fun ss => opensQuery (kindAhead ss 0) = false) (fun _ => fit) c) :
    Strict productions limit room
      (startsQuery >>= fun query => if query then ofQuery <$> Rule.select.parse else other)
      (fun _ => True) (fun _ => fit) where
  writable := by
    obtain ⟨ts, v, hcompletes⟩ := hwritable
    refine ⟨ts, v, fun tail htail => ⟨trivial, ?_⟩⟩
    obtain ⟨hin, hread⟩ := hcompletes tail htail
    refine reads_bind (reads_startsQuery _) ?_
    rw [henter _ hin]
    exact hread
  promptAt c := by
    have hsame (ss : List Symbol) (h : opensQuery (kindAhead ss 0) = opensQuery (c.kindAt 0)) :
        ∃ query : Bool, Reads startsQuery ss query ss ∧
          (if query then ofQuery <$> Rule.select.parse else other) =
            if opensQuery (c.kindAt 0) then ofQuery <$> Rule.select.parse else other :=
      ⟨_, reads_startsQuery ss, by rw [h]⟩
    refine promptAt_of_done run_startsQuery hsame ?_
    cases hquery : opensQuery (c.kindAt 0) with
    | true =>
      refine PromptAt.map ofQuery ((hgoals.sameHead .select rfl (quietAt_query hquery)).mono
        (fun ss hss => ?_) fun _ => hfit)
      rw [hss.2]
      exact ⟨trivial, hquery⟩
    | false => exact (hother c hquery).mono (fun ss hss => ⟨trivial, hss⟩) fun _ _ => id

theorem strict_parenBody : Strict productions limit room parenBody (fun _ => True)
    (fun _ => StartsWith Operator.rightParen) := by
  have hexpr : Strict productions limit room (Expr.paren <$> Rule.expr.parse) StartsOperand
      (fun _ => StartsWith Operator.rightParen) := (strict_exprBefore hgoals rfl).map _
  refine strict_queryOr hgoals Expr.subquery hexpr.writable
    (fun ss hss => opensQuery_of_startsExpr hss.kind) (fun ss hss => ?_) fun c hc =>
      (hexpr.promptAt c).mono (fun ss hss => opensQuery_of_startsExpr hss.kind) fun _ _ => id
  change endsQuery (kindAhead ss 0) = true
  rw [hss]
  rfl

theorem strict_inSet : Strict productions limit room inSet (fun _ => True)
    (fun _ => StartsWith Operator.rightParen) := by
  have hlist : Strict productions limit room
      (InSet.values <$> commaSeparated Rule.expr.parse) StartsOperand
      (fun _ => StartsWith Operator.rightParen) :=
    (strict_exprsBefore hgoals rfl (by decide)).map _
  have hclose {ss : List Symbol} (h : StartsWith Operator.rightParen ss) :
      opensQuery (kindAhead ss 0) = false := by
    rw [h]
    rfl
  have hempty : Writable productions
      (isAt Operator.rightParen >>= fun empty =>
        if empty then pure (InSet.values []) else InSet.values <$> commaSeparated Rule.expr.parse)
      (StartsWith Operator.rightParen) (fun _ => StartsWith Operator.rightParen) := by
    refine ⟨[], .values [], fun tail htail => ⟨htail, reads_bind (reads_isAt _ tail) ?_⟩⟩
    rw [htail]
    exact reads_pure _ tail
  refine strict_queryOr hgoals InSet.query hempty (fun ss hss => hclose hss) (fun ss hss => ?_)
    fun c hc => ?_
  · change endsQuery (kindAhead ss 0) = true
    rw [hss]
    rfl
  · refine promptAt_isAt _ ?_
    cases hat : Terminal.accepts Operator.rightParen (c.kindAt 0) with
    | true =>
      refine promptAt_pure fun tail htail => ?_
      have hsame : StartsWith Operator.rightParen tail :=
        htail.kindAt (p := (· = .operator .rightParen)) id (Terminal.accepts_iff.1 hat)
      exact ⟨hclose hsame, by rw [hsame]; rfl⟩
    | false =>
      refine ((hlist.promptAt c).sameHead (quietAt_exprs.map _)).mono (fun ss hss => ?_)
        fun _ _ => id
      exact ⟨opensQuery_of_startsExpr hss.1.kind, by rw [hss.2]; exact hat⟩

/-! ## Primary expressions -/

omit hgoals in
theorem not_isIdentifier_of_ofKind? {kind : TokenKind} {value : Literal}
    (h : Literal.ofKind? kind = some value) : kind.isIdentifier = false := by
  cases kind with
  | identifier own => cases h
  | _ => rfl

/-- The symbols start an operand by one of this kind, as a call or not. -/
structure StartsPrimary (kind : TokenKind) (called : Bool) (ss : List Symbol) : Prop where
  operand : StartsOperand ss
  first : kindAhead ss 0 = kind
  called : (startsCall kind && Terminal.accepts Operator.leftParen (kindAhead ss 1)) = called

/-- What starts with a symbol of this kind has a form of its own, and is neither a column nor a
call. -/
structure StartsOwnForm (kind : TokenKind) : Prop where
  expr : startsExpr kind = true
  name : kind.isIdentifier = false
  call : startsCall kind = false

omit hgoals in
/-- What stands behind a kind with `StartsOwnForm` does not matter. -/
theorem StartsOwnForm.startsPrimary {kind : TokenKind} {ss : List Symbol} (h : StartsOwnForm kind)
    (hkind : kindAhead ss 0 = kind) : StartsPrimary kind false ss where
  operand := ⟨hkind ▸ h.expr, startsAllOf_of_not_name (hkind ▸ h.name)⟩
  first := hkind
  called := by rw [h.call, Bool.false_and]

omit hgoals in
/-- A symbol with `StartsOwnForm` is taken before a parser that may leave anything. -/
theorem promptAt_advance_own {p : Production Expr} {fit : List Symbol → Prop}
    {leave : Expr → List Symbol → Prop} (h : StartsOwnForm (c.kindAt 0))
    (hp : Strict productions limit room p fit (fun _ _ => True)) :
    PromptAt productions limit room (advance >>= fun _ => p)
      (StartsPrimary (c.kindAt 0) false) leave c :=
  promptAt_advance_of_ne (TokenKind.ne_of_holds h.expr rfl) hp.leavesAny
    fun _ _ hs _ => h.startsPrimary hs

omit hgoals in
/-- A parser that starts with the terminal under the cursor, which has `StartsOwnForm`. -/
theorem Strict.ownForm {t : Terminal} {p : Production Expr} {leave : Expr → List Symbol → Prop}
    (hp : Strict productions limit room p (StartsWith t) (fun _ _ => True))
    (ht : StartsOwnForm t.kind) (hkind : c.kindAt 0 = t.kind) :
    PromptAt productions limit room p (StartsPrimary (c.kindAt 0) false) leave c := by
  refine (hp.promptAt c).mono (fun ss hss => ?_) fun _ _ _ => trivial
  rw [hkind]
  exact ht.startsPrimary hss

omit hgoals in
/-- A literal is one symbol, whatever stands behind it. -/
theorem promptAt_literal {value : Literal} (hvalue : Literal.ofKind? (c.kindAt 0) = some value) :
    PromptAt productions limit room (advance >>= fun _ => pure (Expr.literal value))
      (fun ss => StartsOperand ss ∧ kindAhead ss 0 = c.kindAt 0) (fun _ => EndsName) c := by
  refine promptAt_advance_of_ne (TokenKind.ne_eof_of_some rfl hvalue)
    (prompt_pure (Expr.literal value)).anywhere fun s new hs _ => ?_
  have hstart : startsExpr s.kind = true := startsExpr_of_ofKind? (hs ▸ hvalue)
  refine ⟨⟨hstart, startsAllOf_of_not_name ?_⟩, hs⟩
  rw [kindAhead_cons_zero, hs]
  exact not_isIdentifier_of_ofKind? hvalue

/-- A call where a name is ahead and a parenthesis behind it. -/
theorem promptAt_call (hcall : startsCall (c.kindAt 0) = true) :
    PromptAt productions limit room (Expr.call <$> Rule.functionCall.parse)
      (StartsPrimary (c.kindAt 0) true) (fun _ => EndsName) c := by
  have hquiet : QuietAt productions limit room Rule.functionCall.parse c :=
    quietAt_goal (g := Goal.rule .functionCall) fun _ => quietAt_functionCall
  refine PromptAt.map Expr.call ((hgoals.sameHead .functionCall rfl hquiet).mono
    (fun ss hss => ?_) fun _ _ _ => trivial)
  obtain ⟨hparen, hkind⟩ := hss
  have hparen : kindAhead ss 1 = .operator .leftParen := hparen
  refine ⟨⟨?_, startsAllOf_of_ne_dot (by rw [hparen]; nofun)⟩, hkind, ?_⟩
  · rw [hkind]
    exact startsExpr_of_startsCall hcall
  · rw [hcall, hparen]
    rfl

omit hgoals in
/-- A column where a name is ahead and no parenthesis behind it. -/
theorem promptAt_column {own : String} (hkind : c.kindAt 0 = .identifier own)
    (hcall : (startsCall (c.kindAt 0) &&
      Terminal.accepts Operator.leftParen (c.kindAt 1)) = false) :
    PromptAt productions limit room columnName (StartsPrimary (c.kindAt 0) false)
      (fun _ => EndsName) c := by
  have hparen : c.kindAt 1 ≠ .operator .leftParen := by
    intro hparen
    rw [hkind, hparen] at hcall
    cases hcall
  refine ((promptAt_columnName hparen).sameHead quietAt_columnName).mono
    (fun ss hss => ⟨hss.1.1, hss.2, ?_⟩) fun _ _ => id
  rw [Bool.eq_false_iff.2 (mt Terminal.accepts_iff.1 hss.1.2), Bool.and_false]

/-- The query of `EXISTS`, whose parenthesis ends it. -/
theorem strict_existsQuery : Strict productions limit room
    (Expr.existsRow <$> parenthesized Rule.select.parse) (StartsWith Operator.leftParen)
    (fun _ _ => True) := by
  refine (strict_parenthesized (hgoals.select.mono (fun _ => id) fun _ ss hss => ?_).prompt).map _
  change endsQuery (kindAhead ss 0) = true
  rw [hss]
  rfl

/-- A primary expression by its first symbol: a literal, a call, or one of the forms that are known
by that symbol alone. -/
theorem strict_primary : Strict productions limit room primary StartsOperand
    (fun _ => EndsName) where
  writable := ⟨[Filler.terminal Keyword.NULL], .literal .null, fun tail _ =>
    ⟨⟨rfl, startsAllOf_of_not_name rfl⟩, Expr.reads_primary_literal rfl⟩⟩
  promptAt c := by
    refine promptAt_kind ?_
    cases hvalue : Literal.ofKind? (c.kindAt 0) with
    | some value => exact promptAt_literal hvalue
    | none =>
      -- whether a call starts here must not change
      refine promptAt_isNext _ (PromptAt.mono (?_ : PromptAt _ _ _ _ (StartsPrimary (c.kindAt 0)
        (startsCall (c.kindAt 0) && Terminal.accepts Operator.leftParen (c.kindAt 1)))
        (fun _ => EndsName) c) (fun ss hss => ⟨⟨hss.operand, hss.first⟩, by rw [hss.called]⟩)
        fun _ _ => id)
      cases hcall : startsCall (c.kindAt 0) &&
          Terminal.accepts Operator.leftParen (c.kindAt 1) with
      | true => exact promptAt_call hgoals (Bool.and_eq_true_iff.1 hcall).1
      | false =>
        rw [if_neg Bool.false_ne_true]
        split
        · next text hkind =>
          exact promptAt_advance_own (hkind ▸ ⟨rfl, rfl, rfl⟩)
            (prompt_pure (Expr.parameter text)).anywhere
        · next own hkind => exact promptAt_column hkind hcall
        · next hkind =>
          exact promptAt_advance_own (hkind ▸ ⟨rfl, rfl, rfl⟩)
            (strict_parenthesized (strict_castBody hgoals).prompt)
        · next hkind => exact Strict.ownForm (strict_caseExpr hgoals) ⟨rfl, rfl, rfl⟩ hkind
        · next hkind =>
          exact promptAt_advance_own (hkind ▸ ⟨rfl, rfl, rfl⟩) (strict_existsQuery hgoals)
        · next hkind =>
          exact Strict.ownForm (strict_parenthesized (strict_parenBody hgoals).prompt)
            ⟨rfl, rfl, rfl⟩ hkind
        · exact promptAt_unexpected (Terminal.named_description .expression)

end SqlGrammar.Grammar
