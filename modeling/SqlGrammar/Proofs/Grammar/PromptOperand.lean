import SqlGrammar.Proofs.Grammar.InfixForm
import SqlGrammar.Proofs.Grammar.PromptExpression

/-!
# Operators are prompt

An operator that is taken consists of one symbol, or of a `NOT` and one symbol behind it; these
symbols decide about its form and power, whatever follows (`OperatorSymbols`). The loop over
operators is entered by what it is left by: operators are never part of a completion.
-/

set_option autoImplicit false

namespace SqlGrammar.Grammar

open SqlGrammar.Parser

variable {limit room : Nat} {c c' : Cursor} {least power q : Nat} {left : Expr}

/-! ## The operator at the cursor -/

theorem reach_of_infixPower? {kind : TokenKind} (h : infixPower? kind = some q)
    (hnot : kind ≠ .keyword .NOT) : kind.reach = 0 := by
  unfold infixPower? at h
  split at h <;> first | rfl | exact absurd rfl hnot | cases h

theorem infixPower?_of_infixHere? {now next : TokenKind}
    (h : infixHere? least now next = some power) : infixPower? now = some power := by
  unfold infixHere? at h
  split at h
  · next hpower =>
    split at h
    · cases h
    · split at h
      · cases h
      · rw [hpower, ← h]
  · cases h

/-- The operator depends on the second symbol only behind a `NOT`. -/
theorem infixHere?_congr {now next next' : TokenKind}
    (h : now = .keyword .NOT → next = next') :
    infixHere? least now next = infixHere? least now next' := by
  by_cases hnot : now = .keyword .NOT
  · rw [h hnot]
  · have hne : (now == TokenKind.keyword .NOT) = false := beq_eq_false_iff_ne.2 hnot
    unfold infixHere?
    rw [hne, Bool.false_and, Bool.false_and]

theorem infixHere?_of_looksLike {old new : List Symbol} (h : LooksLike old new) :
    infixHere? least (kindAhead new 0) (kindAhead new 1) =
      infixHere? least (kindAhead old 0) (kindAhead old 1) := by
  rw [h.kind]
  refine infixHere?_congr fun hnot => h 1 ?_
  rw [hnot]
  exact Nat.le_refl 1

/-- The symbols of the operator at the cursor, with the form that they start, and the cursor behind
them. They are the same operator before any other symbols. -/
structure OperatorSymbols (limit room least power : Nat) (c : Cursor) (taken : List Symbol)
    (negated : Bool) (form : InfixForm) (c' : Cursor) : Prop where
  symbols : c.symbols = taken ++ c'.symbols
  run : ∀ left right, (infixForm left right).run productions limit room _ c =
    (infixRest left negated right form).run productions limit room _ c'
  reads : ∀ left right ss v rest, Reads (infixRest left negated right form) ss v rest →
    Reads (infixForm left right) (taken ++ ss) v rest
  same : ∀ ss, infixHere? least (kindAhead (taken ++ ss) 0) (kindAhead (taken ++ ss) 1) = some power
  looksLike : ∀ old new, LooksLike (taken ++ old) (taken ++ new)
  between : form = .between → power = equalityPower

theorem power_of_between {kind : TokenKind} (h : InfixForm.ofKind? kind = some .between)
    (hpower : infixPower? kind = some power) : power = equalityPower := by
  unfold InfixForm.ofKind? at h
  split at h
  · cases h
  · split at h
    case h_6 =>
      cases hpower
      rfl
    case h_8 =>
      obtain ⟨op, -, hop⟩ := Option.map_eq_some_iff.1 h
      cases hop
    all_goals cases h

/-- An operator that `infixHere?` finds consists of its own symbol, behind a `NOT` or without. -/
theorem exists_operatorSymbols (limit room : Nat)
    (h : infixHere? least (c.kindAt 0) (c.kindAt 1) = some power) :
    ∃ taken negated form c', OperatorSymbols limit room least power c taken negated form c' := by
  have hpower := infixPower?_of_infixHere? h
  rcases infixHere?_cases h with ⟨hnot, hfollows⟩ | ⟨hnot, -⟩
  · have hne : c.kindAt 0 ≠ .eof := TokenKind.ne_eof_of_some rfl hpower
    obtain ⟨form, hform⟩ := Option.isSome_iff_exists.1
      (InfixForm.isSome_of_followsInfixNot hfollows)
    obtain ⟨n, ss, hsymbols, hn⟩ := exists_symbols_of_kindAt hnot nofun
    rw [← c.kindAt_advance hne] at hform
    obtain ⟨s, ss', hsymbols', hs⟩ := exists_symbols_of_kindAt (c := c.advance) rfl
      (TokenKind.ne_eof_of_some rfl hform)
    have hnext : s.kind = c.kindAt 1 := by rw [hs, c.kindAt_advance hne]
    have haccept : (accept Keyword.NOT).run productions limit room _ c = .done true c.advance :=
      run_accept_of_eq hnot
    refine ⟨[n, s], true, form, c.advance.advance, ?_,
      fun left right => run_infixForm left right haccept hform,
      fun left right new v rest hread => ?_, fun new => ?_, fun old new => ?_, fun hbetween => ?_⟩
    · rw [symbols_eq_singleton_append hsymbols (by rw [hn]; nofun),
        symbols_eq_singleton_append hsymbols' (hs ▸ TokenKind.ne_eof_of_some rfl hform)]
      rfl
    · refine reads_bind (reads_accept_true hn) (reads_bind (reads_kind (s :: new)) ?_)
      rw [kindAhead_cons_zero, hs, hform]
      exact reads_bind (reads_advance (hs ▸ TokenKind.ne_eof_of_some rfl hform)) hread
    · rw [← h, hnot, ← hnext]
      change infixHere? least n.kind s.kind = _
      rw [hn]
    · refine looksLike_cons_of_next ?_ rfl
      rw [hn]
      exact Nat.le_refl 1
    · rw [hnot] at hpower
      cases hpower
      rfl
  · have hne : c.kindAt 0 ≠ .eof := TokenKind.ne_eof_of_some rfl hpower
    obtain ⟨form, hform⟩ := Option.isSome_iff_exists.1 (InfixForm.isSome_of_infixPower? hpower hnot)
    obtain ⟨s, ss, hsymbols, hs⟩ := exists_symbols_of_kindAt rfl hne
    have haccept : (accept Keyword.NOT).run productions limit room _ c = .done false c :=
      run_accept_of_ne hnot
    refine ⟨[s], false, form, c.advance, symbols_eq_singleton_append hsymbols (hs ▸ hne),
      fun left right => run_infixForm left right haccept hform,
      fun left right new v rest hread => ?_, fun new => ?_, fun old new => looksLike_cons ?_,
      fun hbetween => ?_⟩
    · refine reads_bind (reads_accept_false (t := Keyword.NOT) (by rwa [← hs] at hnot))
        (reads_bind (reads_kind (s :: new)) ?_)
      rw [kindAhead_cons_zero, hs, hform]
      exact reads_bind (reads_advance (hs ▸ hne)) hread
    · rw [← h]
      change infixHere? least s.kind _ = _
      rw [hs]
      exact infixHere?_congr fun heq => absurd heq hnot
    · rw [hs]
      exact reach_of_infixPower? hpower hnot
    · exact power_of_between (hbetween ▸ hform) hpower

/-! ## Forms -/

/-- A bare `NULL` is the shortest of all operands. -/
theorem reads_operand_null {rest : List Symbol} (h : EndsOperand least rest) :
    Reads (operand least) (Symbol.keyword .NULL :: rest) (.literal .null) rest :=
  reads_operand_of_primary rfl (Expr.reads_primary_literal rfl) (reads_loop_stop fun q hq => by
    have := h.operator q hq
    omega)

theorem EndsOperand.infixHere? {ss : List Symbol} (h : EndsOperand least ss) :
    infixHere? least (kindAhead ss 0) (kindAhead ss 1) = none := by
  cases hq : Grammar.infixHere? least (kindAhead ss 0) (kindAhead ss 1) with
  | none => rfl
  | some q =>
    obtain ⟨hzero, hle⟩ := infixHere?_zero hq
    have := h.operator q hzero
    omega

theorem reads_extend_none (left : Expr) {ss : List Symbol}
    (h : infixHere? least (kindAhead ss 0) (kindAhead ss 1) = none) :
    Reads (extend least left) ss none ss := by
  refine reads_bind (reads_look 0 ss) (reads_bind (reads_look 1 ss) ?_)
  rw [h]
  exact reads_pure none ss

section Forms

variable (hgoals : GoalsPrompt limit room)

include hgoals

theorem strict_infixRest (left : Expr) (negated : Bool) (right : Nat) {form : InfixForm}
    (hbetween : form = .between → equalityPower < right) :
    Strict productions limit room (infixRest left negated right form) (fun _ => True)
      (fun _ => EndsOperand right) := by
  have hoperand := hgoals.operand right
  have hanywhere : Strict productions limit room (operandOf right) (fun _ => True)
      (fun _ => EndsOperand right) := hoperand.mono (fun _ _ => trivial) fun _ _ => id
  cases form with
  | like op =>
    have hescape : Prompt productions limit room (behind? Keyword.ESCAPE (operandOf right))
        (EndsOperand right) (fun _ => EndsOperand right) :=
      prompt_behind? rfl hoperand.prompt (fun _ _ => id) fun _ => EndsOperand.escape
    exact strict_bind (fun pattern => hescape.map fun escape =>
      Expr.like left op pattern escape negated) (fun _ _ => id) hanywhere
  | is =>
    have hvalue {f : Expr → Production Expr} (hf : ∀ value, ∃ tree, f value = pure tree) :
        Strict productions limit room (operandOf right >>= f) StartsOperand
          (fun _ => EndsOperand right) :=
      strict_bind (fun value => prompt_of_pure (hf value)) (fun _ _ => id) hoperand
    refine ⟨⟨[Filler.terminal Keyword.NULL], .isNull left false, fun tail htail => ⟨trivial, ?_⟩⟩,
      fun c => promptAt_accept (fun s ss _ _ => (hvalue fun value => ?_).behind fun _ _ => trivial)
        fun hnot => ?_⟩
    · exact reads_bind (reads_accept_false nofun)
        (reads_bind (reads_goal (reads_operand_null htail)) (reads_pure _ tail))
    · split <;> exact ⟨_, rfl⟩
    · refine (((hvalue fun value => ?_).promptAt c).sameHead
        (quietAt_operandOf right).bind).mono (fun ss hss => ⟨trivial, ?_⟩) fun _ _ => id
      · split <;> exact ⟨_, rfl⟩
      · rw [hss.2]
        exact hnot
  | isNull => exact (prompt_pure (Expr.isNull left false)).anywhere
  | notNull => exact (prompt_pure (Expr.isNull left true)).anywhere
  | within =>
    have hset := (strict_parenthesized (strict_inSet hgoals).prompt).map
      fun set => Expr.within left set negated
    exact (hset.mono (fun _ _ => trivial) fun _ _ => id).leavesAny
  | between =>
    have hhigh (low : Expr) := (strict_expect_bind (t := Keyword.AND)
      (hoperand.map fun high => Expr.between left low high negated).prompt).prompt
    refine strict_bind hhigh (fun _ ss hss => ⟨fun q hq => ?_, ?_, ?_, ?_⟩) hanywhere
    · -- an `AND` binds more weakly than the operands of a `BETWEEN`
      have hpower := infixPower?_of_infixHere? hq
      rw [hss] at hpower
      cases hpower
      have hlt : 7 < right := hbetween rfl
      change 3 < min right 5
      omega
    · exact ne_of_startsWith hss (by decide)
    · exact ne_of_startsWith hss (by decide)
    · exact ne_of_startsWith hss (by decide)
  | collate =>
    have hname : Strict productions limit room (Expr.collate left <$> identifier) StartsName
      (fun _ _ => True) := strict_identifier.map _
    exact (hname.mono (fun _ _ => trivial) fun _ _ => id).leavesAny
  | binary op => exact hanywhere.map _

/-- A round of the loop over operators. -/
theorem promptAt_extend (least : Nat) (left : Expr) (c : Cursor) :
    PromptAt productions limit room (extend least left) (Replaces (EndsOperand least) c.symbols)
      (leaveRound (EndsOperand least) (EndsOperand least)) c := by
  cases hinfix : infixHere? least (c.kindAt 0) (c.kindAt 1) with
  | none =>
    have hrun : (extend least left).run productions limit room _ c = .done none c := by
      rw [extend, run_bind_of_done (run_look limit room c 0),
        run_bind_of_done (run_look limit room c 1), hinfix]
      exact run_pure limit room c none
    refine promptAt_of_run_done hrun (List.nil_append _).symm fun tail htail => ⟨htail, ?_⟩
    have hnone : infixHere? least (kindAhead tail 0) (kindAhead tail 1) = none := by
      rcases htail with hends | hsame
      · exact hends.infixHere?
      · rw [infixHere?_of_looksLike hsame, ← c.kindAt_eq, ← c.kindAt_eq, hinfix]
    exact reads_extend_none left hnone
  | some power =>
    obtain ⟨taken, negated, form, c', h⟩ := exists_operatorSymbols limit room hinfix
    have hle : least ≤ power := (infixHere?_zero hinfix).2
    have hrest : Strict productions limit room (infixRest left negated (power + 1) form)
        (fun _ => True) (fun _ => EndsOperand least) := by
      refine (strict_infixRest hgoals left negated (power + 1) fun hbetween => ?_).mono
        (fun _ => id) fun _ ss hss => EndsOperand.mono hss (by omega)
      rw [h.between hbetween]
      exact Nat.lt_succ_self _
    have hform : PromptAt productions limit room (infixForm left (power + 1))
        (fun ss => Replaces (EndsOperand least) c.symbols ss ∧
          infixHere? least (kindAhead ss 0) (kindAhead ss 1) = some power)
        (fun _ => EndsOperand least) c := by
      refine promptAt_step h.symbols (h.run left (power + 1))
        (fun ss v rest _ hread => h.reads left (power + 1) ss v rest hread)
        (fun ss _ => ⟨.inr ?_, h.same ss⟩) (hrest.promptAt c') fun _ => hrest.writable
      rw [h.symbols]
      exact h.looksLike _ _
    refine promptAt_step (List.nil_append c.symbols).symm ?_ (fun ss v rest hss hread => ?_)
      (fun _ hss => hss.1) (PromptAt.map some hform) fun hne => absurd rfl hne
    · rw [extend, run_bind_of_done (run_look limit room c 0),
        run_bind_of_done (run_look limit room c 1), hinfix]
      rfl
    · refine reads_bind (reads_look 0 ss) (reads_bind (reads_look 1 ss) ?_)
      rw [hss.2]
      exact hread

/-! ## Operands -/

omit hgoals in
theorem startsExpr_of_prefix {kind : TokenKind} {op : UnaryOp}
    (h : UnaryOp.ofKind? kind = some op) :
    startsExpr kind = true ∧ kind.isIdentifier = false := by
  unfold UnaryOp.ofKind? at h
  split at h <;> first | exact ⟨rfl, rfl⟩ | cases h

/-- What starts an operand, before whatever operator. -/
theorem strict_operandHead : Strict productions limit room operandHead StartsOperand
    (fun _ => EndsOperand signPower) where
  writable := ⟨[Filler.terminal Keyword.NULL], .literal .null, fun tail _ =>
    ⟨⟨rfl, startsAllOf_of_not_name rfl⟩, reads_bind (reads_kind _)
      (Expr.reads_primary_literal rfl)⟩⟩
  promptAt c := by
    rw [operandHead]
    refine promptAt_kind ?_
    cases hop : UnaryOp.ofKind? (c.kindAt 0) with
    | none =>
      exact (((strict_primary hgoals).promptAt c).sameHead quietAt_primary).mono (fun _ => id)
        fun _ ss hss => ⟨hss.dot, hss.call⟩
    | some op =>
      have hoperand : Strict productions limit room (Expr.unary op <$> operandOf op.power)
          StartsOperand (fun _ => EndsOperand signPower) := by
        refine ((hgoals.operand op.power).mono (fun _ => id) fun _ ss hss => ?_).map _
        exact EndsOperand.mono hss (by cases op <;> decide)
      refine promptAt_advance_of_ne (TokenKind.ne_eof_of_some rfl hop) hoperand fun s new hs _ => ?_
      rw [← hs] at hop
      obtain ⟨hstart, hname⟩ := startsExpr_of_prefix hop
      exact ⟨⟨hstart, startsAllOf_of_not_name hname⟩, hs⟩

/-- An operand: what starts it, and the operators that are taken behind that. -/
theorem strict_operand (least : Nat) : Strict productions limit room (operand least)
    StartsOperand (fun _ => EndsOperand least) := by
  have hloop (head : Expr) : Prompt productions limit room (iterate (extend least) head)
      (EndsOperand least) (fun _ => EndsOperand least) :=
    prompt_iterate (promptAt_extend hgoals least)
      (fun left => ⟨[], fun tail htail => ⟨htail, reads_extend_none left htail.infixHere?⟩⟩)
      (suits_loopMoves.extend least) head
  refine strict_bind hloop (fun _ ss hss => EndsOperand.mono hss ?_) (strict_operandHead hgoals)
  exact Nat.le_trans (Nat.min_le_right _ _) (by decide)

end Forms

end SqlGrammar.Grammar
