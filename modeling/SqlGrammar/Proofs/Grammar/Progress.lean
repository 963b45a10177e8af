import SqlGrammar.Proofs.Grammar.Takes

/-!
# Every goal makes progress

Each production takes a token before it succeeds, and opens goals of a lower level only until then
(`takes_productions`). By induction on the levels left, all goals meet what `Takes` relies on
(`goalsMeet`).
-/

set_option autoImplicit false

namespace SqlGrammar.Grammar

open SqlGrammar.Parser Keyword

section Productions

variable {limit room base : Nat} {c : Cursor} (hgoals : ∀ r, r ≤ room → GoalsMeet limit r)
include hgoals

/-- A goal of a low `level` takes a token by assumption. -/
theorem takes_parse (r : Rule) (hlevel : level (.rule r) ≤ base) :
    Takes limit room base Any r.parse c :=
  takes_goal hgoals (.rule r) hlevel

/-! ## Expressions -/

/-- A literal is one token. -/
theorem takes_literal : Takes limit room base Any literal c := by
  apply takes_kind
  split
  · next value h =>
    exact takes_bind hgoals (takes_advance (TokenKind.ne_eof_of_some rfl h))
  · exact takes_unexpected _

/-- The name of a call is not the end of the input. -/
theorem takes_functionCall : Takes limit room base Any functionCall c := by
  apply takes_of_done (run_callee limit room c)
  split
  · next name h =>
    have hne : c.kindAt 0 ≠ .eof := by
      intro heof
      rw [c.kindAt_zero] at heof
      rw [Token.callee?, heof] at h
      cases h
    exact takes_bind hgoals (takes_advance hne)
  · exact takes_unexpected _

/-- One case for each kind that `primary` looks for. -/
theorem takes_primary (hbase : 1 ≤ base) : Takes limit room base Any primary c := by
  apply takes_kind
  split
  · next value h =>
    exact takes_bind hgoals (takes_advance (TokenKind.ne_eof_of_some rfl h))
  · apply takes_isNext
    split
    · exact takes_bind hgoals (takes_parse hgoals .functionCall hbase)
    · split
      · next text h => exact takes_bind hgoals (takes_advance (by simp [h]))
      · exact takes_bind hgoals (takes_identifier hgoals)
      · next h => exact takes_bind hgoals (takes_advance (by simp [h]))
      · exact takes_bind hgoals (takes_expect hgoals _)
      · next h => exact takes_bind hgoals (takes_advance (by simp [h]))
      · exact takes_bind hgoals (takes_expect hgoals _)
      · exact takes_unexpected _

/-- The head of an operand takes a token, before the loop. -/
theorem takes_operand (least : Nat) (hbase : 1 ≤ base) :
    Takes limit room base Any (operand least) c := by
  apply takes_bind hgoals
  apply takes_kind
  split
  · next op h =>
    exact takes_bind hgoals (takes_advance (TokenKind.ne_eof_of_some rfl h))
  · exact takes_primary hgoals hbase

/-! ## Queries and data -/

/-- The word `SELECT` is taken first, or `WITH` refused. -/
theorem takes_select : Takes limit room base Any select c := by
  apply takes_isAt
  split
  · exact takes_unsupported _
  · exact takes_bind hgoals (takes_expect hgoals _)

/-- Without a star an expression comes first, whose level is lower. -/
theorem takes_resultColumn (hbase : 3 ≤ base) : Takes limit room base Any resultColumn c := by
  apply takes_accept hgoals
  apply takes_kind
  apply takes_areAhead
  split
  · exact takes_bind hgoals (takes_identifier hgoals)
  · exact takes_bind hgoals (takes_parse hgoals .expr hbase)

/-- The first choice of `selectSource` takes a token; the second gives nothing. -/
theorem takes_selectSource (hbase : 1 ≤ base) : Takes limit room base Any selectSource c := by
  apply takes_firstOf hgoals
  intro p hp
  simp only [List.mem_cons, List.not_mem_nil, or_false] at hp
  rcases hp with rfl | rfl
  · exact takes_map hgoals (takes_parse hgoals .tableSource hbase)
  · exact takes_map hgoals (takes_parse hgoals .joinClause hbase)

theorem takes_tableSource : Takes limit room base Any tableSource c := by
  apply takes_isAt
  split
  · exact takes_unsupported _
  · exact takes_bind hgoals (takes_bind hgoals (takes_identifier hgoals))

omit hgoals in
/-- A join is never found. -/
theorem takes_joinClause : Takes limit room base Any joinClause c := by
  apply takes_kind
  split
  · exact takes_unsupported _
  · exact takes_unexpected _

theorem takes_insert : Takes limit room base Any insert c := by
  apply takes_bind hgoals
  apply takes_accept hgoals
  exact takes_bind hgoals (takes_expect hgoals _)

/-! ## Tables -/

/-- The digits are taken, whether there is a sign or not. -/
theorem takes_signedNumber : Takes limit room base Any signedNumber c := by
  by_cases hminus : c.kindAt 0 = .operator .minus
  · exact takes_bind hgoals (takes_accept_of_eq hgoals hminus)
  by_cases hplus : c.kindAt 0 = .operator .plus
  · apply takes_bind hgoals
    exact takes_of_done (run_accept_of_ne hminus) (takes_accept_of_eq hgoals hplus)
  · -- without a sign the number itself is the first token
    have hsign : sign.run productions limit room _ c = .done "" c := by
      rw [sign, run_bind_of_done (run_accept_of_ne hminus), if_neg Bool.false_ne_true,
        run_bind_of_done (run_accept_of_ne hplus), if_neg Bool.false_ne_true]
      exact run_pure limit room c ""
    apply takes_of_done hsign
    apply takes_kind
    split
    · next text h => exact takes_bind hgoals (takes_advance (by simp [h]))
    · exact takes_unexpected _

/-- Each rule of a column starts with a word. -/
theorem takes_columnRule (hbase : 1 ≤ base) : Takes limit room base Any columnRule c := by
  apply takes_kind
  split
  · exact takes_bind hgoals (takes_expectAll hgoals _ _)
  · exact takes_bind hgoals (takes_expectAll hgoals _ _)
  · next h => exact takes_bind hgoals (takes_advance (by simp [h]))
  · next h => exact takes_bind hgoals (takes_advance (by simp [h]))
  · next h => exact takes_bind hgoals (takes_advance (by simp [h]))
  · next h => exact takes_bind hgoals (takes_advance (by simp [h]))
  · exact takes_bind hgoals (takes_parse hgoals .foreignKey hbase)
  · exact takes_unexpected _

/-- The name may be left out, but the rule takes a token. -/
theorem takes_columnConstraint (hbase : 1 ≤ base) :
    Takes limit room base Any columnConstraint c := by
  apply takes_behind?_bind hgoals
  exact takes_bind hgoals (takes_columnRule hgoals hbase)

/-- The name may be left out, but the rule takes a token. -/
theorem takes_tableConstraint : Takes limit room base Any tableConstraint c := by
  apply takes_behind?_bind hgoals
  apply takes_bind hgoals
  apply takes_kind
  split
  · exact takes_bind hgoals (takes_expectAll hgoals _ _)
  · next h => exact takes_bind hgoals (takes_advance (by simp [h]))
  · next h => exact takes_bind hgoals (takes_advance (by simp [h]))
  · exact takes_bind hgoals (takes_expectAll hgoals _ _)
  · exact takes_unexpected _

/-! ## Schemas -/

theorem takes_createHead (object : Keyword) : Takes limit room base Any (createHead object) c :=
  takes_bind hgoals (takes_expect hgoals _)

/-- What `creation` chooses from starts with `CREATE`. -/
theorem takes_creation (hbase : 1 ≤ base) : Takes limit room base Any creation c := by
  apply takes_look
  apply takes_look
  split
  · exact takes_map hgoals (takes_parse hgoals .createTable hbase)
  · exact takes_map hgoals (takes_parse hgoals .createIndex hbase)
  · exact takes_map hgoals (takes_parse hgoals .createView hbase)
  · exact takes_map hgoals (takes_parse hgoals .createTrigger hbase)
  · exact takes_bind hgoals (takes_expect hgoals _)

/-- What `statement` chooses from is of a lower level. -/
theorem takes_statement (hbase : 1 ≤ base) : Takes limit room base Any statement c := by
  apply takes_kind
  split
  · exact takes_map hgoals (takes_parse hgoals .select hbase)
  · exact takes_unsupported _
  · exact takes_map hgoals (takes_parse hgoals .insert hbase)
  · exact takes_map hgoals (takes_parse hgoals .insert hbase)
  · exact takes_map hgoals (takes_parse hgoals .update hbase)
  · exact takes_map hgoals (takes_parse hgoals .delete hbase)
  · exact takes_creation hgoals hbase
  · exact takes_map hgoals (takes_parse hgoals .drop hbase)
  · exact takes_map hgoals (takes_parse hgoals .alter hbase)
  · exact takes_unexpected _

/-- The step of a trigger, which is taken a level deeper, opens rules of the lowest level only. -/
theorem takes_triggerStep (hbase : 1 ≤ base) : Takes limit room base Any triggerStep c := by
  apply takes_kind
  split
  · exact takes_map hgoals (takes_parse hgoals .insert hbase)
  · exact takes_map hgoals (takes_parse hgoals .insert hbase)
  · exact takes_map hgoals (takes_parse hgoals .update hbase)
  · exact takes_map hgoals (takes_parse hgoals .delete hbase)
  · exact takes_map hgoals (takes_parse hgoals .select hbase)
  · exact takes_unsupported _
  · exact takes_unexpected _

/-! ## All productions -/

/-- Every production takes a token, and opens goals of a lower level only until then. -/
theorem takes_productions (g : Goal) : Takes limit room (level g - 1) Any (productions g) c := by
  cases g with
  | operand least => exact takes_operand hgoals least (Nat.le_refl 1)
  | rule r =>
    cases r with
    | statement => exact takes_statement hgoals (Nat.le_refl 1)
    | select => exact takes_select hgoals
    | insert => exact takes_insert hgoals
    | update => exact takes_bind hgoals (takes_expect hgoals _)
    | delete => exact takes_bind hgoals (takes_expectAll hgoals _ _)
    | createTable => exact takes_bind hgoals (takes_createHead hgoals _)
    | createIndex => exact takes_bind hgoals (takes_expect hgoals _)
    | createView => exact takes_bind hgoals (takes_createHead hgoals _)
    | createTrigger => exact takes_bind hgoals (takes_createHead hgoals _)
    | drop => exact takes_bind hgoals (takes_expect hgoals _)
    | alter => exact takes_bind hgoals (takes_expectAll hgoals _ _)
    | expr => exact takes_goal hgoals (.operand 0) (Nat.le_refl 2)
    | literal => exact takes_literal hgoals
    | functionCall => exact takes_functionCall hgoals
    | resultColumn => exact takes_resultColumn hgoals (Nat.le_refl 3)
    | selectSource => exact takes_selectSource hgoals (Nat.le_refl 1)
    | tableSource => exact takes_tableSource hgoals
    | joinClause => exact takes_joinClause
    | orderingTerm => exact takes_bind hgoals (takes_parse hgoals .expr (Nat.le_refl 3))
    | assignment => exact takes_bind hgoals (takes_identifier hgoals)
    | columnDefinition => exact takes_bind hgoals (takes_identifier hgoals)
    | columnConstraint => exact takes_columnConstraint hgoals (Nat.le_refl 1)
    | tableConstraint => exact takes_tableConstraint hgoals
    | typeName => exact takes_bind hgoals (takes_identifier hgoals)
    | signedNumber => exact takes_signedNumber hgoals
    | conflictClause => exact takes_bind hgoals (takes_expectAll hgoals _ _)
    | foreignKey => exact takes_bind hgoals (takes_expect hgoals _)
    | indexedColumn => exact takes_bind hgoals (takes_identifier hgoals)

/-! ## Loops -/

/-- The operator is taken, whether `NOT` stands before it or not. -/
theorem takes_infixForm (left : Expr) (right : Nat) :
    Takes limit room base Any (infixForm left right) c := by
  apply takes_accept hgoals
  apply takes_kind
  split
  · next form h =>
    exact takes_bind hgoals (takes_advance (TokenKind.ne_eof_of_some rfl h))
  · exact takes_unexpected _

/-- A round of the loop of `operand` that is not the last has taken an operator. -/
theorem takes_extend (least : Nat) (left : Expr) :
    Takes limit room base (·.isSome) (extend least left) c := by
  apply takes_look
  apply takes_look
  split
  · exact takes_bind hgoals (takes_infixForm hgoals left _)
  · exact takes_pure Bool.false_ne_true

/-- A rule that is found has taken its words. -/
theorem takes_referenceRule? : Takes limit room base (·.isSome) referenceRule? c := by
  apply takes_acceptAll hgoals
  apply takes_acceptAll hgoals
  apply takes_accept hgoals
  exact takes_pure Bool.false_ne_true

theorem takes_columnConstraint? (hbase : 2 ≤ base) :
    Takes limit room base (·.isSome) columnConstraint? c := by
  apply takes_kind
  split
  · exact takes_map hgoals (takes_parse hgoals .columnConstraint hbase)
  · exact takes_pure Bool.false_ne_true

/-- A further column has taken its comma. -/
theorem takes_furtherColumn? : Takes limit room base (·.isSome) furtherColumn? c := by
  apply takes_isAt
  apply takes_look
  split
  · next h =>
    have hcomma : c.kindAt 0 = .operator .comma :=
      Terminal.accepts_iff.1 (Bool.and_eq_true_iff.1 h).1
    exact takes_bind hgoals (takes_advance (by simp [hcomma]))
  · exact takes_pure Bool.false_ne_true

/-- A further step has taken its semicolon. -/
theorem takes_furtherStep? : Takes limit room 2 (·.isSome) furtherStep? c := by
  apply takes_accept hgoals
  apply takes_map hgoals
  apply takes_bind hgoals
  apply takes_deeper
  intro r hr
  exact takes_triggerStep (fun r' hr' => hgoals r' (by omega)) (Nat.le_refl 1)

end Productions

/-! ## All goals -/

/-- A step of a trigger fits a level deeper. -/
theorem suits_fitsBelow (limit : Nat) : Suits (fun _ _ => True) (FitsBelow limit) where
  extend _ := trivial
  behind _ _ := trivial
  identifier := trivial
  referenceRule := trivial
  columnConstraint := trivial
  furtherColumn := trivial
  furtherStep := trivial
  triggerStep room hgoals c :=
    (takes_triggerStep hgoals (by omega)).fits throughout_triggerStep

/-- However many levels are left, goals that succeed have taken a token, and where they end for want
of levels there were fewer than four for each token ahead and those of the goal. -/
theorem goalsMeet (limit room : Nat) : GoalsMeet limit room := by
  induction room using Nat.strongRecOn with
  | ind room ih =>
    cases room with
    | zero =>
      constructor
      · intro g c tree c' hrun
        cases hrun
      · intro g c _
        have := level_pos g
        omega
    | succ room =>
      have hgoals : ∀ r, r ≤ room → GoalsMeet limit r :=
        fun r hr => ih r (Nat.lt_succ_of_le hr)
      constructor
      · intro g c tree c' hrun
        exact (takes_productions hgoals g).moves tree c' hrun trivial
      · intro g c hdeep
        have hfits := (takes_productions hgoals g).fits
          (throughout_productions (suits_fitsBelow limit) g) hdeep
        have := level_pos g
        omega

/-! ## All loops -/

/-- A round of `collecting` moves if what finds its value takes a token. -/
theorem loopMoves_collecting {α : Type} {p : Production (Option α)}
    (hp : ∀ limit room c, Takes limit room 2 (·.isSome) p c) :
    LoopMoves productions _ (collecting p) := by
  intro limit room found found' c c' hrun
  cases h : p.run productions limit room _ c with
  | failed error c₁ =>
    rw [collecting, run_bind_of_failed h] at hrun
    cases hrun
  | done item c₁ =>
    rw [collecting, run_bind_of_done h] at hrun
    cases item with
    | none =>
      rw [run_pure] at hrun
      cases hrun
    | some x =>
      rw [run_pure] at hrun
      cases hrun
      exact (hp limit room c).moves (some x) c' h rfl

/-- All loops of the grammar move on in each round. -/
theorem suits_loopMoves : Suits (LoopMoves productions) fun _ _ => True where
  extend least limit room left _ c c' hrun := by
    have htakes : Takes limit room 2 (·.isSome) (extend least left) c :=
      takes_extend (fun r _ => goalsMeet limit r) least left
    exact htakes.moves _ c' hrun rfl
  behind _ _ := loopMoves_collecting fun limit _ _ => takes_behind? fun r _ => goalsMeet limit r
  identifier := loopMoves_collecting fun limit _ _ => takes_identifier? fun r _ => goalsMeet limit r
  referenceRule :=
    loopMoves_collecting fun limit _ _ => takes_referenceRule? fun r _ => goalsMeet limit r
  columnConstraint := loopMoves_collecting fun limit _ _ =>
    takes_columnConstraint? (fun r _ => goalsMeet limit r) (Nat.le_refl 2)
  furtherColumn :=
    loopMoves_collecting fun limit _ _ => takes_furtherColumn? fun r _ => goalsMeet limit r
  furtherStep :=
    loopMoves_collecting fun limit _ _ => takes_furtherStep? fun r _ => goalsMeet limit r
  triggerStep := trivial

end SqlGrammar.Grammar
