import SqlGrammar.Proofs.Reading.Start

/-!
# Reading operators and their operands

An operand is read from its head on: what the loop over infix operators does behind the head decides
where the operand ends. `Expr.ReadsBack` states this for a written expression in the form that an
induction needs: if the loop, started on the expression, goes on to read some value, then so does
the operand whose first part the expression is. `Expr.Follows` says what may stand behind the
expression without being drawn into it.
-/

set_option autoImplicit false

namespace SqlGrammar

open SqlGrammar.Parser

/-- What a production of the grammar reads, with enough levels left. -/
abbrev Grammar.Reads {α : Type} (p : Production α) (input : List Symbol) (v : α)
    (rest : List Symbol) : Prop := Parser.Reads Grammar.productions p input v rest

namespace Grammar

/-- A keyword that may be missing. -/
theorem reads_accept_flag (word : Keyword) (set : Bool) {rest : List Symbol}
    (h : set = false → kindAhead rest 0 ≠ .keyword word) :
    Reads (accept word) (Pieces.symbols (Pieces.flag [word] set) ++ rest) set rest := by
  cases set with
  | true => exact reads_accept_true rfl
  | false => exact reads_accept_false (h rfl)

/-! ## The operator ahead -/

/-- The power of the operator that starts here. -/
def infixAhead (ss : List Symbol) : Option Nat := infixHere? 0 (kindAhead ss 0) (kindAhead ss 1)

theorem infixHere?_zero {now next : TokenKind} {least q : Nat}
    (h : infixHere? least now next = some q) : infixHere? 0 now next = some q ∧ least ≤ q := by
  unfold infixHere? at h ⊢
  cases hpower : infixPower? now with
  | none => simp [hpower] at h
  | some power =>
    simp only [hpower] at h ⊢
    split at h
    · cases h
    · next hle =>
      rw [if_neg (Nat.not_lt_zero power)]
      split at h
      · cases h
      · next hnot =>
        cases h
        rw [if_neg hnot]
        exact ⟨rfl, by omega⟩

theorem infixHere?_of_le {now next : TokenKind} {least q : Nat}
    (h : infixHere? 0 now next = some q) (hle : least ≤ q) :
    infixHere? least now next = some q := by
  unfold infixHere? at h ⊢
  cases hpower : infixPower? now with
  | none => simp [hpower] at h
  | some power =>
    simp only [hpower, if_neg (Nat.not_lt_zero power)] at h ⊢
    split at h
    · cases h
    · next hnot =>
      cases h
      rw [if_neg (by omega), if_neg hnot]

/-- No operator binds more strongly than `COLLATE`. -/
theorem infixAhead_le {ss : List Symbol} {q : Nat} (h : infixAhead ss = some q) :
    q ≤ collatePower := by
  have hall : ∀ kind q, infixPower? kind = some q → q ≤ collatePower := by
    intro kind q hq
    unfold infixPower? at hq
    split at hq <;> cases hq <;> decide
  unfold infixAhead infixHere? at h
  split at h
  · next power hpower =>
    rw [if_neg (Nat.not_lt_zero power)] at h
    split at h
    · cases h
    · cases h
      exact hall _ _ hpower
  · cases h

theorem infixAhead_of_none {ss : List Symbol} (h : infixPower? (kindAhead ss 0) = none) :
    infixAhead ss = none := by
  simp only [infixAhead, infixHere?, h]

/-- The operator ahead is of the kind of the first symbol, which is `NOT` only before some. -/
theorem infixAhead_cons {s : Symbol} {ss : List Symbol} {q : Nat} (h : infixPower? s.kind = some q)
    (hnot : s.kind ≠ .keyword .NOT) : infixAhead (s :: ss) = some q := by
  simp only [infixAhead, infixHere?, kindAhead_cons_zero, h, if_neg (Nat.not_lt_zero q)]
  simp [hnot]

/-! ## The loop over operators -/

variable {least : Nat} {left e v : Expr} {input mid rest : List Symbol}

/-- The loop ends before an operator that binds too weakly. -/
theorem reads_loop_stop (h : ∀ q, infixAhead rest = some q → q < least) :
    Reads (iterate (extend least) left) rest left rest := by
  have hnone : infixHere? least (kindAhead rest 0) (kindAhead rest 1) = none := by
    cases hq : infixHere? least (kindAhead rest 0) (kindAhead rest 1) with
    | none => rfl
    | some q =>
      obtain ⟨hzero, hle⟩ := infixHere?_zero hq
      have := h q hzero
      omega
  refine reads_iterate_stop (reads_bind (reads_look 0 rest) (reads_bind (reads_look 1 rest) ?_))
  rw [hnone]
  exact reads_pure none rest

/-- The loop takes an operator that binds strongly enough, and goes on behind its form. -/
theorem reads_loop_step {q : Nat} (hq : infixAhead input = some q) (hle : least ≤ q)
    (hform : Reads (infixForm left (q + 1)) input e mid) (hlt : mid.length < input.length)
    (hmore : Reads (iterate (extend least) e) mid v rest) :
    Reads (iterate (extend least) left) input v rest := by
  refine reads_iterate_step ?_ hlt hmore
  refine reads_bind (reads_look 0 input) (reads_bind (reads_look 1 input) ?_)
  rw [infixHere?_of_le hq hle]
  exact reads_bind hform (reads_pure _ _)

/-- An operand without a prefix operator. -/
theorem reads_operand_of_primary (hkind : UnaryOp.ofKind? (kindAhead input 0) = none)
    (hprimary : Reads primary input e mid)
    (hloop : Reads (iterate (extend least) e) mid v rest) :
    Reads (operand least) input v rest := by
  have hhead : Reads operandHead input e mid := by
    refine reads_bind (reads_kind input) ?_
    rw [hkind]
    exact hprimary
  exact reads_bind hhead hloop

/-- An operand with a prefix operator. -/
theorem reads_operand_of_prefixed {op : UnaryOp} {ss : List Symbol}
    (hoperand : Reads (operandOf op.power) ss e mid)
    (hloop : Reads (iterate (extend least) (.unary op e)) mid v rest) :
    Reads (operand least) (op.terminal.symbol :: ss) v rest := by
  have hkind : UnaryOp.ofKind? op.terminal.symbol.kind = some op := by cases op <;> rfl
  have hne : op.terminal.symbol.kind ≠ .eof := by
    rw [Terminal.symbol_kind]
    exact op.terminal.kind_ne_eof
  have hhead : Reads operandHead (op.terminal.symbol :: ss) (.unary op e) mid := by
    refine reads_bind (reads_kind _) ?_
    rw [kindAhead_cons_zero, hkind]
    exact reads_bind (reads_advance hne) (reads_bind hoperand (reads_pure _ _))
  exact reads_bind hhead hloop

end Grammar

/-! ## Expressions in their place -/

namespace Expr

open Grammar

/-- What may stand behind the expression: no operator that would be drawn into it, nothing that
makes its last name a qualifier or a function, and no escape that its last pattern would take. -/
structure Follows (e : Expr) (rest : List Symbol) : Prop where
  operator : ∀ q, infixAhead rest = some q →
    (e.isPrefixed = true ∨ q ≤ e.power) ∧ q < e.tailPower
  dot : kindAhead rest 0 ≠ .operator .dot
  call : kindAhead rest 0 ≠ .operator .leftParen
  escape : kindAhead rest 0 = .keyword .ESCAPE → e.opensEscape = false

/-- The written expression is read as the first part of an operand: if the loop goes on behind it to
read a value, then the operand is that value. -/
def ReadsBack (e : Expr) : Prop :=
  ∀ (least : Nat) (rest : List Symbol) (v : Expr) (r : List Symbol), e.fitsRight least = true →
    e.Follows rest → Reads (iterate (extend least) (e.regroup .written)) rest v r →
      Reads (operand least) (e.symbols ++ rest) v r

end Expr

namespace Grammar

/-- Whether a symbol of this kind ends every expression before it. -/
def endsExpr (kind : TokenKind) : Bool :=
  (infixPower? kind).isNone && kind != .operator .dot && kind != .operator .leftParen &&
    kind != .keyword .ESCAPE

end Grammar

namespace Expr

open Grammar

section Ends

variable {e : Expr} {rest : List Symbol}

theorem Follows.of_ends (h : endsExpr (kindAhead rest 0) = true) : e.Follows rest := by
  simp only [endsExpr, Bool.and_eq_true, Option.isNone_iff_eq_none, bne_iff_ne] at h
  obtain ⟨⟨⟨hpower, hdot⟩, hcall⟩, hescape⟩ := h
  refine ⟨fun q hq => ?_, hdot, hcall, fun h => absurd h hescape⟩
  rw [infixAhead_of_none hpower] at hq
  cases hq

theorem not_infixAhead_of_ends (h : endsExpr (kindAhead rest 0) = true) {q least : Nat}
    (hq : infixAhead rest = some q) : q < least := by
  simp only [endsExpr, Bool.and_eq_true, Option.isNone_iff_eq_none] at h
  rw [infixAhead_of_none h.1.1.1] at hq
  cases hq

theorem fitsRight_zero : e.fitsRight 0 = true := by simp [fitsRight]

/-- A whole expression is read in front of what ends it. -/
theorem ReadsBack.reads_expr (h : e.ReadsBack) (hrest : endsExpr (kindAhead rest 0) = true) :
    Reads Grammar.expr (e.symbols ++ rest) (e.regroup .written) rest :=
  reads_goal (h 0 rest _ _ fitsRight_zero (.of_ends hrest)
    (reads_loop_stop fun _ hq => not_infixAhead_of_ends hrest hq))

theorem ReadsBack.reads (h : e.ReadsBack) (hrest : endsExpr (kindAhead rest 0) = true) :
    Reads Rule.expr.parse (e.symbols ++ rest) (e.regroup .written) rest :=
  reads_goal (h.reads_expr hrest)

end Ends

end Expr

namespace Grammar

section Operands

variable {P : Phrase → Prop} {x v : Expr} {least power : Nat} {rest r : List Symbol}

theorem reads_startsQuery_false {ss : List Symbol} (h : startsExpr (kindAhead ss 0) = true) :
    Reads startsQuery ss false ss := by
  have hselect : kindAhead ss 0 ≠ .keyword .SELECT := by
    intro heq; rw [heq] at h; cases h
  have hwith : kindAhead ss 0 ≠ .keyword .WITH := by
    intro heq; rw [heq] at h; cases h
  exact reads_bind (reads_isAt_false hselect) (reads_isAt_false hwith)

/-- What starts with a parenthesis is a primary expression. -/
theorem reads_primary_paren {ss mid : List Symbol} {e : Expr}
    (h : Reads parenBody ss e (.operator .rightParen :: mid)) :
    Reads primary (.operator .leftParen :: ss) e mid := by
  refine reads_bind (reads_kind _) (reads_bind (reads_isNext _ _) ?_)
  exact reads_parenthesized h

/-- An expression in parentheses. -/
theorem reads_paren (hwf : x.WellFormed P) (h : x.ReadsBack) :
    Reads primary ((Expr.paren x).symbols ++ rest) (.paren (x.regroup .written)) rest := by
  rw [Expr.symbols_paren, List.cons_append, List.append_assoc]
  refine reads_primary_paren (reads_bind (reads_startsQuery_false (Expr.startsExpr hwf _)) ?_)
  exact reads_bind (h.reads rfl) (reads_pure _ _)

/-- The first part of an operand in parentheses. -/
theorem reads_operand_paren (hwf : x.WellFormed P) (h : x.ReadsBack)
    (hloop : Reads (iterate (extend least) (.paren (x.regroup .written))) rest v r) :
    Reads (operand least) ((Expr.paren x).symbols ++ rest) v r := by
  refine reads_operand_of_primary ?_ (reads_paren hwf h) hloop
  rw [Expr.symbols_paren]
  rfl

/-- An operand where a power is demanded. -/
theorem reads_right (hwf : x.WellFormed P) (h : x.ReadsBack)
    (hfollows : x.fitsRight least = true → x.Follows rest)
    (hstop : ∀ q, infixAhead rest = some q → q < least) :
    Reads (operandOf least) (x.rightSymbols least ++ rest) (x.regroupRight .written least)
      rest := by
  refine reads_goal (show Reads (operand least) _ _ _ from ?_)
  rw [Expr.rightSymbols_eq, Expr.regroupRight, Grouping.written_right]
  -- the loop behind the operand stops at once, with parentheses or without
  cases hfit : x.fitsRight least with
  | true => exact h least rest _ _ hfit (hfollows hfit) (reads_loop_stop hstop)
  | false => exact reads_operand_paren hwf h (reads_loop_stop hstop)

/-- A left operand, and what the loop makes of the operator behind it. -/
theorem reads_left (hwf : x.WellFormed P) (h : x.ReadsBack) (hle : least ≤ power)
    (hpower : infixAhead rest = some power)
    (hloop : Reads (iterate (extend least) (x.regroupLeft .written power)) rest v r) :
    Reads (operand least) (x.leftSymbols power ++ rest) v r := by
  rw [Expr.leftSymbols_eq]
  rw [Expr.regroupLeft, Grouping.written_left] at hloop
  cases hfit : x.fitsLeft power with
  | false =>
    rw [hfit] at hloop
    exact reads_operand_paren hwf h hloop
  | true =>
    rw [hfit] at hloop
    simp only [Expr.fitsLeft, Bool.and_eq_true, decide_eq_true_eq] at hfit
    -- what stands ahead is an operator, hence nothing that would be drawn into the end of a name
    have hne : ∀ kind, infixPower? kind = none → kindAhead rest 0 ≠ kind := by
      rintro kind hnone rfl
      rw [infixAhead_of_none hnone] at hpower
      cases hpower
    refine h least rest v r ?_
      ⟨fun q hq => ?_, hne _ rfl, hne _ rfl, fun hescape => absurd hescape (hne _ rfl)⟩ hloop
    · simp only [Expr.fitsRight, Bool.or_eq_true, decide_eq_true_eq]
      exact .inr (by omega)
    · obtain rfl : power = q := Option.some.inj (hpower.symm.trans hq)
      exact ⟨.inr hfit.1, hfit.2⟩

end Operands

end Grammar

end SqlGrammar
