import SqlGrammar.Proofs.Reading.Operators

/-!
# Reading the forms of operators

For each operator the expression that it makes is read back, provided that its operands are. The
operand on the right stops where the whole expression does, for nothing that follows the whole binds
more strongly than its operator.
-/

set_option autoImplicit false

namespace SqlGrammar

open SqlGrammar.Parser Grammar

namespace Expr

variable {P : Phrase → Prop} {e x : Expr} {rest : List Symbol} {least : Nat}

/-! ## Where right operands end -/

theorem negationPower_le_tailPower (e : Expr) : negationPower ≤ e.tailPower := by
  fun_induction tailPower e <;> simp_all [atomPower, negationPower]

/-- What may follow an expression may follow the operand at its end. -/
theorem Follows.right (h : e.Follows rest) (hpower : ∀ q, infixAhead rest = some q → q < least)
    (htail : e.tailPower ≤ x.tailPower)
    (hescape : e.opensEscape = false → x.opensEscape = false) (hfit : x.fitsRight least = true) :
    x.Follows rest where
  operator q hq := by
    have hlt := hpower q hq
    have htight := (h.operator q hq).2
    simp only [fitsRight, Bool.or_eq_true, decide_eq_true_eq] at hfit
    exact ⟨hfit.imp id fun hle => by omega, by omega⟩
  dot := h.dot
  call := h.call
  escape hkind := hescape (h.escape hkind)

/-- An operator that follows an expression without prefix operator is no stronger. -/
theorem Follows.le_power (h : e.Follows rest) (hprefixed : e.isPrefixed = false) {q : Nat}
    (hq : infixAhead rest = some q) : q < e.power + 1 := by
  rcases (h.operator q hq).1 with hp | hle
  · rw [hprefixed] at hp
    cases hp
  · omega

/-! ## Prefix operators -/

theorem readsBack_unary {op : UnaryOp} {operand : Expr} (hwf : operand.WellFormed P)
    (h : operand.ReadsBack) : (unary op operand).ReadsBack := by
  intro least rest v r hfit hfollows hloop
  have htail : (unary op operand).tailPower ≤ operand.tailPower := by
    cases op with
    | not => exact Nat.min_le_right _ _
    | _ => exact Nat.le_refl _
  -- a sign binds more strongly than all operators, a `NOT` than those that may follow
  have hstop : ∀ q, infixAhead rest = some q → q < op.power := by
    intro q hq
    have hlt := (hfollows.operator q hq).2
    have hle := infixAhead_le hq
    cases op with
    | not =>
      have hmin : (unary .not operand).tailPower ≤ negationPower := Nat.min_le_left _ _
      change q < negationPower
      omega
    | _ => exact Nat.lt_of_le_of_lt hle (by decide : collatePower < signPower)
  rw [symbols_unary]
  exact reads_operand_of_prefixed
    (reads_right hwf h (fun hf => hfollows.right hstop htail id hf) hstop) hloop

/-! ## Forms with a first keyword or sign -/

/-- A form behind its left operand. -/
theorem reads_infixForm {left v : Expr} {right : Nat} {s : Symbol} {ss : List Symbol}
    (negated : Bool) (form : InfixForm) (hform : InfixForm.ofKind? s.kind = some form)
    (h : Reads (infixRest left negated right form) ss v rest) :
    Reads (infixForm left right) (notSymbols negated ++ s :: ss) v rest := by
  have hnot : s.kind ≠ .keyword .NOT := by
    intro heq
    rw [heq] at hform
    cases hform
  refine reads_bind (reads_accept_flag .NOT negated fun _ => hnot) (reads_bind (reads_kind _) ?_)
  rw [kindAhead_cons_zero, hform]
  exact reads_bind (reads_advance (TokenKind.ne_eof_of_some rfl hform)) h

theorem infixAhead_notSymbols {negated : Bool} {s : Symbol} {ss : List Symbol}
    (hpower : infixPower? s.kind = some equalityPower)
    (hfollows : followsInfixNot s.kind = true) (hnot : s.kind ≠ .keyword .NOT) :
    infixAhead (notSymbols negated ++ s :: ss) = some equalityPower := by
  cases negated with
  | false => exact infixAhead_cons hpower hnot
  | true =>
    change infixHere? 0 (.keyword .NOT) s.kind = some equalityPower
    simp [infixHere?, infixPower?, hfollows]

/-- A loop that takes a form goes on behind it. -/
theorem reads_loop_form {left e v : Expr} {q : Nat} {ss mid r : List Symbol}
    (hq : infixAhead (ss ++ mid) = some q) (hle : least ≤ q) (hne : ss ≠ [])
    (hform : Reads (infixForm left (q + 1)) (ss ++ mid) e mid)
    (hmore : Reads (iterate (extend least) e) mid v r) :
    Reads (iterate (extend least) left) (ss ++ mid) v r := by
  refine reads_loop_step hq hle hform ?_ hmore
  have := List.length_pos_iff.2 hne
  rw [List.length_append]
  omega

theorem le_power_of_fitsRight (h : e.fitsRight least = true) (hprefixed : e.isPrefixed = false) :
    least ≤ e.power := by
  simpa [fitsRight, hprefixed] using h

end Expr

/-! ## Binary operators -/

/-- An operator that is written as one symbol. -/
theorem BinaryOp.single {op : BinaryOp} (his : op ≠ .is) (hisNot : op ≠ .isNot) :
    ∃ s : Symbol, op.terminals.map Terminal.symbol = [s] ∧ infixPower? s.kind = some op.power ∧
      InfixForm.ofKind? s.kind = some (.binary op) ∧ s.kind ≠ .keyword .NOT := by
  cases op with
  | is => exact absurd rfl his
  | isNot => exact absurd rfl hisNot
  | _ => exact ⟨_, rfl, rfl, rfl, by simp⟩

namespace Expr

variable {P : Phrase → Prop} {least : Nat} {rest : List Symbol}

/-- An expression with a left operand, if the form behind that operand is read as the whole. -/
theorem readsBack_of_form {e subject : Expr} {ss : List Symbol}
    (hsymbols : e.symbols = subject.leftSymbols e.power ++ ss) (hprefixed : e.isPrefixed = false)
    (hwf : subject.WellFormed P) (h : subject.ReadsBack) (hne : ss ≠ [])
    (hahead : ∀ more, infixAhead (ss ++ more) = some e.power)
    (hform : ∀ rest, e.Follows rest →
      Reads (infixForm (subject.regroupLeft .written e.power) (e.power + 1)) (ss ++ rest)
        (e.regroup .written) rest) : e.ReadsBack := by
  intro least rest v r hfit hfollows hloop
  have hle := le_power_of_fitsRight hfit hprefixed
  rw [hsymbols, List.append_assoc]
  exact reads_left hwf h hle (hahead rest)
    (reads_loop_form (hahead rest) hle hne (hform rest hfollows) hloop)

section Binary

variable {left right : Expr} {op : BinaryOp}

/-- The operand behind a binary operator. -/
theorem reads_binary_right (hwf : right.WellFormed P) (h : right.ReadsBack)
    (hfollows : (binary left op right).Follows rest) :
    Reads (operandOf (op.power + 1)) (right.rightSymbols (op.power + 1) ++ rest)
      (right.regroupRight .written (op.power + 1)) rest := by
  have hstop : ∀ q, infixAhead rest = some q → q < op.power + 1 :=
    fun q hq => hfollows.le_power rfl hq
  exact reads_right hwf h (fun hf => hfollows.right hstop (Nat.le_refl _) id hf) hstop

theorem readsBack_binary (hleft : left.WellFormed P) (hright : right.WellFormed P)
    (hl : left.ReadsBack) (hr : right.ReadsBack) (his : op ≠ .is) (hisNot : op ≠ .isNot) :
    (binary left op right).ReadsBack := by
  obtain ⟨s, hs, hpower, hkind, hnot⟩ := BinaryOp.single his hisNot
  have hsymbols := symbols_binary left op right
  rw [hs] at hsymbols
  refine readsBack_of_form hsymbols rfl hleft hl (List.cons_ne_nil _ _)
    (fun more => infixAhead_cons hpower hnot) fun rest hfollows => ?_
  exact reads_infixForm false _ hkind
    (reads_bind (reads_binary_right hright hr hfollows) (reads_pure _ _))

/-- No parentheses turn an operand into a bare `NULL`. -/
theorem regroupRight_ne_null {g : Grouping} {e : Expr} (h : e ≠ .literal .null) (least : Nat) :
    e.regroupRight g least ≠ .literal .null := by
  unfold regroupRight enclose
  split
  · simp
  · cases e with
    | literal value => exact h
    | _ => simp [regroup]

/-- A comparison by `IS` with a value that is no bare `NULL`. -/
theorem reads_is {l value : Expr} {ss : List Symbol} (isNot : Bool)
    (hvalue : value ≠ .literal .null) (hnot : isNot = false → kindAhead ss 0 ≠ .keyword .NOT)
    (h : Reads (operandOf (equalityPower + 1)) ss value rest) :
    Reads (infixForm l (equalityPower + 1)) (Symbol.keyword .IS :: (notSymbols isNot ++ ss))
      (.binary l (if isNot then .isNot else .is) value) rest := by
  refine reads_infixForm false .is rfl ?_
  refine reads_bind (reads_accept_flag .NOT isNot hnot) (reads_bind h ?_)
  split
  · exact absurd rfl hvalue
  · exact reads_pure _ _

theorem readsBack_is (hleft : left.WellFormed P) (hright : right.WellFormed P)
    (hl : left.ReadsBack) (hr : right.ReadsBack) (hnull : right ≠ .literal .null)
    (hneg : right.isNegated = false) : (binary left .is right).ReadsBack := by
  refine readsBack_of_form (symbols_binary left .is right) rfl hleft hl (List.cons_ne_nil _ _)
    (fun more => infixAhead_cons rfl (by simp)) fun rest hfollows => ?_
  -- an operand that starts with a `NOT` would make the operator an `IS NOT`
  refine reads_is false (regroupRight_ne_null hnull _) (fun _ hnot => ?_)
    (reads_binary_right hright hr hfollows)
  rw [isNegated_of_not_first hright (by decide) hnot] at hneg
  cases hneg

theorem readsBack_isNot (hleft : left.WellFormed P) (hright : right.WellFormed P)
    (hl : left.ReadsBack) (hr : right.ReadsBack) (hnull : right ≠ .literal .null) :
    (binary left .isNot right).ReadsBack := by
  refine readsBack_of_form (symbols_binary left .isNot right) rfl hleft hl (List.cons_ne_nil _ _)
    (fun more => infixAhead_cons rfl (by simp)) fun rest hfollows => ?_
  exact reads_is true (regroupRight_ne_null hnull _) (fun h => by cases h)
    (reads_binary_right hright hr hfollows)

end Binary

/-! ## Tests and patterns -/

section Tests

variable {subject pattern low high : Expr} {negated : Bool}

/-- The last operand of a test. -/
theorem reads_test_right {e x : Expr} (hwf : x.WellFormed P) (h : x.ReadsBack)
    (hfollows : e.Follows rest) (hpower : e.power = equalityPower)
    (hprefixed : e.isPrefixed = false) (htail : e.tailPower ≤ x.tailPower)
    (hescape : e.opensEscape = false → x.opensEscape = false) :
    Reads (operandOf (equalityPower + 1)) (x.rightSymbols (equalityPower + 1) ++ rest)
      (x.regroupRight .written (equalityPower + 1)) rest := by
  have hstop : ∀ q, infixAhead rest = some q → q < equalityPower + 1 :=
    fun q hq => hpower ▸ hfollows.le_power hprefixed hq
  exact reads_right hwf h (fun hf => hfollows.right hstop htail hescape hf) hstop

theorem readsBack_isNull (hwf : subject.WellFormed P) (h : subject.ReadsBack) :
    (isNull subject negated).ReadsBack := by
  refine readsBack_of_form (symbols_isNull subject negated) rfl hwf h (by simp)
    (fun more => infixAhead_cons rfl (by simp)) fun rest hfollows => ?_
  -- the test is read as a comparison with a bare `NULL`
  have hnull : Reads (operandOf (equalityPower + 1)) (.keyword .NULL :: rest) (.literal .null)
      rest := by
    refine reads_goal (reads_operand_of_primary rfl ?_
      (reads_loop_stop fun q hq => hfollows.le_power rfl hq))
    exact reads_bind (reads_kind _) (reads_bind (reads_advance (by simp)) (reads_pure _ _))
  have hne : kindAhead (.keyword .NULL :: rest) 0 ≠ .keyword .NOT := by simp
  rw [List.cons_append, List.append_assoc]
  exact reads_infixForm false .is rfl
    (reads_bind (reads_accept_flag .NOT negated fun _ => hne) (reads_bind hnull (reads_pure _ _)))

theorem readsBack_collate {collation : String} (hwf : subject.WellFormed P)
    (h : subject.ReadsBack) : (collate subject collation).ReadsBack := by
  refine readsBack_of_form (symbols_collate subject collation) rfl hwf h (by simp)
    (fun more => infixAhead_cons rfl (by simp)) fun rest hfollows => ?_
  exact reads_infixForm false .collate rfl
    (reads_bind (reads_identifier collation rest) (reads_pure _ _))

theorem readsBack_within {set : InSet} (hwf : subject.WellFormed P) (h : subject.ReadsBack)
    (hset : ∀ rest, Reads inSet (Pieces.symbols set.pieces ++ .operator .rightParen :: rest)
      (set.regroup .written) (.operator .rightParen :: rest)) :
    (within subject set negated).ReadsBack := by
  refine readsBack_of_form (symbols_within subject set negated) rfl hwf h (by simp)
    (fun more => ?_) fun rest hfollows => ?_
  · rw [List.append_assoc]
    exact infixAhead_notSymbols rfl rfl (by simp)
  · simp only [List.append_assoc, List.cons_append, List.nil_append]
    exact reads_infixForm _ .within rfl
      (reads_bind (reads_parenthesized (hset rest)) (reads_pure _ _))

theorem readsBack_between (hwf : subject.WellFormed P) (hlow : low.WellFormed P)
    (hhigh : high.WellFormed P) (h : subject.ReadsBack) (hl : low.ReadsBack)
    (hh : high.ReadsBack) : (between subject low high negated).ReadsBack := by
  refine readsBack_of_form (symbols_between subject low high negated) rfl hwf h (by simp)
    (fun more => ?_) fun rest hfollows => ?_
  · rw [List.append_assoc]
    exact infixAhead_notSymbols rfl rfl (by simp)
  · simp only [List.append_assoc, List.cons_append]
    -- the `AND` binds more weakly than anything the low bound can be without parentheses
    have hand : ∀ ss q, infixAhead (.keyword .AND :: ss) = some q → q = 3 := by
      intro ss q hq
      rw [infixAhead_cons (q := 3) rfl (by simp)] at hq
      exact (Option.some.inj hq).symm
    have hlowReads : Reads (operandOf (equalityPower + 1))
        (low.rightSymbols (equalityPower + 1) ++ .keyword .AND ::
          (high.rightSymbols (equalityPower + 1) ++ rest))
        (low.regroupRight .written (equalityPower + 1))
        (.keyword .AND :: (high.rightSymbols (equalityPower + 1) ++ rest)) := by
      refine reads_right hlow hl (fun hfit => ⟨fun q hq => ?_, by simp, by simp, by simp⟩)
        fun q hq => ?_
      · obtain rfl := hand _ q hq
        have htail := low.negationPower_le_tailPower
        have hequality : equalityPower = 7 := rfl
        have hnegation : negationPower = 5 := rfl
        simp only [fitsRight, Bool.or_eq_true, decide_eq_true_eq] at hfit
        exact ⟨hfit.imp id fun hle => by omega, by omega⟩
      · obtain rfl := hand _ q hq
        decide
    exact reads_infixForm _ .between rfl
      (reads_bind hlowReads (reads_bind (reads_expect rfl) (reads_bind
        (reads_test_right hhigh hh hfollows rfl rfl (Nat.le_refl _) id) (reads_pure _ _))))

theorem infixPower?_keyword (op : LikeOp) :
    infixPower? (.keyword op.keyword) = some equalityPower := by
  cases op <;> rfl

theorem ofKind?_keyword (op : LikeOp) :
    InfixForm.ofKind? (.keyword op.keyword) = some (.like op) := by
  cases op <;> rfl

theorem infixAhead_like (op : LikeOp) (ss : List Symbol) :
    infixAhead (notSymbols negated ++ .keyword op.keyword :: ss) = some equalityPower :=
  infixAhead_notSymbols (infixPower?_keyword op) (by cases op <;> rfl)
    (by cases op <;> simp [LikeOp.keyword])

theorem readsBack_like {op : LikeOp} (hwf : subject.WellFormed P) (hpattern : pattern.WellFormed P)
    (h : subject.ReadsBack) (hp : pattern.ReadsBack) :
    (like subject op pattern none negated).ReadsBack := by
  refine readsBack_of_form (symbols_like _ _ _ _ _) rfl hwf h (by simp) (fun more => ?_)
    fun rest hfollows => ?_
  · rw [List.append_assoc]
    exact infixAhead_like op _
  · have hescape : kindAhead rest 0 ≠ .keyword .ESCAPE := fun heq => by
      cases hfollows.escape heq
    simp only [Option.map_none, Pieces.symbols_clause_none, List.append_nil, List.append_assoc,
      List.cons_append]
    exact reads_infixForm _ _ (ofKind?_keyword op) (reads_bind
      (reads_test_right hpattern hp hfollows rfl rfl (Nat.le_refl _) fun h => by cases h)
      (reads_bind (reads_behind_none hescape) (reads_pure _ _)))

theorem readsBack_like_escape {op : LikeOp} {escape : Expr} (hwf : subject.WellFormed P)
    (hpattern : pattern.WellFormed P) (hescape : escape.WellFormed P) (h : subject.ReadsBack)
    (hp : pattern.ReadsBack) (he : escape.ReadsBack) (hopen : pattern.opensEscape = false) :
    (like subject op pattern (some escape) negated).ReadsBack := by
  refine readsBack_of_form (symbols_like _ _ _ _ _) rfl hwf h (by simp) (fun more => ?_)
    fun rest hfollows => ?_
  · rw [List.append_assoc]
    exact infixAhead_like op _
  -- the pattern ends in front of `ESCAPE`, which is no operator
  · have hnone : ∀ ss, infixAhead (.keyword .ESCAPE :: ss) = none := fun ss =>
      infixAhead_of_none rfl
    have hpatternReads : Reads (operandOf (equalityPower + 1))
        (pattern.rightSymbols (equalityPower + 1) ++ .keyword .ESCAPE ::
          (escape.rightSymbols (equalityPower + 1) ++ rest))
        (pattern.regroupRight .written (equalityPower + 1))
        (.keyword .ESCAPE :: (escape.rightSymbols (equalityPower + 1) ++ rest)) := by
      refine reads_right hpattern hp (fun _ => ⟨fun q hq => ?_, by simp, by simp, fun _ => hopen⟩)
        fun q hq => ?_
      · rw [hnone] at hq
        cases hq
      · rw [hnone] at hq
        cases hq
    simp only [Option.map_some, Pieces.symbols_clause_some, List.map_cons, List.map_nil,
      List.append_assoc, List.cons_append, List.nil_append]
    exact reads_infixForm _ _ (ofKind?_keyword op) (reads_bind hpatternReads (reads_bind
      (reads_behind_some rfl
        (reads_test_right hescape he hfollows rfl rfl (Nat.le_refl _) id)) (reads_pure _ _)))

end Tests

end Expr

end SqlGrammar
