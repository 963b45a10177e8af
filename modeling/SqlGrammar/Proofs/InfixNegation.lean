import SqlGrammar.Proofs.Grammar.InfixForm

/-!
# Negated infix operators

Three tables decide about an infix operator: which tokens bind as one, before which tokens a `NOT`
belongs to the operator, and which form a token starts. Where the first two let an operator be
taken, the third knows its form, so that nothing has to be said about a token that starts none
(`infixTaken_of_infixHere`). A `NOT` is taken only before a form that keeps it, and a form without
one is not negated (`infixForm_keeps_negation`).
-/

set_option autoImplicit false

namespace SqlGrammar

/-- The tests of a subject that are negated by a `NOT` before the operator. -/
inductive Expr.TestOf (subject : Expr) (negated : Bool) : Expr → Prop
  | like (op : LikeOp) (pattern : Expr) (escape : Option Expr) :
      TestOf subject negated (.like subject op pattern escape negated)
  | within (set : InSet) : TestOf subject negated (.within subject set negated)
  | between (low high : Expr) : TestOf subject negated (.between subject low high negated)

namespace Grammar

open SqlGrammar.Parser

variable {limit room least power right : Nat} {left e : Expr} {negated : Bool} {c c' : Cursor}
  {kind : TokenKind} {form : InfixForm}

/-! ## Forms and what they give -/

/-- Whether the form has a `NOT` before it where it is negated. The form that tests for null by
`NOTNULL` also is the one by `NOT NULL`. -/
def InfixForm.takesNot : InfixForm → Bool
  | like _ | within | between | notNull => true
  | is | isNull | collate | binary _ => false

/-- A `NOT` belongs to an operator only before a form that takes it. -/
theorem InfixForm.takesNot_of_followsInfixNot (hfollows : followsInfixNot kind = true)
    (hform : ofKind? kind = some form) : form.takesNot = true := by
  cases kind with
  | keyword word => cases word <;> cases hfollows <;> cases hform <;> rfl
  | _ => cases hfollows

/-- The expressions that a form can give behind its first operand. -/
inductive InfixForm.Gives (left : Expr) (negated : Bool) : InfixForm → Expr → Prop
  | like (op : LikeOp) (pattern : Expr) (escape : Option Expr) :
      Gives left negated (.like op) (.like left op pattern escape negated)
  | is (op : BinaryOp) (value : Expr) : Gives left negated .is (.binary left op value)
  | isNull_is (isNot : Bool) : Gives left negated .is (.isNull left isNot)
  | isNull : Gives left negated .isNull (.isNull left false)
  | notNull : Gives left negated .notNull (.isNull left true)
  | within (set : InSet) : Gives left negated .within (.within left set negated)
  | between (low high : Expr) : Gives left negated .between (.between left low high negated)
  | collate (collation : String) : Gives left negated .collate (.collate left collation)
  | binary (op : BinaryOp) (value : Expr) :
      Gives left negated (.binary op) (.binary left op value)

/-- What is read of a form is one of the expressions that it gives. -/
theorem gives_of_run_infixRest
    (h : (infixRest left negated right form).run productions limit room _ c = .done e c') :
    form.Gives left negated e := by
  cases form with
  | like op =>
    obtain ⟨pattern, c₁, -, h⟩ := exists_of_run_bind h
    obtain ⟨escape, c₂, -, h⟩ := exists_of_run_bind h
    cases (run_pure limit room c₂ _).symm.trans h
    exact .like op pattern escape
  | is =>
    obtain ⟨isNot, c₁, -, h⟩ := exists_of_run_bind h
    obtain ⟨value, c₂, -, h⟩ := exists_of_run_bind h
    split at h
    · cases (run_pure limit room c₂ _).symm.trans h
      exact .isNull_is isNot
    · cases (run_pure limit room c₂ _).symm.trans h
      exact .is _ value
  | isNull =>
    cases (run_pure limit room c _).symm.trans h
    exact .isNull
  | notNull =>
    cases (run_pure limit room c _).symm.trans h
    exact .notNull
  | within =>
    obtain ⟨set, c₁, -, h⟩ := exists_of_run_bind h
    cases (run_pure limit room c₁ _).symm.trans h
    exact .within set
  | between =>
    obtain ⟨low, c₁, -, h⟩ := exists_of_run_bind h
    obtain ⟨_, c₂, -, h⟩ := exists_of_run_bind h
    obtain ⟨high, c₃, -, h⟩ := exists_of_run_bind h
    cases (run_pure limit room c₃ _).symm.trans h
    exact .between low high
  | collate =>
    obtain ⟨collation, c₁, -, h⟩ := exists_of_run_bind h
    cases (run_pure limit room c₁ _).symm.trans h
    exact .collate collation
  | binary op =>
    obtain ⟨value, c₁, -, h⟩ := exists_of_run_bind h
    cases (run_pure limit room c₁ _).symm.trans h
    exact .binary op value

/-- A `NOT` that was taken is kept. -/
theorem InfixForm.Gives.of_takesNot (h : form.Gives left true e) (htakes : form.takesNot = true) :
    Expr.TestOf left true e ∨ e = .isNull left true := by
  cases h with
  | like op pattern escape => exact .inl (.like op pattern escape)
  | within set => exact .inl (.within set)
  | between low high => exact .inl (.between low high)
  | notNull => exact .inr rfl
  | is | isNull_is | isNull | collate | binary => cases htakes

/-- A test is negated just where a `NOT` was taken. -/
theorem InfixForm.Gives.negated_eq {subject : Expr} {b : Bool} (h : form.Gives left negated e)
    (htest : Expr.TestOf subject b e) : b = negated := by
  cases htest <;> cases h <;> rfl

/-! ## Taking an operator -/

/-- Where the loop over the operators goes on, it goes on with the infix form. -/
theorem run_extend_of_infixHere (left : Expr)
    (h : infixHere? least (c.kindAt 0) (c.kindAt 1) = some power) :
    (extend least left).run productions limit room _ c =
      (some <$> infixForm left (power + 1)).run productions limit room _ c := by
  rw [extend, run_bind_of_done (run_look limit room c 0),
    run_bind_of_done (run_look limit room c 1), h]
  rfl

/-- The form behind a `NOT` that is taken takes it. -/
theorem takesNot_of_run_accept (h : infixHere? least (c.kindAt 0) (c.kindAt 1) = some power)
    (haccept : (accept Keyword.NOT : Production Bool).run productions limit room _ c =
      .done true c')
    (hform : InfixForm.ofKind? (c'.kindAt 0) = some form) : form.takesNot = true := by
  rcases infixHere?_cases h with ⟨hnot, hfollows⟩ | ⟨hnot, -⟩
  · cases (run_accept_of_eq hnot).symm.trans haccept
    rw [Cursor.kindAt_advance (by simp [hnot])] at hform
    exact InfixForm.takesNot_of_followsInfixNot hfollows hform
  · cases (run_accept_of_ne hnot).symm.trans haccept

/-- Where `infixHere?` lets an operator be taken, its first token or the one behind a `NOT` starts a
form, so that `infixTaken` is `infixForm` whatever it would do with any other token. A `NOT` that is
taken is kept: what is given is a negated test of the first operand (`Expr.TestOf`), or the test
that it is not null. Where none is taken, no such test is negated. -/
theorem infixForm_keeps_negation (left : Expr) (limit room : Nat)
    (h : infixHere? least (c.kindAt 0) (c.kindAt 1) = some power) :
    (extend least left).run productions limit room _ c =
        (some <$> infixForm left (power + 1)).run productions limit room _ c ∧
      ∃ negated c₁ form,
        (accept Keyword.NOT).run productions limit room _ c = .done negated c₁ ∧
        (negated = true ↔ c.kindAt 0 = .keyword .NOT) ∧
        InfixForm.ofKind? c₁.current.kind = some form ∧
        (∀ other, infixTaken limit room left (power + 1) other c =
          (infixForm left (power + 1)).run productions limit room _ c) ∧
        (infixForm left (power + 1)).run productions limit room _ c =
          (infixRest left negated (power + 1) form).run productions limit room _ c₁.advance ∧
        ∀ e c', (infixForm left (power + 1)).run productions limit room _ c = .done e c' →
          (negated = true → Expr.TestOf left true e ∨ e = .isNull left true) ∧
          (negated = false → ∀ subject b, Expr.TestOf subject b e → b = false) := by
  obtain ⟨negated, c₁, form, haccept, hform, hrun⟩ :=
    run_infixForm_of_infixHere limit room left (power + 1) h
  refine ⟨run_extend_of_infixHere left h, negated, c₁, form, haccept,
    eq_true_iff_of_run_accept haccept, c₁.kindAt_zero ▸ hform,
    fun other => infixTaken_of_infixHere left (power + 1) other h, hrun, fun e c' he => ?_⟩
  have hgives := gives_of_run_infixRest (hrun.symm.trans he)
  constructor
  · rintro rfl
    exact hgives.of_takesNot (takesNot_of_run_accept h haccept hform)
  · rintro rfl subject b htest
    exact hgives.negated_eq htest

/-- The cursor at the operator in `a NOT IN ()`. -/
def atNegatedSet : Cursor :=
  ⟨[⟨.keyword .NOT, "NOT", ⟨2, 5⟩⟩, ⟨.keyword .IN, "IN", ⟨6, 8⟩⟩,
    ⟨.operator .leftParen, "(", ⟨9, 10⟩⟩, ⟨.operator .rightParen, ")", ⟨10, 11⟩⟩], .eof 11, rfl⟩

/-- The column in `a NOT IN ()`. -/
def testedColumn : Expr := .column none none "a"

/-- The `NOT` before an empty set is kept. -/
theorem infixForm_keeps_negation_set :
    infixHere? 0 (atNegatedSet.kindAt 0) (atNegatedSet.kindAt 1) = some 7 ∧
      ∃ e c', (infixForm testedColumn 8).run productions 200 7 _ atNegatedSet = .done e c' ∧
        (Expr.TestOf testedColumn true e ∨ e = .isNull testedColumn true) := by
  have hpower : infixHere? 0 (atNegatedSet.kindAt 0) (atNegatedSet.kindAt 1) = some 7 := by decide
  obtain ⟨-, negated, c₁, form, -, hnegated, -, -, -, hkeeps⟩ :=
    infixForm_keeps_negation testedColumn 200 7 hpower
  have hrun : (infixForm testedColumn 8).run productions 200 7 _ atNegatedSet =
      .done (.within testedColumn (.values []) true) ⟨[], .eof 11, rfl⟩ := rfl
  exact ⟨hpower, _, _, hrun, (hkeeps _ _ hrun).1 (hnegated.2 (by decide))⟩

end Grammar

end SqlGrammar
