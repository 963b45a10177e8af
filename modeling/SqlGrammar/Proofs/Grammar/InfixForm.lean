import SqlGrammar.Parse
import SqlGrammar.Proofs.Parser.Combinators

/-!
# The operator of an infix form

`infixForm` looks at the token of an operator before it takes it. `infixTaken` takes the token
first, and has to say what is done with one that starts no form. Where `infixHere?` lets an operator
be taken, its token always starts one: there the two give the same reply, whatever `infixTaken`
would do otherwise (`infixTaken_of_infixHere`), and the error of `infixForm` is never met
(`run_infixForm_of_infixHere`).
-/

set_option autoImplicit false

namespace SqlGrammar.Grammar

open SqlGrammar.Parser

/-! ## Which tokens start a form -/

/-- A token other than `NOT` with a power in `infixPower?` starts a form. -/
theorem InfixForm.isSome_of_infixPower? {kind : TokenKind} {power : Nat}
    (h : infixPower? kind = some power) (hnot : kind ≠ .keyword .NOT) :
    (InfixForm.ofKind? kind).isSome = true := by
  cases kind with
  | keyword word =>
    cases word with
    | NOT => exact absurd rfl hnot
    | _ => cases h <;> rfl
  | operator sign => cases sign <;> cases h <;> rfl
  | _ => cases h

/-- A token that lets a `NOT` before it belong to an operator starts a form. -/
theorem InfixForm.isSome_of_followsInfixNot {kind : TokenKind} (h : followsInfixNot kind = true) :
    (InfixForm.ofKind? kind).isSome = true := by
  cases kind with
  | keyword word => cases word <;> cases h <;> rfl
  | _ => cases h

/-- Where `infixHere?` finds an operator stands a `NOT` that belongs to one, or some other token
with a power. -/
theorem infixHere?_cases {least power : Nat} {now next : TokenKind}
    (h : infixHere? least now next = some power) :
    (now = .keyword .NOT ∧ followsInfixNot next = true) ∨
      (now ≠ .keyword .NOT ∧ ∃ q, infixPower? now = some q) := by
  unfold infixHere? at h
  split at h
  · next q hq =>
    by_cases hnot : now = .keyword .NOT
    · refine .inl ⟨hnot, ?_⟩
      cases hfollows : followsInfixNot next with
      | true => rfl
      | false => simp [hnot, hfollows] at h
    · exact .inr ⟨hnot, q, hq⟩
  · cases h

/-! ## Looking first and taking first -/

/-- An infix form where the operator is taken first and looked at then. A token that starts no form
is left to `other`, with the cursor behind it. -/
def infixTaken (limit room : Nat) (left : Expr) (right : Nat) (other : Token → Action Expr) :
    Action Expr := fun c =>
  match (accept Keyword.NOT : Production Bool).run productions limit room _ c with
  | .failed error c₁ => .failed error c₁
  | .done negated c₁ =>
    match InfixForm.ofKind? c₁.current.kind with
    | some form => (infixRest left negated right form).run productions limit room _ c₁.advance
    | none => other c₁.current c₁.advance

variable {limit room least power : Nat} {c c₁ : Cursor} {negated : Bool} {form : InfixForm}

section Form

variable (left : Expr) (right : Nat)
  (haccept : (accept Keyword.NOT).run productions limit room _ c = .done negated c₁)
  (hform : InfixForm.ofKind? (c₁.kindAt 0) = some form)

include haccept hform

/-- Behind the `NOT` it may have, a token that starts `form` is taken, and `infixRest` goes on. -/
theorem run_infixForm : (infixForm left right).run productions limit room _ c =
    (infixRest left negated right form).run productions limit room _ c₁.advance := by
  rw [infixForm, run_bind_of_done haccept, kind, run_bind_of_done (run_look limit room c₁ 0), hform]
  exact run_bind_of_done (run_advance limit room c₁)

/-- With a token that starts `form`, `infixTaken` does not come to `other`. -/
theorem infixTaken_eq (other : Token → Action Expr) : infixTaken limit room left right other c =
    (infixForm left right).run productions limit room _ c := by
  rw [run_infixForm left right haccept hform, infixTaken, haccept]
  dsimp only
  rw [← c₁.kindAt_zero, hform]

end Form

/-- An operator that `infixHere?` finds starts a form, by itself or behind a `NOT`. -/
theorem exists_form_of_infixHere (limit room : Nat)
    (h : infixHere? least (c.kindAt 0) (c.kindAt 1) = some power) :
    ∃ (negated : Bool) (c₁ : Cursor) (form : InfixForm),
      (accept Keyword.NOT).run productions limit room _ c = .done negated c₁ ∧
      InfixForm.ofKind? (c₁.kindAt 0) = some form := by
  rcases infixHere?_cases h with ⟨hnot, hfollows⟩ | ⟨hnot, q, hq⟩
  · obtain ⟨form, hform⟩ := Option.isSome_iff_exists.1
      (InfixForm.isSome_of_followsInfixNot hfollows)
    refine ⟨true, c.advance, form, run_accept_of_eq hnot, ?_⟩
    rw [Cursor.kindAt_advance (by simp [hnot]), hform]
  · obtain ⟨form, hform⟩ := Option.isSome_iff_exists.1 (InfixForm.isSome_of_infixPower? hq hnot)
    exact ⟨false, c, form, run_accept_of_ne hnot, hform⟩

/-- Where `infixHere?` finds an operator, `infixForm` comes to `infixRest`. The error of an infix
form without an operator is therefore never met. -/
theorem run_infixForm_of_infixHere (limit room : Nat) (left : Expr) (right : Nat)
    (h : infixHere? least (c.kindAt 0) (c.kindAt 1) = some power) :
    ∃ (negated : Bool) (c₁ : Cursor) (form : InfixForm),
      (accept Keyword.NOT).run productions limit room _ c = .done negated c₁ ∧
      InfixForm.ofKind? (c₁.kindAt 0) = some form ∧
      (infixForm left right).run productions limit room _ c =
        (infixRest left negated right form).run productions limit room _ c₁.advance := by
  obtain ⟨negated, c₁, form, haccept, hform⟩ := exists_form_of_infixHere limit room h
  exact ⟨negated, c₁, form, haccept, hform, run_infixForm left right haccept hform⟩

/-- Where `infixHere?` finds an operator, it makes no difference whether its token is looked at
first, as in `infixForm`, or taken first, as in `infixTaken`. -/
theorem infixTaken_of_infixHere (left : Expr) (right : Nat) (other : Token → Action Expr)
    (h : infixHere? least (c.kindAt 0) (c.kindAt 1) = some power) :
    infixTaken limit room left right other c =
      (infixForm left right).run productions limit room _ c := by
  obtain ⟨negated, c₁, form, haccept, hform⟩ := exists_form_of_infixHere limit room h
  exact infixTaken_eq left right haccept hform other

end SqlGrammar.Grammar
