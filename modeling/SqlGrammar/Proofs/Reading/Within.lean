import SqlGrammar.Proofs.Parser.Within
import SqlGrammar.Proofs.Reading.Operators

/-!
# Reading operators with few levels

What the loop over infix operators and its operands read, with the number of levels named. Only the
operands on the right of operators cost levels: neither the loop itself does, nor the operand it
starts with.
-/

set_option autoImplicit false

namespace SqlGrammar.Grammar

open SqlGrammar.Parser

variable {need least : Nat} {left e v : Expr} {input mid rest : List Symbol}

/-! ## The loop over operators -/

/-- The loop stops where `infixHere?` finds no operator. -/
theorem readsWithin_extend_none
    (h : infixHere? least (kindAhead input 0) (kindAhead input 1) = none) :
    ReadsWithin productions need (extend least left) input none input := by
  refine readsWithin_bind (readsWithin_of_flat (flat_look 0) (reads_look 0 _)) ?_
  refine readsWithin_bind (readsWithin_of_flat (flat_look 1) (reads_look 1 _)) ?_
  rw [h]
  exact readsWithin_pure none input

/-- The loop goes on with the form that stands where `infixHere?` finds an operator. -/
theorem readsWithin_extend_some {q : Nat}
    (h : infixHere? least (kindAhead input 0) (kindAhead input 1) = some q)
    (hform : ReadsWithin productions need (infixForm left (q + 1)) input e mid) :
    ReadsWithin productions need (extend least left) input (some e) mid := by
  refine readsWithin_bind (readsWithin_of_flat (flat_look 0) (reads_look 0 _)) ?_
  refine readsWithin_bind (readsWithin_of_flat (flat_look 1) (reads_look 1 _)) ?_
  rw [h]
  exact readsWithin_bind hform (readsWithin_pure _ _)

/-- An infix form that no `NOT` stands before. -/
theorem readsWithin_infixForm {right : Nat} {s : Symbol} (form : InfixForm)
    (hform : InfixForm.ofKind? s.kind = some form) (hnot : s.kind ≠ .keyword .NOT)
    (h : ReadsWithin productions need (infixRest left false right form) input e mid) :
    ReadsWithin productions need (infixForm left right) (s :: input) e mid := by
  refine readsWithin_bind (readsWithin_of_flat (flat_accept _) (reads_accept_false hnot)) ?_
  refine readsWithin_bind (readsWithin_of_flat flat_kind (reads_kind _)) ?_
  rw [kindAhead_cons_zero, hform]
  exact readsWithin_bind (readsWithin_of_flat flat_advance
    (reads_advance (TokenKind.ne_eof_of_some rfl hform))) h

/-- Without a prefix operator, a primary expression and then the loop. -/
theorem readsWithin_operand (hkind : UnaryOp.ofKind? (kindAhead input 0) = none)
    (hprimary : ReadsWithin productions need primary input e mid)
    (hloop : ReadsWithin productions need (iterate (extend least) e) mid v rest) :
    ReadsWithin productions need (operand least) input v rest := by
  have hhead : ReadsWithin productions need operandHead input e mid := by
    refine readsWithin_bind (readsWithin_of_flat flat_kind (reads_kind input)) ?_
    rw [hkind]
    exact hprimary
  exact readsWithin_bind hhead hloop

/-! ## Single tokens -/

/-- A literal takes no levels, and neither does a name. -/
theorem readsWithin_literal {value : Literal} {s : Symbol}
    (h : Literal.ofKind? s.kind = some value) :
    ReadsWithin productions need primary (s :: rest) (.literal value) rest := by
  refine readsWithin_bind (readsWithin_of_flat flat_kind (reads_kind _)) ?_
  rw [kindAhead_cons_zero, h]
  exact readsWithin_bind (readsWithin_of_flat flat_advance
    (reads_advance (TokenKind.ne_eof_of_some rfl h))) (readsWithin_pure _ _)

theorem readsWithin_number (text : String) :
    ReadsWithin productions need primary (.leaf (.number text) :: rest)
      (.literal (.number text)) rest :=
  readsWithin_literal rfl

theorem flat_columnName : columnName.Flat := by
  simp [columnName]

theorem readsWithin_name {own : String} (hparen : kindAhead rest 0 ≠ .operator .leftParen)
    (hdot : kindAhead rest 0 ≠ .operator .dot) :
    ReadsWithin productions need primary (.name own :: rest) (.column none none own) rest := by
  have hnext : Terminal.accepts Operator.leftParen (kindAhead (.name own :: rest) 1) = false := by
    rw [Bool.eq_false_iff, Ne, Terminal.accepts_iff]
    exact hparen
  have hisNext := reads_isNext (P := productions) Operator.leftParen (.name own :: rest)
  rw [hnext] at hisNext
  have hcolumn : Reads columnName (.name own :: rest) (.column none none own) rest :=
    reads_bind (reads_identifier own rest) (reads_bind (reads_accept_false hdot) (reads_pure _ _))
  exact readsWithin_bind (readsWithin_of_flat flat_kind (reads_kind _))
    (readsWithin_bind (readsWithin_of_flat (flat_isNext _) hisNext)
      (readsWithin_of_flat flat_columnName hcolumn))

end SqlGrammar.Grammar
