import SqlGrammar.Proofs.Reading.Leaves

/-!
# Reading expressions and queries back

Every well-formed phrase in which no operator is ambiguous is read back from the symbols it is
written with, with the parentheses it is written with and otherwise unchanged (`Phrase.readsBack`).
The proof goes from the parts of a phrase to the phrase, one case for each form that a phrase can
have.
-/

set_option autoImplicit false

namespace SqlGrammar

open Lexer SqlGrammar.Parser Grammar

/-! ## Expressions without operators -/

namespace Expr

variable {rest : List Symbol}

/-- What is read as a primary expression is read back as the first part of an operand. -/
theorem readsBack_of_primary {e : Expr}
    (hkind : ∀ rest, UnaryOp.ofKind? (kindAhead (e.symbols ++ rest) 0) = none)
    (h : ∀ rest, e.Follows rest → Reads primary (e.symbols ++ rest) (e.regroup .written) rest) :
    e.ReadsBack :=
  fun _ rest _ _ _ hfollows hloop =>
    reads_operand_of_primary (hkind rest) (h rest hfollows) hloop

theorem reads_primary_literal {value : Literal} {s : Symbol}
    (h : Literal.ofKind? s.kind = some value) :
    Reads primary (s :: rest) (.literal value) rest := by
  refine reads_bind (reads_kind _) ?_
  rw [kindAhead_cons_zero, h]
  exact reads_bind (reads_advance (TokenKind.ne_eof_of_some rfl h)) (reads_pure _ _)

theorem readsBack_literal {value : Literal} (h : value.WellMade) : (literal value).ReadsBack := by
  obtain ⟨s, hs, hkind⟩ := Literal.symbols_pieces h
  have hsymbols : (literal value).symbols = [s] := hs
  refine readsBack_of_primary (fun rest => ?_) fun rest _ => ?_
  · rw [hsymbols, List.cons_append, kindAhead_cons_zero]
    exact UnaryOp.ofKind?_of_literal hkind
  · rw [hsymbols]
    exact reads_primary_literal hkind

theorem readsBack_parameter {text : String} (h : IsToken (.parameter text) text) :
    (parameter text).ReadsBack := by
  have hsymbols : (parameter text).symbols = [.leaf (.parameter text)] := by
    simp [symbols, pieces, Piece.symbols, textSymbols_parameter h]
  rw [ReadsBack, hsymbols]
  refine fun least rest v r _ _ hloop => reads_operand_of_primary rfl ?_ hloop
  exact reads_bind (reads_kind _) (reads_bind (reads_isNext _ _)
    (reads_bind (reads_advance (s := .leaf (.parameter text)) (by simp)) (reads_pure _ _)))

/-- A name that is not followed by a parenthesis is a column. -/
theorem reads_primary_name {own : String} {ss : List Symbol} {e : Expr}
    (hparen : kindAhead ss 0 ≠ .operator .leftParen)
    (h : Reads columnName (.name own :: ss) e rest) :
    Reads primary (.name own :: ss) e rest := by
  have hnext : Terminal.accepts Operator.leftParen (kindAhead (.name own :: ss) 1) = false := by
    rw [Bool.eq_false_iff, Ne, Terminal.accepts_iff]
    exact hparen
  have hread := reads_isNext (P := productions) Operator.leftParen (.name own :: ss)
  rw [hnext] at hread
  exact reads_bind (reads_kind _) (reads_bind hread h)

theorem readsBack_column {schema table : Option String} {own : String}
    (h : schema.isSome = true → table.isSome = true) : (column schema table own).ReadsBack := by
  refine readsBack_of_primary (fun rest => by cases schema <;> cases table <;> rfl)
    fun rest hfollows => ?_
  -- the last name alone stands next to what follows
  cases table with
  | none =>
    cases schema with
    | some schema => exact absurd (h rfl) (by simp)
    | none =>
      exact reads_primary_name hfollows.call (reads_bind (reads_identifier own rest)
        (reads_bind (reads_accept_false hfollows.dot) (reads_pure _ _)))
  | some table =>
    cases schema with
    | none =>
      exact reads_primary_name (by simp) (reads_bind (reads_identifier table _)
        (reads_bind (reads_accept_true rfl) (reads_bind (reads_identifier own rest)
          (reads_bind (reads_accept_false hfollows.dot) (reads_pure _ _)))))
    | some schema =>
      exact reads_primary_name (by simp) (reads_bind (reads_identifier schema _)
        (reads_bind (reads_accept_true rfl) (reads_bind (reads_identifier table _)
          (reads_bind (reads_accept_true rfl) (reads_bind (reads_identifier own rest)
            (reads_pure _ _))))))

/-- What calls a function, before a parenthesis, is a call. -/
theorem reads_primary_call {s : Symbol} {ss : List Symbol} {c : FunctionCall} {name : String}
    (hs : s.Calls name) (hparen : kindAhead ss 0 = .operator .leftParen)
    (h : Reads functionCall (s :: ss) c rest) : Reads primary (s :: ss) (.call c) rest := by
  -- a literal would have been taken before the call was thought of
  have hliteral : Literal.ofKind? s.kind = none := by
    have hkind := hs.kind
    unfold startsCall at hkind
    split at hkind
    · next own heq => rw [heq]; rfl
    · next word heq => rw [heq]; cases word <;> first | rfl | cases hkind
    · cases hkind
  refine reads_bind (reads_kind _) ?_
  rw [kindAhead_cons_zero, hliteral]
  have hread := reads_isNext (P := productions) Operator.leftParen (s :: ss)
  rw [kindAhead_cons_one, hparen] at hread
  refine reads_bind hread ?_
  rw [hs.kind]
  exact reads_bind (reads_goal (show Reads functionCall _ _ _ from h)) (reads_pure _ _)

end Expr

/-! ## What it is for a phrase to be read back -/

/-- Whether a symbol of this kind ends every query before it. -/
def Grammar.endsQuery (kind : TokenKind) : Bool :=
  [TokenKind.eof, .operator .rightParen, .operator .semicolon].contains kind

namespace Phrase

/-- The phrase is read back from the symbols it is written with, in front of what ends it. -/
def ReadsBack : Phrase → Prop
  | expr e => e.ReadsBack
  | call c => ∀ rest, Reads functionCall (Pieces.symbols c.pieces ++ rest) (c.regroup .written) rest
  | args a => ∀ rest, Reads callArgs (Pieces.symbols a.pieces ++ .operator .rightParen :: rest)
      (a.regroup .written) (.operator .rightParen :: rest)
  | set s => ∀ rest, Reads inSet (Pieces.symbols s.pieces ++ .operator .rightParen :: rest)
      (s.regroup .written) (.operator .rightParen :: rest)
  | branch b => ∀ rest, endsExpr (kindAhead rest 0) = true →
      Reads whenBranch (b.condition.symbols ++ .keyword .THEN :: (b.result.symbols ++ rest))
        (b.regroup .written) rest
  | column c => ∀ rest, endsItem (kindAhead rest 0) = true →
      Reads resultColumn (Pieces.symbols c.pieces ++ rest) (c.regroup .written) rest
  | term t => ∀ rest, endsItem (kindAhead rest 0) = true →
      Reads orderingTerm (Pieces.symbols t.pieces ++ rest) (t.regroup .written) rest
  | limit l => ∀ rest, endsQuery (kindAhead rest 0) = true →
      Reads limitClause (Pieces.symbols l.pieces ++ rest) (l.regroup .written) rest
  | query q => ∀ rest, endsQuery (kindAhead rest 0) = true →
      Reads select (Pieces.symbols q.pieces ++ rest) (q.regroup .written) rest

end Phrase

end SqlGrammar
