import SqlGrammar.Grammar.Statement
import SqlGrammar.Proofs.Parser.Combinators
import SqlGrammar.Proofs.Writing.Legible
import SqlGrammar.Proofs.Writing.Symbols

/-!
# What expressions start with

The first symbol of a written expression tells it apart from all else that may stand in its place:
it starts no query, closes no list and is no keyword of a clause (`Expr.startsExpr`). A `NOT` comes
first only where the whole expression is a negation or binds even more weakly.
-/

set_option autoImplicit false

namespace SqlGrammar

open Lexer

/-! ## Leaves -/

theorem textSymbols_of_alone {kind : TokenKind} {text : String} (h : Alone kind text.toList) :
    textSymbols text = [symbolOf kind text.toList] :=
  textSymbols_of_lexes (Pieces.lexes_of_alone h)

theorem textSymbols_number {text : String} (h : IsToken (.number text) text) :
    textSymbols text = [.leaf (.number text)] :=
  textSymbols_of_alone (isNumber_iff_alone.1 h)

theorem textSymbols_parameter {text : String} (h : IsToken (.parameter text) text) :
    textSymbols text = [.leaf (.parameter text)] :=
  textSymbols_of_alone (isParameter_iff_alone.1 h)

/-- A literal is written as one symbol, which stands for it. -/
theorem Literal.symbols_pieces {value : Literal} (h : value.WellMade) :
    ∃ s, Pieces.symbols value.pieces = [s] ∧ Literal.ofKind? s.kind = some value := by
  cases value with
  | number text =>
    refine ⟨.leaf (.number text), ?_, rfl⟩
    simp [pieces, Piece.symbols, textSymbols_number h]
  | _ => exact ⟨_, rfl, rfl⟩

namespace SignedNumber

variable {text : String}

theorem symbols_bare (h : IsToken (.number text) text) :
    Pieces.symbols (pieces ⟨"" ++ text⟩) = [.leaf (.number text)] := by
  simp [pieces, Piece.symbols, textSymbols_number h]

theorem symbols_minus (h : IsToken (.number text) text) :
    Pieces.symbols (pieces ⟨"-" ++ text⟩) = [.operator .minus, .leaf (.number text)] := by
  have halone := isNumber_iff_alone.1 h
  have hsymbols : textSymbols ("-" ++ text) = [.operator .minus, .leaf (.number text)] := by
    refine textSymbols_of_lexes ?_
    rw [String.toList_append]
    exact lexes_glue (c := '-') .minus (by simp) (by simp)
      (fun _ c hc hminus => head?_ne_minus halone (by simp) (hminus ▸ hc))
      (Pieces.lexes_of_alone halone)
  simp [pieces, Piece.symbols, hsymbols]

theorem symbols_plus (h : IsToken (.number text) text) :
    Pieces.symbols (pieces ⟨"+" ++ text⟩) = [.operator .plus, .leaf (.number text)] := by
  have hsymbols : textSymbols ("+" ++ text) = [.operator .plus, .leaf (.number text)] := by
    refine textSymbols_of_lexes ?_
    rw [String.toList_append]
    exact lexes_glue (c := '+') .plus (by simp) (by simp) (by simp)
      (Pieces.lexes_of_alone (isNumber_iff_alone.1 h))
  simp [pieces, Piece.symbols, hsymbols]

/-- A number with a sign or without is written as one symbol, or as two. -/
theorem symbols_pieces {number : SignedNumber} (h : number.WellMade) :
    ∃ text, (number.text = "" ++ text ∧
        Pieces.symbols number.pieces = [.leaf (.number text)]) ∨
      (number.text = "-" ++ text ∧
        Pieces.symbols number.pieces = [.operator .minus, .leaf (.number text)]) ∨
      (number.text = "+" ++ text ∧
        Pieces.symbols number.pieces = [.operator .plus, .leaf (.number text)]) := by
  obtain ⟨own⟩ := number
  obtain ⟨sign, hsign, text, htext, hnumber⟩ := h
  simp only [List.mem_cons, List.not_mem_nil, or_false] at hsign
  obtain rfl : own = sign ++ text := htext
  rcases hsign with rfl | rfl | rfl
  · exact ⟨text, .inl ⟨rfl, symbols_bare hnumber⟩⟩
  · exact ⟨text, .inr (.inl ⟨rfl, symbols_minus hnumber⟩)⟩
  · exact ⟨text, .inr (.inr ⟨rfl, symbols_plus hnumber⟩)⟩

end SignedNumber

/-- Whether the symbol calls the function of a name. -/
structure Symbol.Calls (s : Symbol) (name : String) : Prop where
  callee : s.callee? = some name
  kind : Grammar.startsCall s.kind = true

/-- The name of a call is written as one symbol, which calls it. -/
theorem symbols_calleePieces (name : String) :
    ∃ s : Symbol, Pieces.symbols (calleePieces name) = [s] ∧ s.Calls name := by
  unfold calleePieces
  split
  · next h =>
    cases hword : Keyword.ofText? name with
    | none => simp [hword] at h
    | some word =>
      have hfunction : word.namesFunction = true := by simpa [hword] using h
      refine ⟨.spelled word name, ?_, ?_, hfunction⟩
      · simp [Piece.symbols, textSymbols_of_alone (alone_spelled hword)]
      · simp [Symbol.spelled, hfunction]
  · exact ⟨.name name, rfl, rfl, rfl⟩

theorem FunctionCall.symbols_pieces (c : FunctionCall) :
    ∃ s ss, Pieces.symbols c.pieces = s :: .operator .leftParen :: ss ∧ s.Calls c.name := by
  obtain ⟨name, a⟩ := c
  obtain ⟨s, hs, hcalls⟩ := symbols_calleePieces name
  refine ⟨s, Pieces.symbols a.pieces ++ [.operator .rightParen], ?_, hcalls⟩
  simp [pieces, hs]

theorem Expr.symbols_parameter {text : String} (h : IsToken (.parameter text) text) :
    (parameter text).symbols = [.leaf (.parameter text)] := by
  simp [symbols, pieces, Piece.symbols, textSymbols_parameter h]

/-! ## First symbols -/

/-- Whether a symbol of this kind can start an expression. -/
def startsExpr : TokenKind → Bool
  | .number _ | .string _ | .blob _ | .identifier _ | .parameter _ => true
  | .keyword .NULL | .keyword .CURRENT_TIME | .keyword .CURRENT_DATE
  | .keyword .CURRENT_TIMESTAMP | .keyword .CAST | .keyword .CASE | .keyword .EXISTS
  | .keyword .NOT => true
  | .keyword word => word.namesFunction
  | .operator .leftParen | .operator .minus | .operator .plus | .operator .bitNot => true
  | _ => false

theorem startsExpr_of_ofKind? {kind : TokenKind} {value : Literal}
    (h : Literal.ofKind? kind = some value) : startsExpr kind = true := by
  unfold Literal.ofKind? at h
  split at h <;> first | rfl | cases h

/-- No prefix operator is a literal. -/
theorem UnaryOp.ofKind?_of_literal {kind : TokenKind} {value : Literal}
    (h : Literal.ofKind? kind = some value) : UnaryOp.ofKind? kind = none := by
  unfold Literal.ofKind? at h
  split at h <;> first | rfl | cases h

theorem startsExpr_of_startsCall {kind : TokenKind} (h : Grammar.startsCall kind = true) :
    startsExpr kind = true := by
  unfold Grammar.startsCall at h
  split at h
  · rfl
  · next word => cases word <;> first | rfl | cases h
  · cases h

/-- The symbols before others are the first. -/
theorem kindAhead_append {ss rest : List Symbol} (h : kindAhead ss 0 ≠ .eof) :
    kindAhead (ss ++ rest) 0 = kindAhead ss 0 := by
  cases ss with
  | nil => exact absurd (kindAhead_nil 0) h
  | cons s ss => rfl

theorem startsExpr_append {ss rest : List Symbol} (h : startsExpr (kindAhead ss 0) = true) :
    startsExpr (kindAhead (ss ++ rest) 0) = true := by
  rw [kindAhead_append]
  · exact h
  · intro heof
    rw [heof] at h
    cases h

/-! ## The leading operand -/

/-- The operand that an expression starts with, if it is an operator behind its first operand. -/
def Expr.leading? : Expr → Option Expr
  | binary left _ _ => some left
  | like subject .. | isNull subject _ | between subject .. => some subject
  | within subject .. | collate subject _ => some subject
  | _ => none

theorem Expr.leading_mem_parts {e x : Expr} (h : e.leading? = some x) :
    Phrase.expr x ∈ Phrase.parts (.expr e) := by
  cases e <;> cases h <;> simp [Phrase.parts]

theorem infixPower?_notSymbols {negated : Bool} {s : Symbol} {ss : List Symbol}
    (h : infixPower? s.kind = some equalityPower) :
    infixPower? (kindAhead (notSymbols negated ++ s :: ss) 0) = some equalityPower := by
  cases negated with
  | true => rfl
  | false => exact h

/-- Behind the leading operand stands the operator. -/
theorem Expr.symbols_leading {e x : Expr} (h : e.leading? = some x) :
    ∃ ss, e.symbols = x.leftSymbols e.power ++ ss ∧
      infixPower? (kindAhead ss 0) = some e.power := by
  cases e with
  | binary left op right => cases h; exact ⟨_, symbols_binary .., by cases op <;> rfl⟩
  | like subject op pattern escape negated =>
    cases h
    exact ⟨_, symbols_like .., infixPower?_notSymbols (by cases op <;> rfl)⟩
  | isNull subject negated => cases h; exact ⟨_, symbols_isNull .., rfl⟩
  | between subject low high negated =>
    cases h
    exact ⟨_, symbols_between .., infixPower?_notSymbols rfl⟩
  | within subject s negated => cases h; exact ⟨_, symbols_within .., infixPower?_notSymbols rfl⟩
  | collate subject collation => cases h; exact ⟨_, symbols_collate .., rfl⟩
  | _ => cases h

section Start

variable {P : Phrase → Prop}

/-- A left operand starts like an expression if the operand itself does. -/
theorem Expr.startsExpr_leftSymbols {e : Expr} (power : Nat)
    (h : startsExpr (kindAhead e.symbols 0) = true) :
    startsExpr (kindAhead (e.leftSymbols power) 0) = true := by
  rw [leftSymbols_eq]
  split
  · exact h
  · rw [symbols_paren]
    rfl

/-- The first symbol of a written expression. -/
theorem Phrase.startsExpr {p : Phrase} (h : p.WellFormed P) :
    ∀ e, p = .expr e → startsExpr (kindAhead e.symbols 0) = true := by
  induction h with
  | @intro p hself hparts ih =>
    rintro e rfl
    -- a form behind an operand starts with the operand, or with the parenthesis around it
    have hleading : ∀ x, e.leading? = some x →
        SqlGrammar.startsExpr (kindAhead e.symbols 0) = true := by
      intro x hx
      obtain ⟨ss, hsymbols, -⟩ := Expr.symbols_leading hx
      rw [hsymbols]
      exact startsExpr_append
        (Expr.startsExpr_leftSymbols _ (ih _ (Expr.leading_mem_parts hx) _ rfl))
    cases e with
    | literal value =>
      obtain ⟨s, hs, hkind⟩ := Literal.symbols_pieces hself.1
      rw [Expr.symbols, Expr.pieces, hs]
      exact startsExpr_of_ofKind? hkind
    | parameter text =>
      rw [Expr.symbols_parameter hself.1]
      rfl
    | column schema table own => cases schema <;> cases table <;> rfl
    | unary op operand =>
      rw [Expr.symbols_unary]
      cases op <;> rfl
    | call c =>
      obtain ⟨s, ss, hs, hcalls⟩ := c.symbols_pieces
      rw [Expr.symbols, Expr.pieces, hs]
      exact startsExpr_of_startsCall hcalls.kind
    | cast | caseWhen | existsRow | subquery | paren => rfl
    | _ => exact hleading _ rfl

theorem Expr.startsExpr {e : Expr} (h : e.WellFormed P) (rest : List Symbol) :
    startsExpr (kindAhead (e.symbols ++ rest) 0) = true :=
  startsExpr_append (Phrase.startsExpr h e rfl)

/-! ## What is no star of a table -/

/-- Whether the symbols start with a name, a dot and a star, which stand for the columns of a
table. -/
def Grammar.startsAllOf (ss : List Symbol) : Bool :=
  (kindAhead ss 0).isIdentifier && Parser.terminalsAhead ss 1 [Operator.dot, Operator.star]

theorem Phrase.not_startsAllOf {p : Phrase} (h : p.WellFormed P) :
    ∀ e, p = .expr e → ∀ rest, kindAhead rest 0 ≠ .operator .dot →
      Grammar.startsAllOf (e.symbols ++ rest) = false := by
  induction h with
  | @intro p hself hparts ih =>
    rintro e rfl rest hdot
    have hleading : ∀ x, e.leading? = some x →
        Grammar.startsAllOf (e.symbols ++ rest) = false := by
      intro x hx
      obtain ⟨ss, hsymbols, hpower⟩ := Expr.symbols_leading hx
      -- behind the leading operand stands an operator, which is no dot
      have hahead : kindAhead (ss ++ rest) 0 ≠ .operator .dot := by
        have heof : kindAhead ss 0 ≠ .eof := by
          intro heof
          rw [heof] at hpower
          cases hpower
        have hfirst : kindAhead (ss ++ rest) 0 = kindAhead ss 0 := kindAhead_append heof
        intro heq
        rw [← hfirst, heq] at hpower
        cases hpower
      rw [hsymbols, List.append_assoc, Expr.leftSymbols_eq]
      split
      · exact ih _ (Expr.leading_mem_parts hx) _ rfl _ hahead
      · rw [Expr.symbols_paren]
        rfl
    -- behind a single symbol stands no dot
    have hsingle : ∀ s : Symbol, Grammar.startsAllOf (s :: rest) = false := by
      intro s
      simp [Grammar.startsAllOf, Parser.terminalsAhead, Terminal.accepts, Terminal.kind, hdot]
    cases e with
    | literal value =>
      obtain ⟨s, hs, -⟩ := Literal.symbols_pieces hself.1
      rw [Expr.symbols, Expr.pieces, hs]
      exact hsingle s
    | parameter text =>
      rw [Expr.symbols_parameter hself.1]
      exact hsingle _
    | column schema table own =>
      cases table with
      | some table => cases schema <;> rfl
      | none =>
        cases schema with
        | none => exact hsingle _
        | some schema => exact absurd (hself.1 rfl) (by simp)
    | unary op operand =>
      rw [Expr.symbols_unary]
      cases op <;> rfl
    | call c =>
      obtain ⟨s, ss, hs, -⟩ := c.symbols_pieces
      rw [Expr.symbols, Expr.pieces, hs]
      simp [Grammar.startsAllOf, Parser.terminalsAhead, Terminal.accepts, Terminal.kind]
    | cast | caseWhen | existsRow | subquery | paren => rfl
    | _ => exact hleading _ rfl

/-! ## A first `NOT` -/

/-- What a first `NOT` says about an expression: it belongs to the whole of it, or the whole binds
more weakly than a negation. -/
def Expr.NotFirst (e : Expr) : Prop :=
  kindAhead e.symbols 0 = .keyword .NOT → e.isNegated = true ∨ e.power < negationPower

theorem Expr.tailPower_of_isNegated {e : Expr} (h : e.isNegated = true) :
    e.tailPower ≤ negationPower := by
  cases e with
  | unary op operand =>
    cases op with
    | not => exact Nat.min_le_left _ _
    | _ => cases h
  | _ => cases h

/-- A left operand that starts with a `NOT` is held by a weak operator only. -/
theorem Expr.power_lt_of_not_first {x : Expr} {power : Nat} {rest : List Symbol}
    (hstart : SqlGrammar.startsExpr (kindAhead x.symbols 0) = true) (hx : x.NotFirst)
    (h : kindAhead (x.leftSymbols power ++ rest) 0 = .keyword .NOT) : power < negationPower := by
  rw [leftSymbols_eq] at h
  split at h
  -- without parentheses the `NOT` is the operand's own
  · next hfit =>
    simp only [fitsLeft, Bool.and_eq_true, decide_eq_true_eq] at hfit
    have hne : kindAhead x.symbols 0 ≠ .eof := by
      intro heof
      rw [heof] at hstart
      cases hstart
    rw [kindAhead_append hne] at h
    rcases hx h with hneg | hweak
    · have := tailPower_of_isNegated hneg
      omega
    · omega
  · rw [symbols_paren] at h
    cases h

theorem Phrase.notFirst {p : Phrase} (h : p.WellFormed P) : ∀ e, p = .expr e → e.NotFirst := by
  induction h with
  | @intro p hself hparts ih =>
    rintro e rfl hnot
    -- a leading operand that starts with a `NOT` is a negation, or binds more weakly than one
    have hleading : ∀ x, e.leading? = some x → e.power < negationPower := by
      intro x hx
      obtain ⟨ss, hsymbols, -⟩ := Expr.symbols_leading hx
      have hpart := Expr.leading_mem_parts hx
      rw [hsymbols] at hnot
      exact Expr.power_lt_of_not_first (Phrase.startsExpr (hparts _ hpart) _ rfl)
        (ih _ hpart _ rfl) hnot
    cases e with
    | literal value =>
      obtain ⟨s, hs, hkind⟩ := Literal.symbols_pieces hself.1
      rw [Expr.symbols, Expr.pieces, hs, kindAhead_cons_zero] at hnot
      rw [hnot] at hkind
      cases hkind
    | parameter text =>
      rw [Expr.symbols_parameter hself.1] at hnot
      cases hnot
    | column schema table own => cases schema <;> cases table <;> cases hnot
    | unary op operand =>
      rw [Expr.symbols_unary] at hnot
      cases op with
      | not => exact .inl rfl
      | _ => cases hnot
    | call c =>
      obtain ⟨s, ss, hs, hcalls⟩ := c.symbols_pieces
      rw [Expr.symbols, Expr.pieces, hs, kindAhead_cons_zero] at hnot
      have hkind := hcalls.kind
      rw [hnot] at hkind
      cases hkind
    | cast | caseWhen | existsRow | subquery | paren => cases hnot
    | _ => exact .inr (hleading _ rfl)

/-- An operand that is written without parentheses where more than a negation is demanded starts
with a `NOT` only if it is a negation. -/
theorem Expr.isNegated_of_not_first {e : Expr} {least : Nat} {rest : List Symbol}
    (h : e.WellFormed P) (hleast : negationPower ≤ least)
    (hnot : kindAhead (e.rightSymbols least ++ rest) 0 = .keyword .NOT) : e.isNegated = true := by
  rw [rightSymbols_eq] at hnot
  split at hnot
  · next hfit =>
    have hne : kindAhead e.symbols 0 ≠ .eof := by
      intro heof
      have hstart := Phrase.startsExpr h e rfl
      rw [heof] at hstart
      cases hstart
    rw [kindAhead_append hne] at hnot
    rcases Phrase.notFirst h e rfl hnot with hneg | hweak
    · exact hneg
    · simp only [fitsRight, Bool.or_eq_true, decide_eq_true_eq] at hfit
      -- an operand that fits is one behind a prefix operator, or binds strongly enough
      rcases hfit with hprefixed | hpower
      · cases e with
        | unary op operand =>
          cases op with
          | not => rfl
          | _ => exact absurd hweak (by decide : ¬ signPower < negationPower)
        | _ => cases hprefixed
      · omega
  · rw [symbols_paren] at hnot
    cases hnot

end Start

end SqlGrammar
