import SqlGrammar.Proofs.Lexer.Spelling

/-!
# Symbols that come from a text

A symbol that the lexer has read is more than a kind and a name: the text of a number is a number,
and the name under which a keyword calls a function is a spelling of that keyword. `Symbol.Valid`
collects what a grammar may rely on.
-/

set_option autoImplicit false

namespace SqlGrammar

open Lexer

/-- What is true of every symbol that is read from a text. -/
structure Symbol.Valid (s : Symbol) : Prop where
  ne_eof : s.kind ≠ .eof
  number : ∀ text, s.kind = .number text → IsToken (.number text) text
  parameter : ∀ text, s.kind = .parameter text → IsToken (.parameter text) text
  callee : ∀ name, s.callee? = some name → s.kind = .identifier name ∨
    ∃ word, s.kind = .keyword word ∧ word.namesFunction = true ∧ Keyword.ofText? name = some word

theorem symbolOf_valid {c : Char} {cs lexeme behind : List Char} {kind : TokenKind}
    (h : scan c cs = ⟨.ok kind, lexeme, behind⟩) : (symbolOf kind lexeme).Valid where
  ne_eof heof := by
    have hproper := (scan_proper c cs).2
    rw [h] at hproper
    exact hproper (by rw [← heof, symbolOf_kind])
  number text htext := by
    rw [symbolOf_kind] at htext
    subst htext
    have hspelled : text = String.ofList lexeme := scan_spelledBy h
    refine isNumber_iff_alone.2 ?_
    rw [hspelled, String.toList_ofList, ← hspelled]
    exact alone_of_scan h
  parameter text htext := by
    rw [symbolOf_kind] at htext
    subst htext
    have hspelled : text = String.ofList lexeme := scan_spelledBy h
    refine isParameter_iff_alone.2 ?_
    rw [hspelled, String.toList_ofList, ← hspelled]
    exact alone_of_scan h
  callee name hname := by
    have hspelled := scan_spelledBy h
    rw [symbolOf, Token.symbol_callee?, Token.callee?] at hname
    -- a function is called by an identifier, or by a keyword under the spelling it was read with
    split at hname
    · next own hkind =>
      cases hname
      exact .inl hkind
    · next word hkind =>
      split at hname
      · next hfunction =>
        cases hname
        obtain rfl : kind = .keyword word := hkind
        exact .inr ⟨word, rfl, hfunction, hspelled⟩
      · cases hname
    · cases hname

/-- The symbols of a text are valid. -/
theorem Lexes.valid {cs : List Char} {ss : List Symbol} (h : Lexes cs ss) : ∀ s ∈ ss, s.Valid := by
  induction h with
  | nil => simp
  | cons hgap hscan _ ih =>
    simp only [List.mem_cons, forall_eq_or_imp]
    exact ⟨symbolOf_valid hscan, ih⟩

end SqlGrammar
