import SqlGrammar.Grammar.Statement
import SqlGrammar.Proofs.Parser.PromptForms

/-!
# Productions that are quiet before their first token

An expression names no terminal where none of it has been read: too many terminals start one. Other
productions name the word that they start with, but are quiet where that word stands.
-/

set_option autoImplicit false

namespace SqlGrammar

open SqlGrammar.Parser

/-- The words of which one starts every tree of the rule, if there are such words. A query is also
told by the word for common tables, and then refused. -/
def Rule.firstWords : Rule → List Keyword
  | select => [.SELECT, .WITH]
  | insert => [.INSERT, .REPLACE]
  | update => [.UPDATE]
  | delete => [.DELETE]
  | createTable | createIndex | createView | createTrigger => [.CREATE]
  | drop => [.DROP]
  | alter => [.ALTER]
  | foreignKey => [.REFERENCES]
  | _ => []

namespace Grammar

variable {limit room : Nat} {c : Cursor}

theorem quietAt_identifier : QuietAt productions limit room identifier c := by
  cases hname : (c.kindAt 0).isIdentifier with
  | true =>
    obtain ⟨own, hkind⟩ := exists_name_of_isIdentifier hname
    refine quietAt_of_moved (run_identifier_of_kind hkind) (Cursor.remaining_advance_lt ?_)
    rw [hkind]
    nofun
  | false =>
    exact quietAt_of_nameless (run_identifier_of_not hname)
      (Terminal.named_description .identifier)

/-! ## Expressions -/

theorem quietAt_literal : QuietAt productions limit room literal c := by
  apply quietAt_look
  split
  · next value h => exact (quietAt_advance (TokenKind.ne_eof_of_some rfl h)).bind
  · exact quietAt_unexpected (Terminal.named_description .literal)

theorem quietAt_functionCall : QuietAt productions limit room functionCall c := by
  apply quietAt_of_done (run_callee limit room c)
  split
  · next name h =>
    have hne : c.kindAt 0 ≠ .eof := by
      intro heof
      rw [c.kindAt_zero] at heof
      rw [Token.callee?, heof] at h
      cases h
    exact (quietAt_advance hne).bind
  · exact quietAt_unexpected (Terminal.named_description .functionName)

theorem quietAt_columnName : QuietAt productions limit room columnName c :=
  quietAt_identifier.bind

/-- The error of `primary` names no terminal: an expression is none. -/
theorem quietAt_primary : QuietAt productions limit room primary c := by
  apply quietAt_look
  split
  · next value h => exact (quietAt_advance (TokenKind.ne_eof_of_some rfl h)).bind
  · apply quietAt_isNext
    split
    · exact (quietAt_goal (g := Goal.rule .functionCall) fun _ => quietAt_functionCall).bind
    · split
      · next text h => exact (quietAt_advance (by simp [h])).bind
      · exact quietAt_columnName
      · next h => exact (quietAt_advance (by simp [h])).bind
      · next h => exact (quietAt_expect h).bind
      · next h => exact (quietAt_advance (by simp [h])).bind
      · next h => exact (quietAt_expect h).bind
      · exact quietAt_unexpected (Terminal.named_description .expression)

/-- A prefix operator moves; otherwise `primary` is quiet. -/
theorem quietAt_operandHead : QuietAt productions limit room operandHead c := by
  apply quietAt_look
  split
  · next op h => exact (quietAt_advance (TokenKind.ne_eof_of_some rfl h)).bind
  · exact quietAt_primary

theorem quietAt_operandOf (least : Nat) :
    QuietAt productions limit room (operandOf least) c :=
  quietAt_goal fun _ => quietAt_operandHead.bind

/-- An expression is the goal of an operand. -/
theorem quietAt_expr : QuietAt productions limit room Rule.expr.parse c :=
  quietAt_goal fun _ => quietAt_operandOf 0

/-- One or more expressions. -/
theorem quietAt_exprs : QuietAt productions limit room (commaSeparated Rule.expr.parse) c :=
  quietAt_expr.bind

/-! ## Definitions -/

/-- The error of a number names no terminal, with its sign or without. -/
theorem quietAt_signedNumber : QuietAt productions limit room signedNumber c := by
  by_cases hminus : c.kindAt 0 = .operator .minus
  · exact (quietAt_accept (t := Operator.minus) hminus).bind.bind
  by_cases hplus : c.kindAt 0 = .operator .plus
  · have hsign : QuietAt productions limit room sign c :=
      quietAt_of_done (run_accept_of_ne hminus) (quietAt_accept (t := Operator.plus) hplus).bind
    exact hsign.bind
  · -- without a sign the number itself is the first token
    have hsign : sign.run productions limit room _ c = .done "" c := by
      rw [sign, run_bind_of_done (run_accept_of_ne hminus), if_neg Bool.false_ne_true,
        run_bind_of_done (run_accept_of_ne hplus), if_neg Bool.false_ne_true]
      exact run_pure limit room c ""
    apply quietAt_of_done hsign
    apply quietAt_look
    split
    · next text h => exact (quietAt_advance (by simp [h])).bind
    · exact quietAt_unexpected (Terminal.named_description .number)

theorem quietAt_typeName : QuietAt productions limit room typeName c :=
  quietAt_identifier.bind

/-! ## Statements -/

/-- A query is quiet where its first word is ahead, or one that it refuses. -/
theorem quietAt_select (h : c.kindAt 0 = .keyword .SELECT ∨ c.kindAt 0 = .keyword .WITH) :
    QuietAt productions limit room select c := by
  apply quietAt_isAt
  split
  · exact quietAt_unsupported _
  · next hwith =>
    refine (quietAt_expect (h.resolve_right fun heq => hwith ?_)).bind
    exact Terminal.accepts_iff.2 heq

/-- An insertion is quiet where one of its first words is ahead. -/
theorem quietAt_insert (h : c.kindAt 0 = .keyword .INSERT ∨ c.kindAt 0 = .keyword .REPLACE) :
    QuietAt productions limit room insert c := by
  apply QuietAt.bind
  by_cases hreplace : c.kindAt 0 = .keyword .REPLACE
  · exact (quietAt_accept (t := Keyword.REPLACE) hreplace).bind
  · exact quietAt_of_done (run_accept_of_ne (t := Keyword.REPLACE) hreplace)
      (quietAt_expect (t := Keyword.INSERT) (h.resolve_right hreplace)).bind

theorem quietAt_createHead (object : Keyword) (h : c.kindAt 0 = .keyword .CREATE) :
    QuietAt productions limit room (createHead object) c :=
  (quietAt_expect (t := Keyword.CREATE) h).bind

/-- Where one of its first words stands, a rule is quiet. -/
theorem quietAt_parse_of_mem {r : Rule} {word : Keyword} (hword : word ∈ r.firstWords)
    (hkind : c.kindAt 0 = .keyword word) : QuietAt productions limit room r.parse c := by
  refine quietAt_goal (g := Goal.rule r) fun room => ?_
  cases r with
  | select =>
    simp only [Rule.firstWords, List.mem_cons, List.not_mem_nil, or_false] at hword
    rcases hword with rfl | rfl
    · exact quietAt_select (.inl hkind)
    · exact quietAt_select (.inr hkind)
  | insert =>
    simp only [Rule.firstWords, List.mem_cons, List.not_mem_nil, or_false] at hword
    rcases hword with rfl | rfl
    · exact quietAt_insert (.inl hkind)
    · exact quietAt_insert (.inr hkind)
  | update =>
    rw [List.mem_singleton.1 hword] at hkind
    exact (quietAt_expect (t := Keyword.UPDATE) hkind).bind
  | delete =>
    rw [List.mem_singleton.1 hword] at hkind
    exact (quietAt_expectAll (t := Keyword.DELETE) hkind).bind
  | createTable =>
    rw [List.mem_singleton.1 hword] at hkind
    exact (quietAt_createHead _ hkind).bind
  | createIndex =>
    rw [List.mem_singleton.1 hword] at hkind
    exact (quietAt_expect (t := Keyword.CREATE) hkind).bind
  | createView =>
    rw [List.mem_singleton.1 hword] at hkind
    exact (quietAt_createHead _ hkind).bind
  | createTrigger =>
    rw [List.mem_singleton.1 hword] at hkind
    exact (quietAt_createHead _ hkind).bind
  | drop =>
    rw [List.mem_singleton.1 hword] at hkind
    exact (quietAt_expect (t := Keyword.DROP) hkind).bind
  | alter =>
    rw [List.mem_singleton.1 hword] at hkind
    exact (quietAt_expectAll (t := Keyword.ALTER) hkind).bind
  | foreignKey =>
    rw [List.mem_singleton.1 hword] at hkind
    exact (quietAt_expect (t := Keyword.REFERENCES) hkind).bind
  | _ => cases hword

end Grammar

end SqlGrammar
