import SqlGrammar.Proofs.Grammar.InfixForm
import SqlGrammar.Proofs.Lexer.Ordered

/-!
# Errors and commitment

A production of the grammar that fails among the tokens of a text does so with an error at the
token under the cursor. Whether it has taken tokens before is judged by the offset of that error
alone; as the tokens stand in order, this judgement is right, so that a choice or a list turns to
something else exactly where the production has taken no token and has met an unexpected one
(`Rule.failure_at_cursor`).

All errors of the grammar are made at the cursor. Where the loop over operators goes on, it would
make no difference to take the token of the operator before it is looked at, with an error at that
token if it starts no form: it always starts one (`infixTaken_of_infixHere`).
-/

set_option autoImplicit false

namespace SqlGrammar

/-- The error says that some other token was expected. -/
def ParseError.IsUnexpected (error : ParseError) : Prop :=
  ∃ expected found span, error = .unexpected expected found span

theorem ParseError.isMismatchAt_iff (error : ParseError) (offset : Nat) :
    error.isMismatchAt offset = true ↔ error.IsUnexpected ∧ error.span.start = offset := by
  cases error with
  | unexpected expected found span =>
    exact beq_iff_eq.trans ⟨fun h => ⟨⟨expected, found, span, rfl⟩, h⟩, fun h => h.2⟩
  | lexical message span => exact ⟨nofun, fun ⟨⟨_, _, _, h⟩, _⟩ => nomatch h⟩
  | unsupported construct span => exact ⟨nofun, fun ⟨⟨_, _, _, h⟩, _⟩ => nomatch h⟩
  | tooDeep limit span => exact ⟨nofun, fun ⟨⟨_, _, _, h⟩, _⟩ => nomatch h⟩

theorem Cause.isUnexpected_iff (cause : Cause) (t : Token) :
    cause.isUnexpected = true ↔ (cause.errorAt t).IsUnexpected := by
  cases cause with
  | unexpected expected => exact ⟨fun _ => ⟨expected, t.kind, t.span, rfl⟩, fun _ => rfl⟩
  | unsupported construct => simp [isUnexpected, errorAt, ParseError.IsUnexpected]
  | tooDeep limit => simp [isUnexpected, errorAt, ParseError.IsUnexpected]

/-! ## Attempts -/

section Attempts

variable {α : Type} {action : Action α} {c c' : Cursor} {error : ParseError}

/-- Among tokens in order, an error is taken for one that came before any token was taken exactly
where it is an unexpected token and no token was taken. -/
theorem Action.Located.isMismatchAt_iff (h : action.Located) (hordered : c.Ordered)
    (hfail : action c = .failed error c') :
    error.isMismatchAt c.current.span.start = true ↔ error.IsUnexpected ∧ c' = c := by
  have hreply := h c
  rw [hfail] at hreply
  obtain ⟨hlead, cause, rfl⟩ := hreply
  rw [Cause.isMismatchAt_errorAt, Bool.and_eq_true, beq_iff_eq, hordered.start_eq_iff hlead,
    cause.isUnexpected_iff c'.current]

theorem Action.attempt_of_mismatch (hfail : action c = .failed error c')
    (hmismatch : error.isMismatchAt c.current.span.start = true) :
    Action.attempt action c = .done (.error error.expected) c := by
  simp only [Action.attempt, hfail, hmismatch, if_true]

theorem Action.attempt_of_committed (hfail : action c = .failed error c')
    (hcommitted : error.isMismatchAt c.current.span.start = false) :
    Action.attempt action c = .failed error c' := by
  simp only [Action.attempt, hfail, hcommitted, Bool.false_eq_true, if_false]

variable {G : Type} {Tree : G → Type} {P : Productions Tree} {limit room : Nat}
  {p : Parser Tree α}

/-- A choice is the first of its parsers where that gives a value. -/
theorem Parser.run_firstOf_of_done {v : α} (h : p.run P limit room α c = .done v c')
    (known : List String) (ps : List (Parser Tree α)) :
    (firstOf known (p :: ps)).run P limit room α c = .done v c' := by
  have hattempt : (attempt p).run P limit room _ c = .done (.ok v) c' := by
    rw [run_attempt, Action.attempt, h]
  rw [firstOf, run_bind_of_done hattempt]
  exact run_pure limit room c' v

/-- A choice turns to what is left of it behind a parser that has taken no token. -/
theorem Parser.run_firstOf_of_mismatch (hfail : p.run P limit room α c = .failed error c')
    (hmismatch : error.isMismatchAt c.current.span.start = true) (known : List String)
    (ps : List (Parser Tree α)) :
    (firstOf known (p :: ps)).run P limit room α c =
      (firstOf (mergeExpected known error.expected) ps).run P limit room α c := by
  have hattempt : (attempt p).run P limit room _ c = .done (.error error.expected) c := by
    rw [run_attempt]
    exact Action.attempt_of_mismatch hfail hmismatch
  rw [firstOf]
  exact run_bind_of_done hattempt

theorem Parser.run_firstOf_of_committed (hfail : p.run P limit room α c = .failed error c')
    (hcommitted : error.isMismatchAt c.current.span.start = false) (known : List String)
    (ps : List (Parser Tree α)) :
    (firstOf known (p :: ps)).run P limit room α c = .failed error c' := by
  have hattempt : (attempt p).run P limit room _ c = .failed error c' := by
    rw [run_attempt]
    exact Action.attempt_of_committed hfail hcommitted
  rw [firstOf]
  exact run_bind_of_failed hattempt

end Attempts

/-! ## Rules -/

/-- A rule that fails at a cursor among the tokens of a text fails with an error at the token under
the cursor at which it stops. `ParseError.isMismatchAt` takes the error for one before the first
token of the rule exactly where it is an unexpected token and no token was taken; `firstOf` and
`listInto` turn to something else in that case, and in no other. -/
theorem Rule.failure_at_cursor {text : String} {start c c' : Cursor} {error : ParseError}
    (hstart : Cursor.ofText text = .ok start) (hc : start.LeadsTo c) (r : Rule)
    (limit room : Nat)
    (hfail : r.parse.run Grammar.productions limit room _ c = .failed error c') :
    (c.LeadsTo c' ∧ ((∃ expected, error = c'.unexpected expected) ∨
        (∃ construct, error = c'.unsupported construct) ∨ ∃ levels, error = c'.tooDeep levels)) ∧
      (error.isMismatchAt c.current.span.start = true ↔ error.IsUnexpected ∧ c' = c) ∧
      (error.IsUnexpected ∧ c' = c → ∀ known ps separator items,
        (Parser.firstOf known (r.parse :: ps)).run Grammar.productions limit room _ c =
            (Parser.firstOf (Parser.mergeExpected known error.expected) ps).run
              Grammar.productions limit room _ c ∧
          Action.listInto separator (r.parse.run Grammar.productions limit room _) items c =
            (.done false c, items)) ∧
      (¬ (error.IsUnexpected ∧ c' = c) → ∀ known ps separator items,
        (Parser.firstOf known (r.parse :: ps)).run Grammar.productions limit room _ c =
            .failed error c' ∧
          Action.listInto separator (r.parse.run Grammar.productions limit room _) items c =
            (.failed error c', items)) := by
  have hlocated := Parser.run_located (P := Grammar.productions) limit room r.parse
  have hordered : c.Ordered := (Cursor.ordered_ofText hstart).of_leadsTo hc
  have hiff := hlocated.isMismatchAt_iff hordered hfail
  refine ⟨?_, hiff, ?_, ?_⟩
  · have hreply := hlocated c
    rw [hfail] at hreply
    obtain ⟨hlead, cause, rfl⟩ := hreply
    refine ⟨hlead, ?_⟩
    cases cause with
    | unexpected expected => exact .inl ⟨expected, rfl⟩
    | unsupported construct => exact .inr (.inl ⟨construct, rfl⟩)
    | tooDeep levels => exact .inr (.inr ⟨levels, rfl⟩)
  · intro hmismatch known ps separator items
    have hoffset := hiff.2 hmismatch
    refine ⟨Parser.run_firstOf_of_mismatch hfail hoffset known ps, ?_⟩
    rw [Action.listInto, Action.attempt_of_mismatch hfail hoffset]
  · intro hcommitted known ps separator items
    have hoffset := Bool.eq_false_iff.2 (mt hiff.1 hcommitted)
    refine ⟨Parser.run_firstOf_of_committed hfail hoffset known ps, ?_⟩
    rw [Action.listInto, Action.attempt_of_committed hfail hoffset]

deriving instance DecidableEq for Reply

/-- The cursor at the number in `a, t INDEXED BY 1`. -/
def atIndexNumber : Cursor := ⟨[⟨.number "1", "1", ⟨16, 17⟩⟩], .eof 17, rfl⟩

/-- The cursor at the second table in `a, t INDEXED BY 1`. -/
def atIndexedTable : Cursor :=
  ⟨[⟨.identifier "t", "t", ⟨3, 4⟩⟩, ⟨.keyword .INDEXED, "INDEXED", ⟨5, 12⟩⟩,
    ⟨.keyword .BY, "BY", ⟨13, 15⟩⟩] ++ atIndexNumber.ahead, .eof 17, rfl⟩

/-- A table with a number for an index fails behind its first token, so that nothing else is tried
in its place. -/
theorem failure_at_cursor_index : ∃ start error,
    Cursor.ofText "a, t INDEXED BY 1" = .ok start ∧ start.LeadsTo atIndexedTable ∧
      (Rule.parse .tableSource).run Grammar.productions 200 7 _ atIndexedTable =
        .failed error atIndexNumber ∧
      (∃ expected, error = atIndexNumber.unexpected expected) ∧
      (Parser.firstOf [] [Rule.parse .tableSource]).run Grammar.productions 200 7 _
        atIndexedTable = .failed error atIndexNumber := by
  let start : Cursor :=
    ⟨[⟨.identifier "a", "a", ⟨0, 1⟩⟩, ⟨.operator .comma, ",", ⟨1, 2⟩⟩] ++ atIndexedTable.ahead,
      .eof 17, rfl⟩
  let error := atIndexNumber.unexpected ["identifier"]
  have hstart : Cursor.ofText "a, t INDEXED BY 1" = .ok start :=
    Lexer.ok_of_toOption (by decide)
  have hlead : start.LeadsTo atIndexedTable := ⟨List.suffix_append _ _, rfl⟩
  have hfail : (Rule.parse .tableSource).run Grammar.productions 200 7 _ atIndexedTable =
      .failed error atIndexNumber := by decide
  have htaken : ¬ (error.IsUnexpected ∧ atIndexNumber = atIndexedTable) := by
    intro h
    exact absurd h.2 (by decide)
  have hfailure := Rule.failure_at_cursor hstart hlead .tableSource 200 7 hfail
  exact ⟨start, error, hstart, hlead, hfail, ⟨["identifier"], rfl⟩,
    (hfailure.2.2.2 htaken [] [] Operator.comma []).1⟩

end SqlGrammar
