import SqlGrammar.Proofs.Dispatch

/-!
# Words between `CREATE` and an object

A creation is chosen by the word for its object, behind at most one word that says what the object
is like. Whether the two suit each other is judged only afterwards, by the rule of the object: a
word that does not suit it is refused before the object is reached (`run_statement_of_not_admits`).
Where no object follows, the error names all four of them, whatever word stands before
(`run_statement_of_no_object`), so that objects are named there that are refused.
-/

set_option autoImplicit false

namespace SqlGrammar

open SqlGrammar.Parser Grammar

/-- Whether the word may stand before the object in a creation. -/
def ObjectKind.admits : ObjectKind → Keyword → Bool
  | .index, word => word == .UNIQUE
  | _, word => word == .TEMP || word == .TEMPORARY

section Creation

variable {limit room : Nat} {c : Cursor} {word : Keyword}

theorem Cursor.ne_of_kindAt {other : Keyword} (h : c.kindAt 0 = .keyword word)
    (hne : word ≠ other) : c.kindAt 0 ≠ (Terminal.keyword other).kind := by
  rw [h]
  exact fun heq => hne (TokenKind.keyword.inj heq)

/-- Nothing but a word for temporary objects is taken between `CREATE` and the object. -/
theorem Grammar.run_createHead_of_word {object : Keyword} (hcreate : c.kindAt 0 = .keyword .CREATE)
    (hword : c.advance.kindAt 0 = .keyword word) (htemp : word ≠ .TEMP)
    (htemporary : word ≠ .TEMPORARY) (hobject : word ≠ object) :
    (createHead object).run productions limit room _ c =
      .failed (c.advance.unexpected [object.text]) c.advance := by
  have hplain : temporary.run productions limit room _ c.advance = .done false c.advance := by
    rw [temporary, run_bind_of_done (run_accept_of_ne (Cursor.ne_of_kindAt hword htemp)),
      if_neg Bool.false_ne_true, run_accept_of_ne (Cursor.ne_of_kindAt hword htemporary)]
  rw [createHead, run_bind_of_done (run_expect_of_eq (t := .keyword .CREATE) hcreate),
    run_bind_of_done hplain]
  exact run_bind_of_failed (run_expect_of_ne (Cursor.ne_of_kindAt hword hobject))

/-- A word that does not suit the object behind it is met in place of the object. -/
theorem Grammar.run_statement_of_not_admits {object : ObjectKind}
    (hcreate : c.kindAt 0 = .keyword .CREATE) (hword : c.kindAt 1 = .keyword word)
    (hobject : c.kindAt 2 = .keyword object.keyword)
    (hmodifies : modifiesCreation (.keyword word) = true) (hunfit : object.admits word = false) :
    statement.run productions limit (room + 1) _ c =
      .failed (c.advance.unexpected [object.keyword.text]) c.advance := by
  have hkind : StatementKind.ofCursor? c = some (.ofObject object) := by
    rw [StatementKind.ofCursor?, hcreate, hword, hobject, StatementKind.ofKinds?, createdKind?,
      if_pos hmodifies]
    cases object <;> rfl
  have hne : c.kindAt 0 ≠ .eof := Terminal.ne_eof_of_eq (t := .keyword .CREATE) hcreate
  have hnext : c.advance.kindAt 0 = .keyword word := by rw [Cursor.kindAt_advance hne, hword]
  rw [run_statement_of_some hkind]
  refine run_bind_of_failed ((run_goal limit room c _).trans ?_)
  cases object with
  | index =>
    have hindex : word ≠ .UNIQUE := ne_of_beq_false hunfit
    have hplain : (accept Keyword.UNIQUE).run productions limit room _ c.advance =
        .done false c.advance := run_accept_of_ne (Cursor.ne_of_kindAt hnext hindex)
    change createIndex.run productions limit room _ c = _
    rw [createIndex, run_bind_of_done (run_expect_of_eq (t := .keyword .CREATE) hcreate),
      run_bind_of_done hplain]
    refine run_bind_of_failed (run_expect_of_ne (Cursor.ne_of_kindAt hnext ?_))
    rintro rfl
    cases hmodifies
  | _ =>
    obtain ⟨htemp, htemporary⟩ := Bool.or_eq_false_iff.1 hunfit
    refine run_bind_of_failed (run_createHead_of_word hcreate hnext (ne_of_beq_false htemp)
      (ne_of_beq_false htemporary) ?_)
    rintro rfl
    cases hmodifies

/-- Where a word is followed by no object, all objects are named as expected. -/
theorem Grammar.run_statement_of_no_object (hcreate : c.kindAt 0 = .keyword .CREATE)
    (hmodifies : modifiesCreation (c.kindAt 1) = true) (hnone : objectKind? (c.kindAt 2) = none) :
    statement.run productions limit room _ c =
      .failed (c.advance.advance.unexpected ["TABLE", "INDEX", "VIEW", "TRIGGER"])
        c.advance.advance := by
  have hcreated : createdKind? (c.kindAt 1) (c.kindAt 2) = none := by
    rw [createdKind?, if_pos hmodifies, hnone]
  have hne : c.kindAt 0 ≠ .eof := Terminal.ne_eof_of_eq (t := .keyword .CREATE) hcreate
  rw [statement, kind, run_bind_of_done (run_look limit room c 0), hcreate]
  change creation.run productions limit room _ c = _
  rw [run_creation, hcreated]
  change unknownCreation.run productions limit room _ c = _
  rw [unknownCreation, run_bind_of_done (run_expect_of_eq (t := .keyword .CREATE) hcreate), kind,
    run_bind_of_done (run_look limit room c.advance 0), Cursor.kindAt_advance hne, if_pos hmodifies,
    run_bind_of_done (run_advance limit room c.advance)]
  exact run_unexpected limit room _ _

end Creation

/-- What a statement fails with is what a text of it fails with. -/
theorem Grammar.run_whole_statement_of_failed {depth : Nat} {c c' : Cursor} {error : ParseError}
    (h : statement.run productions (depth + 1) depth _ c = .failed error c') :
    (Grammar.run (depth + 1) (whole .statement) c).toExcept = .error error := by
  have hgoal : Rule.statement.parse.run productions (depth + 1) (depth + 1) _ c =
      .failed error c' := h
  rw [Grammar.run, runTop, whole, run_bind_of_failed hgoal]
  rfl

/-- The tokens of `CREATE UNIQUE`. -/
def createUnique : List Token :=
  [⟨.keyword .CREATE, "CREATE", ⟨0, 6⟩⟩, ⟨.keyword .UNIQUE, "UNIQUE", ⟨7, 13⟩⟩]

/-- `TABLE` is named as expected behind `CREATE UNIQUE`, but with `TABLE` there the statement is
refused one token earlier, whatever follows and with however many levels. -/
theorem expected_table_refused :
    parseRule .statement "CREATE UNIQUE x" defaultMaxDepth =
        .error (.unexpected ["TABLE", "INDEX", "VIEW", "TRIGGER"] (.identifier "x") ⟨14, 15⟩) ∧
      ∀ (c : Cursor) (t : Token) (more : List Token), t.kind = .keyword .TABLE →
        c.ahead = createUnique ++ t :: more →
          ∀ depth, 2 ≤ depth → (Grammar.run depth (whole .statement) c).toExcept =
            .error (.unexpected ["TABLE"] (.keyword .UNIQUE) ⟨7, 13⟩) := by
  have htokens : tokenize "CREATE UNIQUE x" =
      .ok (createUnique ++ [⟨.identifier "x", "x", ⟨14, 15⟩⟩, .eof 15]) :=
    Lexer.ok_of_toOption (by decide)
  refine ⟨?_, fun c t more ht hahead depth hdepth => ?_⟩
  · rw [parseRule_of_ofText (congrArg (Except.map Cursor.ofTokens) htokens)]
    exact run_whole_statement_of_failed (run_statement_of_no_object rfl rfl rfl)
  · obtain ⟨depth, rfl⟩ := Nat.exists_eq_add_of_le' hdepth
    have hadvance : c.advance.current = ⟨.keyword .UNIQUE, "UNIQUE", ⟨7, 13⟩⟩ := by
      rw [Cursor.advance, hahead]
      rfl
    have hobject : c.kindAt 2 = .keyword ObjectKind.table.keyword := by
      rw [Cursor.kindAt, Cursor.peek, hahead]
      exact ht
    have hcreate : c.kindAt 0 = .keyword .CREATE := by
      rw [Cursor.kindAt, Cursor.peek, hahead]
      rfl
    have hunique : c.kindAt 1 = .keyword .UNIQUE := by
      rw [Cursor.kindAt, Cursor.peek, hahead]
      rfl
    rw [run_whole_statement_of_failed
      (run_statement_of_not_admits hcreate hunique hobject rfl rfl),
      Cursor.unexpected, hadvance]
    rfl

end SqlGrammar
