import SqlGrammar.Proofs.StatementBoundary

/-!
# What is never accepted

The grammar knows the words of joins between tables, of compound queries and of common table
expressions only in order to refuse them. A text that is accepted has none of them anywhere, and a
query that would be accepted by itself is refused at a word that adds another query to it
(`refused_words`).
-/

set_option autoImplicit false

namespace SqlGrammar

open SqlGrammar.Parser Grammar

/-- A query never stops before a word that would add another one. -/
theorem Grammar.addsQuery_of_run_select {limit room : Nat} {c c' : Cursor} {query : Select}
    (h : (Rule.parse .select).run productions limit room _ c = .done query c') :
    (c'.kindAt 0).addsQuery = false := by
  cases room with
  | zero => cases h
  | succ room =>
    change select.run productions limit room _ c = .done query c' at h
    rw [select, run_bind_of_done (run_isAt _)] at h
    split at h
    · rw [run_unsupported] at h
      cases h
    · -- whatever the clauses are, the words are refused behind the last of them
      obtain ⟨_, _, -, h⟩ := exists_of_run_bind h
      obtain ⟨distinct, _, -, h⟩ := exists_of_run_bind h
      obtain ⟨columns, _, -, h⟩ := exists_of_run_bind h
      obtain ⟨sources, _, -, h⟩ := exists_of_run_bind h
      obtain ⟨filter, _, -, h⟩ := exists_of_run_bind h
      obtain ⟨⟨groupBy, having⟩, _, -, h⟩ := exists_of_run_bind h
      obtain ⟨_, _, -, h⟩ := exists_of_run_bind h
      obtain ⟨orderBy, _, -, h⟩ := exists_of_run_bind h
      obtain ⟨limit, c₁, -, h⟩ := exists_of_run_bind h
      obtain ⟨_, c₂, hrefuse, h⟩ := exists_of_run_bind h
      rw [run_pure] at h
      cases h
      cases hadds : (c₁.kindAt 0).addsQuery with
      | true =>
        rw [run_refuseCompound_of_adds hadds] at hrefuse
        cases hrefuse
      | false =>
        rw [run_refuseCompound hadds] at hrefuse
        cases hrefuse
        exact hadds

/-- All tokens of an accepted text can be part of a tree. -/
theorem Grammar.isProper_of_parses {r : Rule} {depth : Nat} {c : Cursor} {tree : r.Tree}
    (hend : ∀ t ∈ c.ahead, t.kind ≠ .eof)
    (hparses : (Grammar.run depth (whole r) c).toExcept = .ok tree) :
    ∀ t ∈ c.ahead, t.kind.isProper = true := by
  obtain ⟨c₁, hrun, ⟨used, hused⟩, hleft⟩ := exists_run_of_parses hend hparses
  obtain ⟨⟨taken, htaken, hproper⟩, -⟩ := goalsSteady depth depth (.rule r) c tree c₁ hrun
  -- what was taken, in tokens and in symbols
  have hsame : used.map Token.symbol = taken := by
    rw [Cursor.symbols, Cursor.symbols, ← hused, List.map_append] at htaken
    exact List.append_cancel_right htaken
  intro t ht
  rw [← hused] at ht
  rcases List.mem_append.1 ht with htook | hlast
  · exact hproper t.symbol (hsame ▸ List.mem_map_of_mem htook)
  · rcases hleft with hnil | ⟨semi, hone, hsemi⟩
    · rw [hnil] at hlast
      cases hlast
    · rw [hone, List.mem_singleton] at hlast
      rw [hlast, hsemi]
      rfl

/-- A query with a word that adds another query behind it is refused at the word. -/
theorem Rule.Completes.run_whole_of_addsQuery {depth : Nat} {c c' : Cursor} {query : Select}
    (h : Rule.select.Completes depth c query) {k : Token} {more : List Token}
    (hk : k.kind.addsQuery = true) (hahead : c'.ahead = c.ahead ++ k :: more) :
    (Grammar.run depth (whole .select) c').toExcept =
      .error (.unsupported "compound SELECT" k.span) := by
  obtain ⟨c₂, hahead₂, hrun | ⟨-, hrun⟩⟩ :=
    h.run_before_closing (TokenKind.closes_of_addsQuery hk) hahead
  · have hstop := addsQuery_of_run_select hrun
    rw [Cursor.kindAt_zero_of_ahead hahead₂, hk] at hstop
    cases hstop
  · rw [Grammar.run, runTop, whole, run_bind_of_failed hrun, Reply.toExcept, Cursor.unsupported,
      Cursor.current, hahead₂]
    rfl

/-- No text with a word that `Keyword.isRefused` is accepted, by whatever rule and under whatever
limit. A query that is read in full (`Rule.Completes`) is refused, under the same limit, at a token
behind it that `addsQuery`. -/
theorem refused_words :
    (∀ (r : Rule) (text : String) (depth : Nat) (tree : r.Tree) (ts : List Token),
        tokenize text = .ok ts → parseRule r text depth = .ok tree →
          ∀ t ∈ ts, ∀ word : Keyword, t.kind = .keyword word → word.isRefused = false) ∧
      ∀ (depth : Nat) (c : Cursor) (query : Select), Rule.select.Completes depth c query →
        ∀ (c' : Cursor) (k : Token) (more : List Token), k.kind.addsQuery = true →
          c'.ahead = c.ahead ++ k :: more →
            (Grammar.run depth (whole .select) c').toExcept =
              .error (.unsupported "compound SELECT" k.span) := by
  refine ⟨fun r text depth tree ts hts hparse t ht word hword => ?_,
    fun depth c query h c' k more => h.run_whole_of_addsQuery⟩
  obtain ⟨c, hc, rfl⟩ := Cursor.exists_ofText hts
  rw [parseRule_of_ofText hc] at hparse
  rcases List.mem_append.1 ht with hahead | hfinal
  · have hproper := isProper_of_parses (Cursor.ne_eof_of_ofText hc) hparse t hahead
    rw [hword] at hproper
    simpa [TokenKind.isProper] using hproper
  · rw [List.mem_singleton.1 hfinal, c.kind_final] at hword
    cases hword

/-- `SELECT a` has none of the words, and a `UNION` behind it is refused. -/
theorem refused_words_union :
    (∀ t ∈ atSelect.tokens, ∀ word : Keyword, t.kind = .keyword word → word.isRefused = false) ∧
      (Grammar.run 4 (whole .select)
        ⟨atSelect.ahead ++ [⟨.keyword .UNION, "union", ⟨9, 14⟩⟩, ⟨.number "1", "1", ⟨15, 16⟩⟩],
          .eof 16, rfl⟩).toExcept = .error (.unsupported "compound SELECT" ⟨9, 14⟩) := by
  have htokens : tokenize "SELECT a" = .ok atSelect.tokens :=
    Lexer.ok_of_toOption (by decide +kernel)
  have hparse : parseRule .select "SELECT a" 4 = .ok selectA :=
    Lexer.ok_of_toOption (by decide +kernel)
  obtain ⟨hwords, hcompound⟩ := refused_words
  exact ⟨hwords .select _ 4 _ _ htokens hparse,
    hcompound 4 atSelect selectA completes_selectA _ ⟨.keyword .UNION, "union", ⟨9, 14⟩⟩ _ rfl rfl⟩

end SqlGrammar
