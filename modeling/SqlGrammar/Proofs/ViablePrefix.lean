import SqlGrammar.Proofs.Grammar.PromptWhole
import SqlGrammar.Proofs.Lexer.Reformat
import SqlGrammar.Proofs.Lexer.Written
import SqlGrammar.Proofs.SameSymbols

/-!
# Errors of statements are not late

Where a statement is refused because of an unexpected token, the tokens before that token are the
start of some statement (`viable_prefix`). That every production is prompt has been shown for
symbols; here the symbols are written out again, the old ones as they were spelled and those that
are filled in one by one, with blanks between them all.
-/

set_option autoImplicit false

namespace SqlGrammar

open SqlGrammar.Parser Grammar

/-! ## Writing symbols out -/

/-- The spelling of what is filled in, a name in quotes. -/
def Filler.word : Filler → TokenKind × String
  | terminal (.keyword word) => (.keyword word, word.text)
  | terminal (.operator sign) => (.operator sign, sign.text)
  | name own => (.identifier own, Text.Quoted.enclose '\x22' own)
  | digit => (.number "1", "1")

namespace Lexer

theorem alone_filler (f : Filler) : Alone f.word.1 f.word.2.toList := by
  cases f with
  | terminal t =>
    cases t with
    | keyword word => exact alone_keyword word
    | operator sign => exact alone_spelling (text_mem_spellings sign)
  | name own => exact alone_quotedName (.inl rfl) own
  | digit => exact ⟨rfl, '1', [], rfl, rfl⟩

theorem wordSymbol_filler (f : Filler) : wordSymbol f.word = f.symbol := by
  cases f with
  | terminal t =>
    cases t with
    | keyword word =>
      rw [wordSymbol, Filler.word, symbolOf_keyword, String.ofList_toList]
      rfl
    | operator sign => rfl
  | name own => rfl
  | digit => rfl

/-- Tokens and what is filled in behind them have the same symbols when they are written out. -/
theorem map_wordSymbol_fill (ts : List Token) (more : List Filler) :
    (ts.map Token.word ++ more.map Filler.word).map wordSymbol =
      ts.map Token.symbol ++ more.map Filler.symbol := by
  have hword : wordSymbol ∘ Token.word = Token.symbol := funext wordSymbol_word
  have hfiller : wordSymbol ∘ Filler.word = Filler.symbol := funext wordSymbol_filler
  rw [List.map_append, List.map_map, List.map_map, hword, hfiller]

end Lexer

/-! ## Texts -/

namespace Cursor

/-- The symbols that have been taken are those of the first tokens. -/
theorem symbols_take {c c' : Cursor} {used : List Symbol} (h : c.symbols = used ++ c'.symbols) :
    used.length = c.remaining - c'.remaining ∧
      (c.tokens.take used.length).map Token.symbol = used := by
  have hlength := congrArg List.length h
  rw [List.length_append, c.length_symbols, c'.length_symbols] at hlength
  have htake : c.symbols.take used.length = used := by rw [h, List.take_left]
  have hahead : c.tokens.take used.length = c.ahead.take used.length := by
    rw [tokens, List.take_append_of_le_length]
    rw [remaining] at hlength
    omega
  refine ⟨by omega, ?_⟩
  rw [hahead, List.map_take]
  exact htake

end Cursor

/-- The words before a cursor, each by itself. -/
theorem alone_of_mem_take {text : String} {c : Cursor} (h : tokenize text = .ok c.tokens)
    {n : Nat} (hn : n ≤ c.remaining) :
    ∀ w ∈ (c.tokens.take n).map Token.word, Lexer.Alone w.1 w.2.toList := by
  obtain ⟨ws, hws, hwords⟩ := Lexer.words_of_tokenize h
  have hlength := congrArg List.length hwords
  simp only [Cursor.tokens, List.length_map, List.length_append, List.length_singleton] at hlength
  rw [Cursor.remaining] at hn
  intro w hw
  rw [List.map_take, hwords, List.take_append_of_le_length (by omega)] at hw
  exact hws.alone w (List.mem_of_mem_take hw)

/-- Where tokens have been taken that can be completed, there is a text that starts with them and
with what is filled in next, and that is a statement. -/
theorem exists_text_of_completable {text : String} {c c' : Cursor} {used : List Symbol}
    {next : List Filler} (htext : tokenize text = .ok c.tokens)
    (hused : c.symbols = used ++ c'.symbols)
    (hnext : Completable productions (whole .statement) (fun _ => True) (fun _ ss => ss = []) used
      next) :
    ∃ (text' : String) (ts' : List Token) (completion : List (TokenKind × String)) (depth' : Nat)
      (tree : Statement),
      tokenize text' = .ok ts' ∧
      ts'.map Token.word =
        (c.tokens.take used.length).map Token.word ++ next.map Filler.word ++ completion ∧
      parseRule .statement text' depth' = .ok tree := by
  obtain ⟨more, tree, hcompletes⟩ := hnext
  obtain ⟨-, hread⟩ := hcompletes [] rfl
  rw [List.append_nil] at hread
  obtain ⟨hindex, hsymbols⟩ := Cursor.symbols_take hused
  -- the tokens as they were spelled, and what is filled in
  have halone : ∀ w ∈ (c.tokens.take used.length).map Token.word ++
      (next ++ more).map Filler.word, Lexer.Alone w.1 w.2.toList := by
    intro w hw
    rcases List.mem_append.1 hw with hw | hw
    · exact alone_of_mem_take htext (by omega) w hw
    · obtain ⟨f, -, rfl⟩ := List.mem_map.1 hw
      exact Lexer.alone_filler f
  obtain ⟨text', hwords⟩ := Lexer.exists_text_of_words halone
  have hlexes := hwords.lexes
  rw [Lexer.map_wordSymbol_fill, hsymbols] at hlexes
  obtain ⟨ts', hts', hsame⟩ := Lexer.tokenize_of_words hwords
  obtain ⟨depth', hdepth⟩ := parseRule_of_reads hlexes hread
  exact ⟨text', ts', _, depth', tree, hts',
    by rw [hsame, List.map_append, List.append_assoc, List.append_assoc, List.append_assoc],
    hdepth depth' (Nat.le_refl _)⟩

/-- Where a statement is refused because of an unexpected token, the tokens before that token can be
completed to a statement in every way that is possible. -/
theorem exists_completed_text {text : String} {ts : List Token} {depth : Nat}
    {expected : List String} {found : TokenKind} {span : Span} (htext : tokenize text = .ok ts)
    (hfail : parseRule .statement text depth = .error (.unexpected expected found span)) :
    ∃ i t, ts[i]? = some t ∧ t.kind = found ∧ t.span = span ∧
      ∀ next, Possible ((ts.take i).map Token.kind) expected next →
        ∃ (text' : String) (ts' : List Token) (completion : List (TokenKind × String))
          (depth' : Nat) (tree : Statement),
          tokenize text' = .ok ts' ∧
          ts'.map Token.word = (ts.take i).map Token.word ++ next.map Filler.word ++ completion ∧
          parseRule .statement text' depth' = .ok tree := by
  obtain ⟨c, hc, rfl⟩ := Cursor.exists_ofText htext
  rw [parseRule_of_ofText hc] at hfail
  cases hrun : Grammar.run depth (whole .statement) c with
  | done tree c' =>
    rw [hrun] at hfail
    cases hfail
  | failed error c' =>
    rw [hrun] at hfail
    cases hfail
    -- the error was met at the token under the second cursor
    have hlocated := run_located (P := productions) depth depth (whole .statement) c
    rw [show (whole .statement).run productions depth depth _ c = _ from hrun] at hlocated
    obtain ⟨hlead, cause, herror⟩ := hlocated
    have hcurrent : found = c'.current.kind ∧ span = c'.current.span := by
      cases cause <;> cases herror
      exact ⟨rfl, rfl⟩
    obtain ⟨used, hused, hmore⟩ := exists_completable_whole hrun
    obtain ⟨hindex, hsymbols⟩ := Cursor.symbols_take hused
    refine ⟨used.length, c'.current, hindex ▸ hlead.getElem?_tokens, hcurrent.1.symm,
      hcurrent.2.symm, fun next hnext => exists_text_of_completable htext hused (hmore next ?_)⟩
    have hkinds : (c.tokens.take used.length).map Token.kind = used.map Symbol.kind := by
      rw [← congrArg (List.map Symbol.kind) hsymbols, List.map_map]
      rfl
    rwa [hkinds] at hnext

/-- A statement that is refused because of an unexpected token is right up to that token: some text
that `parseRule .statement` accepts starts with the words of the tokens before it. -/
theorem viable_prefix {text : String} {ts : List Token} {depth : Nat} {expected : List String}
    {found : TokenKind} {span : Span} (htext : tokenize text = .ok ts)
    (hfail : parseRule .statement text depth = .error (.unexpected expected found span)) :
    ∃ i t, ts[i]? = some t ∧ t.kind = found ∧ t.span = span ∧
      ∃ (text' : String) (ts' : List Token) (completion : List (TokenKind × String)) (depth' : Nat)
        (tree : Statement),
        tokenize text' = .ok ts' ∧
        ts'.map Token.word = (ts.take i).map Token.word ++ completion ∧
        parseRule .statement text' depth' = .ok tree := by
  obtain ⟨i, t, ht, hfound, hspan, hmore⟩ := exists_completed_text htext hfail
  obtain ⟨text', ts', completion, depth', tree, htext', hwords, hparse⟩ := hmore [] .something
  rw [List.map_nil, List.append_nil] at hwords
  exact ⟨i, t, ht, hfound, hspan, text', ts', completion, depth', tree, htext', hwords, hparse⟩

/-- The tokens of `DELETE FROM "t" WHERE )`. -/
def deletionTokens : List Token :=
  [⟨.keyword .DELETE, "DELETE", ⟨0, 6⟩⟩, ⟨.keyword .FROM, "FROM", ⟨7, 11⟩⟩,
    ⟨.identifier "t", "\"t\"", ⟨12, 15⟩⟩, ⟨.keyword .WHERE, "WHERE", ⟨16, 21⟩⟩,
    ⟨.operator .rightParen, ")", ⟨22, 23⟩⟩, .eof 23]

/-- Four tokens stand before the parenthesis, and a condition may stand in its place. -/
theorem viable_prefix_deletion :
    tokenize "DELETE FROM \"t\" WHERE )" = .ok deletionTokens ∧
      parseRule .statement "DELETE FROM \"t\" WHERE )" 4 =
        .error (.unexpected ["expression"] (.operator .rightParen) ⟨22, 23⟩) ∧
      ∃ i t, deletionTokens[i]? = some t ∧ t.kind = .operator .rightParen ∧
        t.span = ⟨22, 23⟩ ∧
        ∃ (text' : String) (ts' : List Token) (completion : List (TokenKind × String))
          (depth' : Nat) (tree : Statement),
          tokenize text' = .ok ts' ∧
          ts'.map Token.word = (deletionTokens.take i).map Token.word ++ completion ∧
          parseRule .statement text' depth' = .ok tree := by
  have htext : tokenize "DELETE FROM \"t\" WHERE )" = .ok deletionTokens :=
    Lexer.ok_of_toOption (by decide +kernel)
  have hfail : parseRule .statement "DELETE FROM \"t\" WHERE )" 4 =
      .error (.unexpected ["expression"] (.operator .rightParen) ⟨22, 23⟩) :=
    Lexer.error_of_failure? (by decide +kernel)
  exact ⟨htext, hfail, viable_prefix htext hfail⟩

end SqlGrammar
