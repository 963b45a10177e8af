import SqlGrammar.Proofs.Parser.Alike

/-!
# Texts with the same symbols

What the grammar makes of a text depends on the kinds of its tokens, and on the spelling of those
keywords that are also names of functions. Two texts that agree in these give the same tree, or are
refused for the same cause at tokens with the same number (`parseRule_alike`), wherever their tokens
stand and however they are spelled otherwise.
-/

set_option autoImplicit false

namespace SqlGrammar

/-! ## Tokens that agree -/

/-- The tokens have the same kinds, and the keywords that name functions the same spellings. -/
structure TokensAgree (ts₁ ts₂ : List Token) : Prop where
  kinds : ts₁.map Token.kind = ts₂.map Token.kind
  spellings : ∀ (i : Nat) (t₁ t₂ : Token) (word : Keyword), ts₁[i]? = some t₁ →
    ts₂[i]? = some t₂ → t₁.kind = .keyword word → word.namesFunction = true →
      t₁.lexeme = t₂.lexeme

/-- Only the keywords that name functions have a spelling that is seen. -/
theorem Token.symbol_eq {t₁ t₂ : Token} (hkind : t₁.kind = t₂.kind)
    (hlexeme : ∀ word, t₁.kind = .keyword word → word.namesFunction = true →
      t₁.lexeme = t₂.lexeme) : t₁.symbol = t₂.symbol := by
  have hcallee : t₁.callee? = t₂.callee? := by
    rw [callee?, callee?, ← hkind]
    cases h : t₁.kind with
    | keyword word =>
      dsimp only
      by_cases hfunction : word.namesFunction = true
      · rw [if_pos hfunction, if_pos hfunction, hlexeme word h hfunction]
      · rw [if_neg hfunction, if_neg hfunction]
    | _ => rfl
  rw [symbol, symbol, hkind, hcallee]

/-- `TokensAgree` for tokens that are gone through side by side. -/
theorem TokensAgree.of_zip {ts₁ ts₂ : List Token} (kinds : ts₁.map Token.kind = ts₂.map Token.kind)
    (h : ∀ p ∈ ts₁.zip ts₂, p.1.kind.keyword?.any Keyword.namesFunction = true →
      p.1.lexeme = p.2.lexeme) : TokensAgree ts₁ ts₂ where
  kinds := kinds
  spellings := by
    intro i t₁ t₂ word h₁ h₂ hkind hfunction
    have hmem : (t₁, t₂) ∈ ts₁.zip ts₂ :=
      List.mem_of_getElem? (List.getElem?_zip_eq_some.2 ⟨h₁, h₂⟩)
    exact h _ hmem (by simp [hkind, TokenKind.keyword?, hfunction])

/-- Tokens that agree stand for the same symbols. -/
theorem TokensAgree.symbols {ts₁ ts₂ : List Token} (h : TokensAgree ts₁ ts₂) :
    ts₁.map Token.symbol = ts₂.map Token.symbol := by
  have hlength : ts₁.length = ts₂.length := by simpa using congrArg List.length h.kinds
  apply List.ext_getElem?
  intro i
  have hkind : ts₁[i]?.map Token.kind = ts₂[i]?.map Token.kind := by
    rw [← List.getElem?_map, ← List.getElem?_map, h.kinds]
  rw [List.getElem?_map, List.getElem?_map]
  cases h₁ : ts₁[i]? with
  | none =>
    rw [h₁] at hkind
    rw [Option.map_eq_none_iff.1 hkind.symm]
  | some t₁ =>
    cases h₂ : ts₂[i]? with
    | none =>
      rw [h₁, h₂] at hkind
      cases hkind
    | some t₂ =>
      rw [h₁, h₂] at hkind
      have hsame := Token.symbol_eq (Option.some.inj hkind)
        fun word => h.spellings i t₁ t₂ word h₁ h₂
      rw [Option.map_some, Option.map_some, hsame]

/-! ## Cursors -/

namespace Cursor

theorem symbols_eq_of_tokens {c₁ c₂ : Cursor}
    (h : c₁.tokens.map Token.symbol = c₂.tokens.map Token.symbol) : c₁.symbols = c₂.symbols := by
  have hdrop : ∀ c : Cursor, c.symbols = (c.tokens.map Token.symbol).dropLast := by
    intro c
    simp [tokens, symbols]
  rw [hdrop c₁, hdrop c₂, h]

/-- The number of the token under a cursor, counted from another one that leads to it. -/
theorem LeadsTo.getElem?_tokens {c c' : Cursor} (h : c.LeadsTo c') :
    c.tokens[c.remaining - c'.remaining]? = some c'.current := by
  obtain ⟨used, hused⟩ := h.tokens_suffix
  have hlength : used.length = c.remaining - c'.remaining := by
    have := congrArg List.length hused
    simp only [tokens, List.length_append, List.length_singleton] at this
    simp only [remaining]
    omega
  have hcurrent : c'.tokens[0]? = some c'.current := by
    obtain ⟨ahead, final, hfinal⟩ := c'
    cases ahead <;> rfl
  rw [← hused, List.getElem?_append_right (Nat.le_of_eq hlength), hlength, Nat.sub_self]
  exact hcurrent

end Cursor

/-! ## Texts -/

/-- Two texts with `TokensAgree` are parsed alike, whatever the rule and the limit: they give the
same tree, or errors of the same `Cause` at tokens with the same number. -/
theorem parseRule_alike {text₁ text₂ : String} {ts₁ ts₂ : List Token}
    (h₁ : tokenize text₁ = .ok ts₁) (h₂ : tokenize text₂ = .ok ts₂) (h : TokensAgree ts₁ ts₂)
    (r : Rule) (maxDepth : Nat) :
    (∃ tree, parseRule r text₁ maxDepth = .ok tree ∧ parseRule r text₂ maxDepth = .ok tree) ∨
      ∃ (cause : Cause) (i : Nat) (t₁ t₂ : Token),
        ts₁[i]? = some t₁ ∧ ts₂[i]? = some t₂ ∧ t₁.kind = t₂.kind ∧
        parseRule r text₁ maxDepth = .error (cause.errorAt t₁) ∧
        parseRule r text₂ maxDepth = .error (cause.errorAt t₂) := by
  obtain ⟨c₁, hc₁, rfl⟩ := Cursor.exists_ofText h₁
  obtain ⟨c₂, hc₂, rfl⟩ := Cursor.exists_ofText h₂
  have hsymbols := Cursor.symbols_eq_of_tokens h.symbols
  have hlocated := Parser.run_located (P := Grammar.productions) maxDepth maxDepth (Grammar.whole r)
  have hl₁ := hlocated c₁
  have hl₂ := hlocated c₂
  have hreply := Parser.run_alike (P := Grammar.productions) maxDepth maxDepth (Grammar.whole r)
    c₁ c₂ (Cursor.ordered_ofText hc₁) (Cursor.ordered_ofText hc₂) hsymbols
  rw [parseRule_of_ofText hc₁, parseRule_of_ofText hc₂, Grammar.run, Parser.runTop]
  generalize (Grammar.whole r).run Grammar.productions maxDepth maxDepth _ c₁ = r₁ at hreply hl₁ ⊢
  generalize (Grammar.whole r).run Grammar.productions maxDepth maxDepth _ c₂ = r₂ at hreply hl₂ ⊢
  cases hreply with
  | @done tree c₁' c₂' _ => exact .inl ⟨tree, rfl, rfl⟩
  | @failed cause c₁' c₂' hsymbols' =>
    -- both runs have left the same number of tokens behind
    have hindex : c₂.remaining - c₂'.remaining = c₁.remaining - c₁'.remaining := by
      rw [Cursor.remaining_eq_of_symbols hsymbols, Cursor.remaining_eq_of_symbols hsymbols']
    have ht₁ := hl₁.1.getElem?_tokens
    have ht₂ := hl₂.1.getElem?_tokens
    rw [hindex] at ht₂
    have hkind : c₁'.current.kind = c₂'.current.kind := by
      have := congrArg (·[c₁.remaining - c₁'.remaining]?) h.kinds
      simpa [ht₁, ht₂] using this
    exact .inr ⟨cause, _, _, _, ht₁, ht₂, hkind, rfl, rfl⟩

/-! ## Two spellings of a call -/

/-- The tokens of `Replace(a)`. -/
def bareCall : List Token :=
  [⟨.keyword .REPLACE, "Replace", ⟨0, 7⟩⟩, ⟨.operator .leftParen, "(", ⟨7, 8⟩⟩,
    ⟨.identifier "a", "a", ⟨8, 9⟩⟩, ⟨.operator .rightParen, ")", ⟨9, 10⟩⟩, .eof 10]

/-- The tokens of `Replace /*(*/( "a")`. -/
def quotedCall : List Token :=
  [⟨.keyword .REPLACE, "Replace", ⟨0, 7⟩⟩, ⟨.operator .leftParen, "(", ⟨13, 14⟩⟩,
    ⟨.identifier "a", "\"a\"", ⟨15, 18⟩⟩, ⟨.operator .rightParen, ")", ⟨18, 19⟩⟩, .eof 19]

/-- The tokens of `Replace(a) x`. -/
def bareTokens : List Token :=
  bareCall.dropLast ++ [⟨.identifier "x", "x", ⟨11, 12⟩⟩, .eof 12]

/-- The tokens of `Replace /*(*/( "a")[x]--`. -/
def quotedTokens : List Token :=
  quotedCall.dropLast ++ [⟨.identifier "x", "[x]", ⟨19, 22⟩⟩, .eof 24]

/-- The call is read as the same tree in both spellings. With a name behind it, both are refused at
that name, wherever it stands. -/
theorem parseRule_alike_quoted :
    TokensAgree bareCall quotedCall ∧ TokensAgree bareTokens quotedTokens ∧
      parseRule .expr "Replace(a)" 5 =
        .ok (.call ⟨"Replace", .list false [.column none none "a"]⟩) ∧
      parseRule .expr "Replace /*(*/( \"a\")" 5 =
        .ok (.call ⟨"Replace", .list false [.column none none "a"]⟩) ∧
      parseRule .expr "Replace(a) x" 5 =
        .error (.unexpected ["end of input"] (.identifier "x") ⟨11, 12⟩) ∧
      parseRule .expr "Replace /*(*/( \"a\")[x]--" 5 =
        .error (.unexpected ["end of input"] (.identifier "x") ⟨19, 22⟩) := by
  have hcalls : TokensAgree bareCall quotedCall := .of_zip (by decide) (by decide)
  have htokens : TokensAgree bareTokens quotedTokens := .of_zip (by decide) (by decide)
  have hread : parseRule .expr "Replace(a)" 5 =
      .ok (.call ⟨"Replace", .list false [.column none none "a"]⟩) :=
    Lexer.ok_of_toOption (by decide +kernel)
  have hfail : parseRule .expr "Replace(a) x" 5 =
      .error (.unexpected ["end of input"] (.identifier "x") ⟨11, 12⟩) :=
    Lexer.error_of_failure? (by decide +kernel)
  have hbareCall : tokenize "Replace(a)" = .ok bareCall := Lexer.ok_of_toOption (by decide)
  have hquotedCall : tokenize "Replace /*(*/( \"a\")" = .ok quotedCall :=
    Lexer.ok_of_toOption (by decide)
  have hbare : tokenize "Replace(a) x" = .ok bareTokens := Lexer.ok_of_toOption (by decide)
  have hquoted : tokenize "Replace /*(*/( \"a\")[x]--" = .ok quotedTokens :=
    Lexer.ok_of_toOption (by decide)
  refine ⟨hcalls, htokens, hread, ?_, hfail, ?_⟩
  · rcases parseRule_alike hbareCall hquotedCall hcalls .expr 5 with
      ⟨tree, h₁, h₂⟩ | ⟨cause, i, t₁, t₂, -, -, -, h₁, -⟩
    · rw [h₂, ← h₁, hread]
    · cases hread.symm.trans h₁
  · rcases parseRule_alike hbare hquoted htokens .expr 5 with
      ⟨tree, h₁, -⟩ | ⟨cause, i, t₁, t₂, ht₁, ht₂, hkind, h₁, h₂⟩
    · cases hfail.symm.trans h₁
    · -- the error of the first text tells the cause, and the token with the name
      obtain ⟨expected, rfl⟩ : ∃ expected, cause = .unexpected expected := by
        cases cause with
        | unexpected expected => exact ⟨expected, rfl⟩
        | _ => cases hfail.symm.trans h₁
      obtain ⟨rfl, hname, -⟩ := ParseError.unexpected.inj (Except.error.inj (hfail.symm.trans h₁))
      have honly : ∀ i < bareTokens.length,
          bareTokens[i]?.map Token.kind = some (.identifier "x") → i = 4 := by decide
      obtain rfl : i = 4 := honly i (List.getElem?_eq_some_iff.1 ht₁).1 (by
        rw [ht₁, Option.map_some, ← hname])
      cases ht₂
      exact h₂

end SqlGrammar
