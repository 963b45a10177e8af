import SqlGrammar.Lexer
import SqlGrammar.Proofs.Lexer.Split
import SqlGrammar.Proofs.Symbol

/-!
# The words and symbols of a text

`Words cs ws` says that the characters `cs` are read without a fault as the words `ws`: gap, token,
gap, token, and so on to the end. A word is what a token is without its place. Tokenizing a text
succeeds exactly where the text is read in this way, and its tokens are then these words
(`tokenize_of_words`, `words_of_tokenize`). The grammar sees less of a word, its symbol: `Lexes cs
ss` says that the characters are read as the symbols `ss`.
-/

set_option autoImplicit false

namespace SqlGrammar

/-- A token without its place: its kind and its spelling. -/
def Token.word (t : Token) : TokenKind × String := (t.kind, t.lexeme)

namespace Lexer

/-- Characters are read as words. -/
inductive Words : List Char → List (TokenKind × String) → Prop
  | nil {cs : List Char} : (splitGap .between cs).2 = [] → Words cs []
  | cons {cs rest lexeme behind : List Char} {c : Char} {kind : TokenKind}
      {ws : List (TokenKind × String)} :
      (splitGap .between cs).2 = c :: rest → scan c rest = ⟨.ok kind, lexeme, behind⟩ →
        Words behind ws → Words cs ((kind, String.ofList lexeme) :: ws)

theorem length_splitGap_le (cs : List Char) : (splitGap .between cs).2.length ≤ cs.length := by
  have h := congrArg List.length (splitGap_append .between cs)
  rw [List.length_append] at h
  omega

/-! ## One result at a time -/

theorem next_of_gap {l : Lexer} (h : (splitGap .between l.rest).2 = []) :
    l.next = (.ok (.eof l.skipGap.offset), l.skipGap) := by
  have hrest : l.skipGap.rest = [] := h
  simp only [next, hrest]

theorem next_of_scan {l : Lexer} {c : Char} {rest : List Char}
    (h : (splitGap .between l.rest).2 = c :: rest) :
    l.next = (report l.skipGap.offset (scan c rest),
      ⟨l.skipGap.offset + utf8Length (scan c rest).lexeme, (scan c rest).rest⟩) := by
  have hrest : l.skipGap.rest = c :: rest := h
  simp only [next, hrest]

theorem report_ok (start : Nat) (kind : TokenKind) (lexeme behind : List Char) :
    report start ⟨.ok kind, lexeme, behind⟩ =
      .ok ⟨kind, String.ofList lexeme, ⟨start, start + utf8Length lexeme⟩⟩ := rfl

/-- The results of reading on from the front of characters that are read as words. -/
theorem Words.results {cs : List Char} {ws : List (TokenKind × String)} (h : Words cs ws) :
    ∀ (offset n : Nat), cs.length < n →
      ∃ ts, collect (Lexer.results n ⟨offset, cs⟩) = .ok ts ∧
        ts.map Token.word = ws ++ [(.eof, "")] := by
  induction h with
  | @nil cs hgap =>
    intro offset n hn
    obtain ⟨n, rfl⟩ : ∃ m, n = m + 1 := ⟨n - 1, by omega⟩
    refine ⟨[.eof (Lexer.mk offset cs).skipGap.offset], ?_, rfl⟩
    simp [Lexer.results, next_of_gap (l := ⟨offset, cs⟩) hgap, collect, Token.isEof, Token.eof,
      Except.map]
  | @cons cs rest lexeme behind c kind ws hgap hscan _ ih =>
    intro offset n hn
    obtain ⟨n, rfl⟩ : ∃ m, n = m + 1 := ⟨n - 1, by omega⟩
    have hnext := next_of_scan (l := ⟨offset, cs⟩) hgap
    generalize (Lexer.mk offset cs).skipGap.offset = start at hnext
    -- the token uses a character, so that the rounds that are left suffice
    have hlt := length_scan_rest_lt c rest
    have hle := length_splitGap_le cs
    have hproper := (scan_proper c rest).2
    rw [hscan] at hlt hproper hnext
    rw [hgap] at hle
    obtain ⟨ts, hts, hwords⟩ :=
      ih (start + utf8Length lexeme) n (by dsimp only at hlt; omega)
    have hkind : (kind == .eof) = false :=
      beq_eq_false_iff_ne.2 fun he => hproper (by rw [he])
    refine ⟨⟨kind, String.ofList lexeme, ⟨start, start + utf8Length lexeme⟩⟩ :: ts, ?_, ?_⟩
    · simp only [Lexer.results, hnext, report_ok, collect, Token.isEof, hkind, Bool.false_eq_true,
        if_false, hts, Except.map]
    · rw [List.map_cons, hwords]
      rfl

/-- A text that is read as words is tokenized, and its tokens are these words. -/
theorem tokenize_of_words {text : String} {ws : List (TokenKind × String)}
    (h : Words text.toList ws) :
    ∃ ts, tokenize text = .ok ts ∧ ts.map Token.word = ws ++ [(.eof, "")] :=
  h.results 0 _ (Nat.lt_succ_self _)

/-! ## Back from the tokens -/

theorem ok_of_map_eq_ok {ε α β : Type} {f : α → β} {x : Except ε α} {y : β}
    (h : x.map f = .ok y) : ∃ a, x = .ok a ∧ f a = y := by
  cases x with
  | error e => cases h
  | ok a => exact ⟨a, rfl, Except.ok.inj h⟩

theorem ok_of_toOption {ε α : Type} {x : Except ε α} {a : α} (h : x.toOption = some a) :
    x = .ok a := by
  cases x with
  | error e => cases h
  | ok b => exact congrArg _ (Option.some.inj h)

/-- The error of a result that is one. -/
def failure? {ε α : Type} : Except ε α → Option ε
  | .error e => some e
  | .ok _ => none

theorem error_of_failure? {ε α : Type} {x : Except ε α} {e : ε} (h : failure? x = some e) :
    x = .error e := by
  cases x with
  | error e' => exact congrArg _ (Option.some.inj h)
  | ok a => cases h

/-- What reading on collects is what the characters ahead are read as. -/
theorem words_of_results :
    ∀ (n : Nat) (l : Lexer) (ts : List Token), l.rest.length < n →
      collect (Lexer.results n l) = .ok ts →
        ∃ ws, Words l.rest ws ∧ ts.map Token.word = ws ++ [(.eof, "")] := by
  intro n
  induction n with
  | zero => intro l ts hn; omega
  | succ n ih =>
    intro l ts hn h
    cases hgap : (splitGap .between l.rest).2 with
    | nil =>
      have hts : [Token.eof l.skipGap.offset] = ts := by
        simpa [Lexer.results, next_of_gap hgap, collect, Token.isEof, Token.eof, Except.map] using h
      subst hts
      exact ⟨[], .nil hgap, rfl⟩
    | cons c rest =>
      have hnext := next_of_scan hgap
      -- the token uses a character, so that the rounds that are left suffice
      have hlt := length_scan_rest_lt c rest
      have hle := length_splitGap_le l.rest
      have hproper := (scan_proper c rest).2
      rw [hgap] at hle
      rcases hscan : scan c rest with ⟨verdict, lexeme, behind⟩
      rw [hscan] at hnext hlt hproper
      cases verdict with
      | error fault =>
        simp [Lexer.results, hnext, report, collect] at h
      | ok kind =>
        have hkind : (kind == .eof) = false :=
          beq_eq_false_iff_ne.2 fun he => hproper (by rw [he])
        simp only [Lexer.results, hnext, report_ok, collect, Token.isEof, hkind,
          Bool.false_eq_true, if_false] at h
        obtain ⟨ts', hts', rfl⟩ := ok_of_map_eq_ok h
        obtain ⟨ws, hws, hwords⟩ := ih _ ts' (by dsimp only at hlt ⊢; omega) hts'
        refine ⟨(kind, String.ofList lexeme) :: ws, .cons hgap hscan hws, ?_⟩
        rw [List.map_cons, hwords]
        rfl

/-- The tokens of a text are the words that the text is read as. -/
theorem words_of_tokenize {text : String} {ts : List Token} (h : tokenize text = .ok ts) :
    ∃ ws, Words text.toList ws ∧ ts.map Token.word = ws ++ [(.eof, "")] :=
  words_of_results _ _ ts (Nat.lt_succ_self _) h

/-! ## Symbols -/

/-- The symbol of a token of a kind that was written with some characters. -/
def symbolOf (kind : TokenKind) (lexeme : List Char) : Symbol :=
  (Token.mk kind (String.ofList lexeme) default).symbol

@[simp] theorem symbolOf_kind (kind : TokenKind) (lexeme : List Char) :
    (symbolOf kind lexeme).kind = kind := rfl

/-- Characters are read as symbols. -/
inductive Lexes : List Char → List Symbol → Prop
  | nil {cs : List Char} : (splitGap .between cs).2 = [] → Lexes cs []
  | cons {cs rest lexeme behind : List Char} {c : Char} {kind : TokenKind} {ss : List Symbol} :
      (splitGap .between cs).2 = c :: rest → scan c rest = ⟨.ok kind, lexeme, behind⟩ →
        Lexes behind ss → Lexes cs (symbolOf kind lexeme :: ss)

/-- The symbol of a word. -/
def wordSymbol (w : TokenKind × String) : Symbol := symbolOf w.1 w.2.toList

theorem wordSymbol_word (t : Token) : wordSymbol t.word = t.symbol := by
  rw [wordSymbol, symbolOf, String.ofList_toList]
  rfl

/-- The symbols of a text are those of its words. -/
theorem Words.lexes {cs : List Char} {ws : List (TokenKind × String)} (h : Words cs ws) :
    Lexes cs (ws.map wordSymbol) := by
  induction h with
  | nil hgap => exact .nil hgap
  | cons hgap hscan _ ih =>
    rw [List.map_cons, wordSymbol, String.toList_ofList]
    exact .cons hgap hscan ih

theorem Lexes.words {cs : List Char} {ss : List Symbol} (h : Lexes cs ss) :
    ∃ ws, Words cs ws ∧ ws.map wordSymbol = ss := by
  induction h with
  | nil hgap => exact ⟨[], .nil hgap, rfl⟩
  | cons hgap hscan _ ih =>
    obtain ⟨ws, hws, rfl⟩ := ih
    refine ⟨_, .cons hgap hscan hws, ?_⟩
    rw [List.map_cons, wordSymbol, String.toList_ofList]

theorem map_symbol_of_map_word {ts : List Token} {ws : List (TokenKind × String)}
    (h : ts.map Token.word = ws ++ [(.eof, "")]) :
    ts.map Token.symbol = ws.map wordSymbol ++ [Symbol.leaf .eof] := by
  have hsymbols := congrArg (List.map wordSymbol) h
  rw [List.map_map, List.map_append] at hsymbols
  exact (List.map_congr_left fun t _ => (wordSymbol_word t).symm).trans hsymbols

theorem map_kind_of_map_symbol {ts : List Token} {ss : List Symbol}
    (h : ts.map Token.symbol = ss ++ [Symbol.leaf .eof]) :
    ts.map Token.kind = ss.map Symbol.kind ++ [.eof] := by
  have hkinds := congrArg (List.map Symbol.kind) h
  rwa [List.map_map, List.map_append] at hkinds

/-- A text that is read as symbols is tokenized, and its tokens have these symbols. -/
theorem tokenize_of_lexes {text : String} {ss : List Symbol} (h : Lexes text.toList ss) :
    ∃ ts, tokenize text = .ok ts ∧ ts.map Token.symbol = ss ++ [Symbol.leaf .eof] := by
  obtain ⟨ws, hws, rfl⟩ := h.words
  obtain ⟨ts, hts, hwords⟩ := tokenize_of_words hws
  exact ⟨ts, hts, map_symbol_of_map_word hwords⟩

/-- The tokens of a text have the symbols that the text is read as. -/
theorem lexes_of_tokenize {text : String} {ts : List Token} (h : tokenize text = .ok ts) :
    ∃ ss, Lexes text.toList ss ∧ ts.map Token.symbol = ss ++ [Symbol.leaf .eof] := by
  obtain ⟨ws, hws, hwords⟩ := words_of_tokenize h
  exact ⟨_, hws.lexes, map_symbol_of_map_word hwords⟩

/-! ## Reading is determined by the characters -/

theorem Lexes.unique {cs : List Char} {ss ss' : List Symbol} (h : Lexes cs ss) :
    Lexes cs ss' → ss = ss' := by
  induction h generalizing ss' with
  | nil hgap =>
    rintro (_ | ⟨hgap', -, -⟩)
    · rfl
    · rw [hgap] at hgap'
      cases hgap'
  | cons hgap hscan _ ih =>
    -- the gap and the scan are the same functions of the characters in both readings
    rintro (hgap' | ⟨hgap', hscan', h'⟩)
    · rw [hgap] at hgap'
      cases hgap'
    · rw [hgap] at hgap'
      cases hgap'
      rw [hscan] at hscan'
      cases hscan'
      rw [ih h']

/-- No symbol of a text marks the end of the input. -/
theorem Lexes.kind_ne_eof {cs : List Char} {ss : List Symbol} (h : Lexes cs ss) :
    ∀ s ∈ ss, s.kind ≠ .eof := by
  induction h with
  | nil => simp
  | @cons cs rest lexeme behind c kind ss hgap hscan _ ih =>
    have hproper := (scan_proper c rest).2
    rw [hscan] at hproper
    simp only [List.mem_cons, forall_eq_or_imp, symbolOf_kind]
    exact ⟨fun he => hproper (by rw [he]), ih⟩

/-- The symbols of a text; none if the text has a fault. -/
def textSymbols (text : String) : List Symbol :=
  match tokenize text with
  | .ok ts => (ts.map Token.symbol).dropLast
  | .error _ => []

theorem textSymbols_of_lexes {text : String} {ss : List Symbol} (h : Lexes text.toList ss) :
    textSymbols text = ss := by
  obtain ⟨ts, hts, hsymbols⟩ := tokenize_of_lexes h
  simp [textSymbols, hts, hsymbols]

end Lexer

end SqlGrammar
