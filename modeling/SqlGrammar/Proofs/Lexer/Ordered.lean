import SqlGrammar.Parse
import SqlGrammar.Proofs.Lexer.Lexes
import SqlGrammar.Proofs.Lexer.Tiling
import SqlGrammar.Proofs.Parser.Located

/-!
# The tokens of a text stand in order

Each token of a text starts before those behind it, the end of the input included
(`tokens_ordered`). A cursor among such tokens can therefore be told from its offset: where one
cursor leads to another, the tokens under them start at the same offset only if the cursors are the
same (`Cursor.Ordered.start_eq_iff`).
-/

set_option autoImplicit false

namespace SqlGrammar

/-! ## Tokens -/

/-- Every token starts before the tokens behind it. -/
def TokensOrdered (ts : List Token) : Prop := ts.Pairwise fun s t => s.span.start < t.span.start

namespace Lexer

/-- What reading on collects stands in order, and not before the place where reading starts. -/
theorem results_ordered :
    ∀ (n : Nat) (l : Lexer) (ts : List Token), collect (results n l) = .ok ts →
      TokensOrdered ts ∧ ∀ t ∈ ts, l.offset ≤ t.span.start := by
  intro n
  induction n with
  | zero =>
    intro l ts h
    cases h
    exact ⟨.nil, by simp⟩
  | succ n ih =>
    intro l ts h
    have hskip : l.offset ≤ l.skipGap.offset := Nat.le_add_right _ _
    cases hgap : (splitGap .between l.rest).2 with
    | nil =>
      have hts : [Token.eof l.skipGap.offset] = ts := by
        simpa [results, next_of_gap hgap, collect, Token.isEof, Token.eof, Except.map] using h
      subst hts
      exact ⟨List.pairwise_singleton _ _, by simpa [Token.eof, Span.point] using hskip⟩
    | cons c rest =>
      have hnext := next_of_scan hgap
      have hproper := scan_proper c rest
      rcases hscan : scan c rest with ⟨verdict, lexeme, behind⟩
      rw [hscan] at hnext hproper
      cases verdict with
      | error fault => simp [results, hnext, report, collect] at h
      | ok kind =>
        have hkind : (kind == .eof) = false := by
          apply beq_eq_false_iff_ne.2
          intro he
          exact hproper.2 (by rw [he])
        simp only [results, hnext, report_ok, collect, Token.isEof, hkind, Bool.false_eq_true,
          if_false] at h
        obtain ⟨ts', hts', rfl⟩ := ok_of_map_eq_ok h
        obtain ⟨hordered, hbehind⟩ := ih _ ts' hts'
        -- the token has a character, so that what is behind it starts further on
        have hpos := utf8Length_pos hproper.1
        constructor
        · apply List.Pairwise.cons
          · intro t ht
            have := hbehind t ht
            dsimp only at this hpos ⊢
            omega
          · exact hordered
        · intro t ht
          rcases List.mem_cons.1 ht with rfl | ht
          · exact hskip
          · have := hbehind t ht
            dsimp only at this
            omega

theorem tokens_ordered {text : String} {ts : List Token} (h : tokenize text = .ok ts) :
    TokensOrdered ts :=
  (results_ordered _ _ ts h).1

/-- The last token of a text is the end of the input. -/
theorem exists_last_of_tokenize {text : String} {ts : List Token} (h : tokenize text = .ok ts) :
    ∃ init last, ts = init ++ [last] ∧ last.isEof = true := by
  obtain ⟨ws, -, hwords⟩ := words_of_tokenize h
  obtain ⟨init, lasts, rfl, -, hlasts⟩ := List.map_eq_append_iff.1 hwords
  obtain ⟨last, rfl, hlast⟩ := List.map_eq_singleton_iff.1 hlasts
  refine ⟨init, last, rfl, ?_⟩
  have hkind : last.kind = .eof := congrArg Prod.fst hlast
  simp [Token.isEof, hkind]

end Lexer

/-! ## Cursors -/

namespace Cursor

/-- The tokens from the cursor on, the last one of all included. -/
def tokens (c : Cursor) : List Token := c.ahead ++ [c.final]

/-- The tokens from the cursor on stand in order. -/
def Ordered (c : Cursor) : Prop := TokensOrdered c.tokens

variable {c c' : Cursor}

theorem tokens_ofTokens {init : List Token} {last : Token} (h : last.isEof = true) :
    (ofTokens (init ++ [last])).tokens = init ++ [last] := by
  simp [ofTokens, h, tokens]

/-- The tokens of a text are ahead of the cursor at its start. -/
theorem exists_ofText {text : String} {ts : List Token} (h : tokenize text = .ok ts) :
    ∃ c, ofText text = .ok c ∧ c.tokens = ts := by
  obtain ⟨init, last, rfl, hlast⟩ := Lexer.exists_last_of_tokenize h
  exact ⟨ofTokens (init ++ [last]), by rw [ofText, h]; rfl, tokens_ofTokens hlast⟩

theorem ordered_ofText {text : String} (h : ofText text = .ok c) : c.Ordered := by
  obtain ⟨ts, hts, -⟩ := Lexer.ok_of_map_eq_ok h
  obtain ⟨c', hc', rfl⟩ := exists_ofText hts
  cases hc'.symm.trans h
  exact Lexer.tokens_ordered hts

theorem current_mem_tokens (c : Cursor) : c.current ∈ c.tokens := by
  obtain ⟨ahead, final, hfinal⟩ := c
  cases ahead <;> simp [current, tokens]

theorem LeadsTo.tokens_suffix (h : c.LeadsTo c') : c'.tokens <:+ c.tokens := by
  obtain ⟨⟨used, hused⟩, hfinal⟩ := h
  exact ⟨used, by rw [tokens, tokens, ← hused, hfinal, List.append_assoc]⟩

theorem Ordered.of_leadsTo (h : c.Ordered) (hlead : c.LeadsTo c') : c'.Ordered :=
  h.sublist hlead.tokens_suffix.sublist

/-- A token further on starts at a larger offset. -/
theorem Ordered.start_lt (h : c.Ordered) (hlead : c.LeadsTo c')
    (hlt : c'.remaining < c.remaining) : c.current.span.start < c'.current.span.start := by
  obtain ⟨ahead, final, hfinal⟩ := c
  obtain ⟨⟨used, hused⟩, hsame⟩ := hlead
  cases used with
  | nil =>
    dsimp only at hused
    subst hused
    exact absurd hlt (Nat.lt_irrefl _)
  | cons t used =>
    dsimp only at hused hsame
    subst hused
    -- the token under the second cursor is one of those behind the first token
    have hmem : c'.current ∈ used ++ c'.ahead ++ [final] := by
      have hcurrent := c'.current_mem_tokens
      rw [tokens, hsame] at hcurrent
      rw [List.append_assoc]
      exact List.mem_append_right used hcurrent
    exact List.rel_of_pairwise_cons h hmem

/-- Tokens start at the same offset only where a cursor has not moved. -/
theorem Ordered.start_eq_iff (h : c.Ordered) (hlead : c.LeadsTo c') :
    c'.current.span.start = c.current.span.start ↔ c' = c := by
  constructor
  · intro heq
    apply hlead.eq_of_remaining
    rcases Nat.lt_or_ge c'.remaining c.remaining with hlt | hge
    · have := h.start_lt hlead hlt
      omega
    · exact hge
  · rintro rfl
    rfl

/-- Of two places in a text, the offsets tell whether they are the same. -/
theorem start_eq_iff_of_ofText {text : String} {start : Cursor} (h : ofText text = .ok start)
    (hc : start.LeadsTo c) (hc' : start.LeadsTo c') :
    c'.current.span.start = c.current.span.start ↔ c' = c := by
  have hordered := ordered_ofText h
  -- one of the two leads to the other
  rcases List.suffix_or_suffix_of_suffix hc.1 hc'.1 with hsuffix | hsuffix
  · have hlead : c'.LeadsTo c := ⟨hsuffix, hc.2.trans hc'.2.symm⟩
    rw [eq_comm, (hordered.of_leadsTo hc').start_eq_iff hlead, eq_comm]
  · have hlead : c.LeadsTo c' := ⟨hsuffix, hc'.2.trans hc.2.symm⟩
    exact (hordered.of_leadsTo hc).start_eq_iff hlead

end Cursor

end SqlGrammar
