import SqlGrammar.Proofs.Depth
import SqlGrammar.Proofs.Refusal
import SqlGrammar.Proofs.ViablePrefix

/-!
# What errors of statements name is accepted

Where a statement is refused because of an unexpected token, the error names terminals in the place
of that token. Each of them could stand there, with a statement going on behind it, except for those
that are refused (`expected_accepted_unless_refused`): a join anywhere, and behind `CREATE` and a
word the objects that the word does not suit.
-/

set_option autoImplicit false

namespace SqlGrammar

open SqlGrammar.Parser Grammar

/-! ## Starts of statements -/

/-- The spelling of a terminal. -/
def Terminal.word (t : Terminal) : TokenKind × String := (t.kind, t.text)

theorem Filler.word_terminal (t : Terminal) : (Filler.terminal t).word = t.word := by
  cases t <;> rfl

/-- There is a statement whose tokens start with these, as they are spelled. -/
def StartsStatement (words : List (TokenKind × String)) : Prop :=
  ∃ (text : String) (ts : List Token) (completion : List (TokenKind × String)) (depth : Nat)
    (tree : Statement),
    tokenize text = .ok ts ∧ ts.map Token.word = words ++ completion ∧
      parseRule .statement text depth = .ok tree

/-- There is a text whose tokens start with these, as they are spelled, that is refused because of a
token that stands behind them. -/
def RefusedOnlyLater (words : List (TokenKind × String)) : Prop :=
  ∃ (text : String) (ts : List Token) (completion : List (TokenKind × String)) (depth : Nat)
    (expected : List String) (found : TokenKind) (i : Nat) (t : Token),
    tokenize text = .ok ts ∧ ts.map Token.word = words ++ completion ∧
      parseRule .statement text depth = .error (.unexpected expected found t.span) ∧
      ts[i]? = some t ∧ words.length ≤ i

theorem TokensOrdered.index_eq {ts : List Token} {i j : Nat} {s t : Token} (h : TokensOrdered ts)
    (hi : ts[i]? = some s) (hj : ts[j]? = some t) (hsame : s.span = t.span) : i = j := by
  have hlt {i j : Nat} {s t : Token} (hi : ts[i]? = some s) (hj : ts[j]? = some t) (hij : i < j) :
      s.span.start < t.span.start := by
    obtain ⟨hi', rfl⟩ := List.getElem?_eq_some_iff.1 hi
    obtain ⟨hj', rfl⟩ := List.getElem?_eq_some_iff.1 hj
    exact List.pairwise_iff_getElem.1 h i j hi' hj' hij
  rcases Nat.lt_trichotomy i j with hij | hij | hij
  · have := hlt hi hj hij
    rw [hsame] at this
    omega
  · exact hij
  · have := hlt hj hi hij
    rw [hsame] at this
    omega

/-- Errors are not late: what stands before a later error starts a statement. -/
theorem startsStatement_of_refusedOnlyLater {words : List (TokenKind × String)}
    (h : RefusedOnlyLater words) : StartsStatement words := by
  obtain ⟨text, ts, completion, depth, expected, found, i, t, htext, hwords, hfail, ht, hle⟩ := h
  obtain ⟨j, t', ht', -, hspan, hmore⟩ := exists_completed_text htext hfail
  obtain rfl : i = j := (Lexer.tokens_ordered htext).index_eq ht ht' hspan.symm
  obtain ⟨text', ts', completion', depth', tree, htext', hwords', hparse⟩ := hmore [] .something
  have htake : (ts.take i).map Token.word = words ++ completion.take (i - words.length) := by
    rw [List.map_take, hwords, List.take_append, List.take_of_length_le hle]
  rw [htake, List.map_nil, List.append_nil, List.append_assoc] at hwords'
  exact ⟨text', ts', _, depth', tree, htext', hwords', hparse⟩

/-! ## What is refused -/

theorem refusedBehind_iff {before : List TokenKind} {t : Terminal} : RefusedBehind before t ↔
    t.isRefused = true ∨
      ∃ word ∈ [Keyword.TEMP, .TEMPORARY, .UNIQUE],
        ∃ object ∈ [ObjectKind.table, .index, .view, .trigger], object.admits word = false ∧
          before = [.keyword .CREATE, .keyword word] ∧ t = object.keyword := by
  constructor
  · rintro (⟨_, h⟩ | @⟨word, object, hmodifies, hunfit⟩)
    · exact .inl h
    · refine .inr ⟨word, ?_, object, by cases object <;> decide, hunfit, rfl, rfl⟩
      cases word <;> first | decide | cases hmodifies
  · rintro (h | ⟨word, hword, object, -, hunfit, rfl, rfl⟩)
    · exact .everywhere _ h
    · refine .object ?_ hunfit
      simp only [List.mem_cons, List.not_mem_nil, or_false] at hword
      rcases hword with rfl | rfl | rfl <;> rfl

instance (before : List TokenKind) (t : Terminal) : Decidable (RefusedBehind before t) :=
  decidable_of_iff _ refusedBehind_iff.symm

theorem Cursor.kindAt_of_getElem? {c : Cursor} {n : Nat} {kind : TokenKind}
    (h : (c.tokens.map Token.kind)[n]? = some kind) : c.kindAt n = kind := by
  rw [List.getElem?_map, Option.map_eq_some_iff] at h
  obtain ⟨t, ht, rfl⟩ := h
  rw [tokens] at ht
  rw [kindAt, peek]
  by_cases hn : n < c.ahead.length
  · rw [List.getElem?_append_left hn] at ht
    rw [ht]
    rfl
  · rw [Nat.not_lt] at hn
    rw [List.getElem?_append_right hn] at ht
    rw [List.getElem?_eq_none hn, List.mem_singleton.1 (List.mem_of_getElem? ht)]
    rfl

section Refused

variable {text : String} {ts : List Token} {depth : Nat} {tree : Statement}

/-- A terminal that is refused everywhere is part of no statement. -/
theorem isRefused_eq_false_of_parses (htext : tokenize text = .ok ts)
    (hparse : parseRule .statement text depth = .ok tree) {t : Terminal}
    (ht : t.kind ∈ ts.map Token.kind) : t.isRefused = false := by
  obtain ⟨c, hc, rfl⟩ := Cursor.exists_ofText htext
  rw [parseRule_of_ofText hc] at hparse
  obtain ⟨token, htoken, hkind⟩ := List.mem_map.1 ht
  rcases List.mem_append.1 htoken with hahead | hfinal
  · have hproper := isProper_of_parses (Cursor.ne_eof_of_ofText hc) hparse token hahead
    rw [hkind] at hproper
    cases t with
    | keyword word => rwa [Terminal.kind, TokenKind.isProper, Bool.not_eq_true'] at hproper
    | operator sign => rfl
  · rw [List.mem_singleton.1 hfinal, c.kind_final] at hkind
    exact absurd hkind.symm t.kind_ne_eof

/-- No statement creates an object that the word behind `CREATE` does not suit. -/
theorem admits_of_parses {word : Keyword} {object : ObjectKind} {kinds : List TokenKind}
    (htext : tokenize text = .ok ts) (hparse : parseRule .statement text depth = .ok tree)
    (hkinds : ts.map Token.kind =
      [.keyword .CREATE, .keyword word, .keyword object.keyword] ++ kinds)
    (hmodifies : modifiesCreation (.keyword word) = true) : object.admits word = true := by
  obtain ⟨c, hc, rfl⟩ := Cursor.exists_ofText htext
  -- two levels more make no difference
  have hdeeper : parseRule .statement text (depth + 2) = .ok tree := by
    rw [parseRule_eq_of_le (Nat.le_add_right depth 2) (fun error herror => ?_), hparse]
    rw [hparse] at herror
    cases herror
  have hkind {n : Nat} {kind : TokenKind} (h : ([TokenKind.keyword .CREATE, .keyword word,
      .keyword object.keyword] ++ kinds)[n]? = some kind) : c.kindAt n = kind :=
    Cursor.kindAt_of_getElem? (hkinds ▸ h)
  cases hadmits : object.admits word with
  | true => rfl
  | false =>
    rw [parseRule_of_ofText hc, run_whole_statement_of_failed
      (run_statement_of_not_admits (hkind rfl) (hkind rfl) (hkind rfl) hmodifies hadmits)]
      at hdeeper
    cases hdeeper

/-- What is refused starts no statement. -/
theorem not_startsStatement_of_refusedBehind {before : List (TokenKind × String)} {t : Terminal}
    (h : RefusedBehind (before.map Prod.fst) t) : ¬ StartsStatement (before ++ [t.word]) := by
  rintro ⟨text, ts, completion, depth, tree, htext, hwords, hparse⟩
  have hkinds : ts.map Token.kind =
      before.map Prod.fst ++ [t.kind] ++ completion.map Prod.fst := by
    have hfirst := congrArg (List.map Prod.fst) hwords
    rw [List.map_append, List.map_append, List.map_map] at hfirst
    exact hfirst
  generalize before.map Prod.fst = kinds at h hkinds
  cases h with
  | everywhere _ hrefused =>
    have hmem : t.kind ∈ ts.map Token.kind := by
      rw [hkinds]
      simp
    rw [isRefused_eq_false_of_parses htext hparse hmem] at hrefused
    cases hrefused
  | object hmodifies hunfit =>
    rw [admits_of_parses htext hparse hkinds hmodifies] at hunfit
    cases hunfit

end Refused

/-! ## What is named -/

/-- Where a statement is refused because of an unexpected token, each terminal that the error names
could stand in its place with some statement behind it (`StartsStatement`), unless the terminal is
refused there (`RefusedBehind`). With one that is refused there is no statement, nor a text that
fails only behind it (`RefusedOnlyLater`). -/
theorem expected_accepted_unless_refused {text : String} {ts : List Token} {depth : Nat}
    {expected : List String} {found : TokenKind} {span : Span} (htext : tokenize text = .ok ts)
    (hfail : parseRule .statement text depth = .error (.unexpected expected found span)) :
    ∃ i t, ts[i]? = some t ∧ t.kind = found ∧ t.span = span ∧
      ∀ terminal : Terminal, terminal.text ∈ expected →
        (¬ RefusedBehind ((ts.take i).map Token.kind) terminal →
          StartsStatement ((ts.take i).map Token.word ++ [terminal.word])) ∧
        (RefusedBehind ((ts.take i).map Token.kind) terminal →
          ¬ StartsStatement ((ts.take i).map Token.word ++ [terminal.word]) ∧
            ¬ RefusedOnlyLater ((ts.take i).map Token.word ++ [terminal.word])) := by
  obtain ⟨i, t, ht, hfound, hspan, hmore⟩ := exists_completed_text htext hfail
  refine ⟨i, t, ht, hfound, hspan, fun terminal hnamed => ⟨fun hnot => ?_, fun hrefused => ?_⟩⟩
  · obtain ⟨text', ts', completion, depth', tree, htext', hwords, hparse⟩ :=
      hmore [.terminal terminal] (.named (Terminal.mem_named.2 hnamed) hnot)
    rw [List.map_singleton, Filler.word_terminal] at hwords
    exact ⟨text', ts', completion, depth', tree, htext', hwords, hparse⟩
  · have hbefore : RefusedBehind (((ts.take i).map Token.word).map Prod.fst) terminal := by
      rw [List.map_map]
      exact hrefused
    have hnot := not_startsStatement_of_refusedBehind hbefore
    exact ⟨hnot, fun hlater => hnot (startsStatement_of_refusedOnlyLater hlater)⟩

/-- The tokens of `CREATE TEMP x`. -/
def createTempTokens : List Token :=
  [⟨.keyword .CREATE, "CREATE", ⟨0, 6⟩⟩, ⟨.keyword .TEMP, "TEMP", ⟨7, 11⟩⟩,
    ⟨.identifier "x", "x", ⟨12, 13⟩⟩, .eof 13]

/-- All four objects are named behind `CREATE TEMP`. A table may be created there, but no index. -/
theorem expected_accepted_unless_refused_temp :
    tokenize "CREATE TEMP x" = .ok createTempTokens ∧
      parseRule .statement "CREATE TEMP x" 4 =
        .error (.unexpected ["TABLE", "INDEX", "VIEW", "TRIGGER"] (.identifier "x") ⟨12, 13⟩) ∧
      StartsStatement
        [(.keyword .CREATE, "CREATE"), (.keyword .TEMP, "TEMP"), (.keyword .TABLE, "TABLE")] ∧
      ¬ StartsStatement
        [(.keyword .CREATE, "CREATE"), (.keyword .TEMP, "TEMP"), (.keyword .INDEX, "INDEX")] := by
  have htext : tokenize "CREATE TEMP x" = .ok createTempTokens :=
    Lexer.ok_of_toOption (by decide +kernel)
  have hfail : parseRule .statement "CREATE TEMP x" 4 =
      .error (.unexpected ["TABLE", "INDEX", "VIEW", "TRIGGER"] (.identifier "x") ⟨12, 13⟩) :=
    Lexer.error_of_failure? (by decide +kernel)
  obtain ⟨i, t, ht, -, hspan, hnamed⟩ := expected_accepted_unless_refused htext hfail
  obtain rfl : i = 2 := (Lexer.tokens_ordered htext).index_eq (j := 2) ht rfl hspan
  exact ⟨htext, hfail, (hnamed Keyword.TABLE (by decide)).1 (by decide),
    ((hnamed Keyword.INDEX (by decide)).2 (by decide)).1⟩

end SqlGrammar
