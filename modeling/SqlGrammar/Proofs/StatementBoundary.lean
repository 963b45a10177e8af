import SqlGrammar.Proofs.Grammar.SteadyProductions
import SqlGrammar.Proofs.Parser.Levels

/-!
# The boundary of a statement

Tokens that are read in full as one tree are read as the same tree whatever stands behind a
semicolon after them: no production looks beyond the end of its tree (`goalsSteady`). A semicolon
alone changes nothing, and a token behind it is the error (`Rule.Completes.semicolon_boundary`).
-/

set_option autoImplicit false

namespace SqlGrammar

open SqlGrammar.Parser Grammar

/-- A value that a parser gives is given with any more levels too. -/
theorem Grammar.toExcept_of_depth_le {α : Type} {depth depth' : Nat} (hle : depth ≤ depth')
    {p : Production α} {c : Cursor} {v : α} (h : (Grammar.run depth p c).toExcept = .ok v) :
    (Grammar.run depth' p c).toExcept = .ok v := by
  cases hrun : Grammar.run depth p c with
  | failed error c₁ =>
    rw [hrun] at h
    cases h
  | done v' c₁ =>
    have hsame : Grammar.run depth' p c = Grammar.run depth p c := by
      refine run_of_room_le (P := productions) depth depth' hle p c fun hdeep => ?_
      rw [← runTop, ← Grammar.run, hrun] at hdeep
      exact hdeep
    rw [hsame, h]

/-- No token ahead of the start of a text marks the end of the input. -/
theorem Cursor.ne_eof_of_ofText {text : String} {c : Cursor} (h : Cursor.ofText text = .ok c) :
    ∀ t ∈ c.ahead, t.kind ≠ .eof := by
  obtain ⟨ts, hts, -⟩ := Lexer.ok_of_map_eq_ok h
  obtain ⟨c', hc', rfl⟩ := Cursor.exists_ofText hts
  cases hc'.symm.trans h
  obtain ⟨ss, hss, hsymbols⟩ := Lexer.lexes_of_tokenize hts
  rw [Cursor.tokens, List.map_append, List.map_singleton] at hsymbols
  obtain ⟨hahead, -⟩ := List.append_inj' hsymbols rfl
  intro t ht
  exact hss.kind_ne_eof t.symbol (hahead ▸ List.mem_map_of_mem ht)

/-- All tokens ahead of the cursor, no semicolon at their end, are read as one tree of the rule. -/
structure Rule.Completes (r : Rule) (depth : Nat) (c : Cursor) (tree : r.Tree) : Prop where
  ne_eof : ∀ t ∈ c.ahead, t.kind ≠ .eof
  ne_semicolon : ∀ t, c.ahead.getLast? = some t → t.kind ≠ .operator .semicolon
  parses : (Grammar.run depth (whole r) c).toExcept = .ok tree

/-! ## Ends -/

namespace Cursor

variable {c : Cursor}

theorem ahead_of_kindAt_zero (hkind : c.kindAt 0 = .eof) (h : ∀ t ∈ c.ahead, t.kind ≠ .eof) :
    c.ahead = [] := by
  cases hahead : c.ahead with
  | nil => rfl
  | cons t ts =>
    rw [c.kindAt_eq, symbols, hahead] at hkind
    exact absurd hkind (h t (by simp [hahead]))

theorem ahead_advance {t : Token} {ts : List Token} (hahead : c.ahead = t :: ts)
    (h : t.kind ≠ .eof) : c.advance.ahead = ts := by
  have ht : t.isEof = false := by simpa [Token.isEof] using h
  simp [advance, hahead, ht]

theorem kindAt_zero_of_ahead {t : Token} {ts : List Token} (hahead : c.ahead = t :: ts) :
    c.kindAt 0 = t.kind := by
  rw [c.kindAt_eq, symbols, hahead]
  rfl

end Cursor

section Ends

variable {G : Type} {Tree : G → Type} {P : Productions Tree} {limit room : Nat} {c c' : Cursor}

theorem run_expectEnd_of_eof (h : c.kindAt 0 = .eof) :
    (expectEnd : Parser Tree Unit).run P limit room _ c = .done () c := by
  have hne : c.kindAt 0 ≠ (Terminal.operator .semicolon).kind := by
    rw [h]
    exact (Terminal.kind_ne_eof _).symm
  rw [expectEnd, run_bind_of_done (run_accept_of_ne hne), kind,
    run_bind_of_done (run_look limit room c 0), h]
  exact run_pure limit room c ()

/-- Behind a semicolon the end of the input is looked for. -/
theorem run_expectEnd_of_semicolon (h : c.kindAt 0 = .operator .semicolon) :
    (expectEnd : Parser Tree Unit).run P limit room _ c =
      if c.advance.kindAt 0 = .eof then .done () c.advance
      else .failed (c.advance.unexpected ["end of input"]) c.advance := by
  rw [expectEnd, run_bind_of_done (run_accept_of_eq (t := .operator .semicolon) h), kind,
    run_bind_of_done (run_look limit room c.advance 0)]
  split
  · next heof => rw [if_pos heof, run_pure]
  · next hne => rw [if_neg hne, run_unexpected]

theorem run_expectEnd_of_ne (h : c.kindAt 0 ≠ .eof) (hsemi : c.kindAt 0 ≠ .operator .semicolon) :
    (expectEnd : Parser Tree Unit).run P limit room _ c =
      .failed (c.unexpected ["end of input"]) c := by
  rw [expectEnd, run_bind_of_done (run_accept_of_ne hsemi), kind,
    run_bind_of_done (run_look limit room c 0)]
  split
  · next heof => exact absurd heof h
  · exact run_unexpected limit room c _

/-- Only the end of the input is left, or a semicolon before it. -/
def Cursor.EndsInput (c : Cursor) : Prop :=
  c.kindAt 0 = .eof ∨ c.kindAt 0 = .operator .semicolon ∧ c.advance.kindAt 0 = .eof

theorem exists_run_expectEnd_iff :
    (∃ c', (expectEnd : Parser Tree Unit).run P limit room _ c = .done () c') ↔ c.EndsInput := by
  by_cases heof : c.kindAt 0 = .eof
  · exact ⟨fun _ => .inl heof, fun _ => ⟨c, run_expectEnd_of_eof heof⟩⟩
  · by_cases hsemi : c.kindAt 0 = .operator .semicolon
    · rw [run_expectEnd_of_semicolon hsemi]
      split <;> simp [Cursor.EndsInput, *]
    · simp [run_expectEnd_of_ne heof hsemi, Cursor.EndsInput, heof, hsemi]

theorem Cursor.EndsInput.ahead (hends : c.EndsInput) (h : ∀ t ∈ c.ahead, t.kind ≠ .eof) :
    c.ahead = [] ∨ ∃ t, c.ahead = [t] ∧ t.kind = .operator .semicolon := by
  rcases hends with heof | ⟨hsemi, heof⟩
  · exact .inl (Cursor.ahead_of_kindAt_zero heof h)
  · cases hahead : c.ahead with
    | nil => exact .inl rfl
    | cons t ts =>
      have hadvance := Cursor.ahead_advance hahead (h t (by simp [hahead]))
      have hts : ts = [] := by
        rw [← hadvance]
        refine Cursor.ahead_of_kindAt_zero heof fun u hu => h u ?_
        rw [hadvance] at hu
        simp [hahead, hu]
      rw [Cursor.kindAt_zero_of_ahead hahead] at hsemi
      exact .inr ⟨t, by rw [hts], hsemi⟩

end Ends

/-- A rule gives a tree up to the end of the input where it gives it and only the end is left. -/
theorem Grammar.parses_iff {r : Rule} {depth : Nat} {c : Cursor} {tree : r.Tree} :
    (Grammar.run depth (whole r) c).toExcept = .ok tree ↔
      ∃ c₁, r.parse.run productions depth depth _ c = .done tree c₁ ∧ c₁.EndsInput := by
  constructor
  · intro hparses
    cases hrun : Grammar.run depth (whole r) c with
    | failed error c₂ =>
      rw [hrun] at hparses
      cases hparses
    | done tree' c₂ =>
      rw [hrun] at hparses
      cases hparses
      rw [Grammar.run, runTop, whole] at hrun
      obtain ⟨tree₁, c₁, hfirst, hrest⟩ := exists_of_run_bind hrun
      obtain ⟨_, c₃, hexpect, hpure⟩ := exists_of_run_bind hrest
      rw [run_pure] at hpure
      cases hpure
      exact ⟨c₁, hfirst, exists_run_expectEnd_iff.1 ⟨_, hexpect⟩⟩
  · rintro ⟨c₁, hfirst, hends⟩
    obtain ⟨c₂, hexpect⟩ :
        ∃ c₂, (expectEnd : Production Unit).run productions depth depth _ c₁ = .done () c₂ :=
      exists_run_expectEnd_iff.2 hends
    rw [Grammar.run, runTop, whole, run_bind_of_done hfirst, run_bind_of_done hexpect, run_pure]
    rfl

/-! ## Behind a complete tree -/

/-- A rule that gives a tree up to the end of the input has left a semicolon at the most. -/
theorem Grammar.exists_run_of_parses {r : Rule} {depth : Nat} {c : Cursor} {tree : r.Tree}
    (hend : ∀ t ∈ c.ahead, t.kind ≠ .eof)
    (hparses : (Grammar.run depth (whole r) c).toExcept = .ok tree) :
    ∃ c₁, r.parse.run productions depth depth _ c = .done tree c₁ ∧ c₁.ahead <:+ c.ahead ∧
      (c₁.ahead = [] ∨ ∃ t, c₁.ahead = [t] ∧ t.kind = .operator .semicolon) := by
  obtain ⟨c₁, hrun, hends⟩ := parses_iff.1 hparses
  have hlead := run_located (P := productions) depth depth r.parse c
  rw [hrun] at hlead
  exact ⟨c₁, hrun, hlead.1, hends.ahead fun t ht => hend t (hlead.1.subset ht)⟩

namespace Rule.Completes

variable {r : Rule} {depth : Nat} {c c' : Cursor} {tree : r.Tree}

/-- The rule takes all tokens, and the end of the input is left. -/
theorem run_parse (h : r.Completes depth c tree) :
    ∃ c₁, r.parse.run productions depth depth _ c = .done tree c₁ ∧ c₁.ahead = [] := by
  obtain ⟨c₁, hrun, ⟨used, hused⟩, hnil | ⟨t, hone, hsemi⟩⟩ :=
    exists_run_of_parses h.ne_eof h.parses
  · exact ⟨c₁, hrun, hnil⟩
  · rw [hone] at hused
    exact absurd hsemi (h.ne_semicolon t (by rw [← hused, List.getLast?_concat]))

theorem of_depth_le (h : r.Completes depth c tree) {depth' : Nat} (hle : depth ≤ depth') :
    r.Completes depth' c tree :=
  ⟨h.ne_eof, h.ne_semicolon, toExcept_of_depth_le hle h.parses⟩

/-- Before a closing token the rule gives the same tree and stops there, or it refuses the token,
which then adds another query. -/
theorem run_before_closing (h : r.Completes depth c tree) {s : Token} {more : List Token}
    (hs : s.kind.Closes) (hahead : c'.ahead = c.ahead ++ s :: more) :
    ∃ c₂ : Cursor, c₂.ahead = s :: more ∧
      (r.parse.run productions depth depth _ c' = .done tree c₂ ∨
        s.kind.addsQuery = true ∧ r.parse.run productions depth depth _ c' =
          .failed (c₂.unsupported "compound SELECT") c₂) := by
  obtain ⟨c₁, hrun, hnil⟩ := h.run_parse
  have hsymbols : c'.symbols = c.symbols ++ s.symbol :: more.map Token.symbol := by
    rw [Cursor.symbols, hahead, List.map_append, List.map_cons, ← Cursor.symbols]
  have hkept := (goalsSteady depth depth (.rule r) c tree c₁ hrun).2 c' s.symbol _ hs hsymbols
  have hlead := (run_located (P := productions) depth depth r.parse c').leadsTo
  -- as many tokens are left as stand behind the tree
  have heq : ∀ c₂ : Cursor, c'.LeadsTo c₂ → c₂.symbols = s.symbol :: more.map Token.symbol →
      c₂.ahead = s :: more := by
    rintro c₂ ⟨hsuffix, -⟩ hleft
    have hlength := congrArg List.length hleft
    rw [hahead] at hsuffix
    refine (List.suffix_of_suffix_length_le hsuffix (List.suffix_append _ _) ?_).eq_of_length ?_
    all_goals simp [Cursor.symbols] at hlength ⊢; omega
  rw [parse] at hlead ⊢
  generalize (Parser.goal (.rule r)).run productions depth depth _ c' = reply at hkept hlead
  cases hkept with
  | @done c₂ hleft =>
    have hnone : c₁.symbols = [] := by rw [Cursor.symbols, hnil, List.map_nil]
    rw [hnone, List.nil_append] at hleft
    exact ⟨c₂, heq c₂ hlead hleft, .inl rfl⟩
  | @refused c₂ hadds hleft =>
    have hahead₂ := heq c₂ hlead hleft
    rw [Cursor.kindAt_zero_of_ahead hahead₂] at hadds
    exact ⟨c₂, hahead₂, .inr ⟨hadds, rfl⟩⟩

/-- With a semicolon behind, the end of the input is looked for behind that. -/
theorem run_whole_before_semicolon (h : r.Completes depth c tree) {s : Token} {more : List Token}
    (hs : s.kind = .operator .semicolon) (hahead : c'.ahead = c.ahead ++ s :: more) :
    ∃ c₂ : Cursor, c₂.ahead = more ∧ Grammar.run depth (whole r) c' =
      if c₂.kindAt 0 = .eof then .done tree c₂
      else .failed (c₂.unexpected ["end of input"]) c₂ := by
  obtain ⟨c₁, hahead₁, hrun | ⟨hadds, -⟩⟩ := h.run_before_closing (hs ▸ .semicolon) hahead
  · have hsemi : c₁.kindAt 0 = .operator .semicolon := by
      rw [Cursor.kindAt_zero_of_ahead hahead₁, hs]
    refine ⟨c₁.advance, Cursor.ahead_advance hahead₁ (by simp [hs]), ?_⟩
    rw [Grammar.run, runTop, whole, run_bind_of_done hrun]
    split
    · next heof =>
      rw [run_bind_of_done ((run_expectEnd_of_semicolon hsemi).trans (if_pos heof)), run_pure]
    · next hne =>
      exact run_bind_of_failed ((run_expectEnd_of_semicolon hsemi).trans (if_neg hne))
  · rw [hs] at hadds
    cases hadds

/-- The first token behind the semicolon is an error. -/
theorem run_whole_of_more (h : r.Completes depth c tree) {semi t : Token} {more : List Token}
    (hsemi : semi.kind = .operator .semicolon) (ht : t.kind ≠ .eof)
    (hahead : c'.ahead = c.ahead ++ semi :: t :: more) :
    (Grammar.run depth (whole r) c').toExcept =
      .error (.unexpected ["end of input"] t.kind t.span) := by
  obtain ⟨c₂, hahead₂, hrun⟩ := h.run_whole_before_semicolon hsemi hahead
  rw [hrun, if_neg (by rwa [Cursor.kindAt_zero_of_ahead hahead₂]), Reply.toExcept,
    Cursor.unexpected, Cursor.current, hahead₂]
  rfl

/-- Behind the tokens of a complete tree (`Rule.Completes`) a semicolon makes no difference, and the
first token behind that is unexpected, if there is any; `parseRule` accepts a text with such tokens
under no limit. -/
theorem semicolon_boundary (h : r.Completes depth c tree) (semi : Token)
    (hsemi : semi.kind = .operator .semicolon) :
    (∀ c' : Cursor, c'.ahead = c.ahead ++ [semi] →
        (Grammar.run depth (whole r) c').toExcept = .ok tree) ∧
      (∀ (c' : Cursor) (t : Token) (more : List Token), t.kind ≠ .eof →
        c'.ahead = c.ahead ++ semi :: t :: more →
          (Grammar.run depth (whole r) c').toExcept =
            .error (.unexpected ["end of input"] t.kind t.span)) ∧
      ∀ (text : String) (c' : Cursor) (t : Token) (more : List Token),
        Cursor.ofText text = .ok c' → c'.ahead = c.ahead ++ semi :: t :: more →
          ∀ depth' tree', parseRule r text depth' ≠ .ok tree' := by
  refine ⟨fun c' hahead => ?_, fun c' t more => h.run_whole_of_more hsemi,
    fun text c' t more htext hahead depth' tree' hparse => ?_⟩
  · obtain ⟨c₂, hahead₂, hrun⟩ := h.run_whole_before_semicolon hsemi hahead
    have heof : c₂.kindAt 0 = .eof :=
      Cursor.kindAt_of_remaining_le (by simp [Cursor.remaining, hahead₂])
    rw [hrun, if_pos heof]
    rfl
  · -- the larger of both numbers of levels is enough for both runs
    have ht : t.kind ≠ .eof := Cursor.ne_eof_of_ofText htext t (by simp [hahead])
    have hmore := (h.of_depth_le (Nat.le_max_left depth depth')).run_whole_of_more hsemi ht hahead
    rw [parseRule_of_ofText htext] at hparse
    rw [Grammar.toExcept_of_depth_le (Nat.le_max_right depth depth') hparse] at hmore
    cases hmore

end Rule.Completes

/-- The cursor at the start of `SELECT a`. -/
def atSelect : Cursor :=
  ⟨[⟨.keyword .SELECT, "SELECT", ⟨0, 6⟩⟩, ⟨.identifier "a", "a", ⟨7, 8⟩⟩], .eof 8, rfl⟩

/-- The query `SELECT a`. -/
def selectA : Select := .mk false [.expr (.column none none "a") none] [] none [] none [] none

theorem completes_selectA : Rule.select.Completes 4 atSelect selectA :=
  ⟨by decide, by decide, Lexer.ok_of_toOption (by decide)⟩

/-- The query is the same with a semicolon, and a name behind that is an error at the name. -/
theorem Rule.Completes.semicolon_boundary_select :
    Rule.select.Completes 4 atSelect selectA ∧
      (Grammar.run 4 (whole .select)
        ⟨atSelect.ahead ++ [⟨.operator .semicolon, ";", ⟨8, 9⟩⟩], .eof 9, rfl⟩).toExcept =
          .ok selectA ∧
      (Grammar.run 4 (whole .select)
        ⟨atSelect.ahead ++ [⟨.operator .semicolon, ";", ⟨8, 9⟩⟩,
          ⟨.identifier "b", "b", ⟨10, 11⟩⟩], .eof 11, rfl⟩).toExcept =
          .error (.unexpected ["end of input"] (.identifier "b") ⟨10, 11⟩) ∧
      ∀ depth tree', parseRule .select "SELECT a; b" depth ≠ .ok tree' := by
  obtain ⟨hsame, herror, hnever⟩ :=
    completes_selectA.semicolon_boundary ⟨.operator .semicolon, ";", ⟨8, 9⟩⟩ rfl
  have htext : Cursor.ofText "SELECT a; b" =
      .ok ⟨atSelect.ahead ++ [⟨.operator .semicolon, ";", ⟨8, 9⟩⟩,
        ⟨.identifier "b", "b", ⟨10, 11⟩⟩], .eof 11, rfl⟩ :=
    Lexer.ok_of_toOption (by decide)
  exact ⟨completes_selectA, hsame _ rfl, herror _ ⟨.identifier "b", "b", ⟨10, 11⟩⟩ [] nofun rfl,
    hnever _ _ _ _ htext rfl⟩

end SqlGrammar
