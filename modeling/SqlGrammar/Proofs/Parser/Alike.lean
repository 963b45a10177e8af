import SqlGrammar.Proofs.Lexer.Ordered

/-!
# Parsers see symbols only

Two runs of one parser, at cursors with the same symbols ahead, go the same way: they give the same
value, or fail for the same cause, and stop before the same symbols (`run_alike`). Offsets are
compared where an attempt fails; the outcome is the same in both runs, because the tokens of either
run stand in order.
-/

set_option autoImplicit false

namespace SqlGrammar

/-! ## Cursors before the same symbols -/

namespace Cursor

variable {c c' c₁ c₂ : Cursor}

theorem remaining_eq_of_symbols (h : c₁.symbols = c₂.symbols) : c₁.remaining = c₂.remaining := by
  rw [← c₁.length_symbols, ← c₂.length_symbols, h]

theorem symbols_advance_eq (h : c₁.symbols = c₂.symbols) :
    c₁.advance.symbols = c₂.advance.symbols := by
  cases hsymbols : c₁.symbols with
  | nil =>
    have hnil : ∀ c : Cursor, c.symbols = [] → c.advance.symbols = [] := by
      intro c hc
      have hahead : c.ahead = [] := List.map_eq_nil_iff.1 hc
      rw [advance, hahead]
      exact hc
    rw [hnil c₁ hsymbols, hnil c₂ (h ▸ hsymbols)]
  | cons s ss =>
    by_cases hs : s.kind = .eof
    · -- an end of the input in between is not passed
      have hstay : ∀ c : Cursor, c.symbols = s :: ss → c.advance = c := by
        intro c hc
        obtain ⟨t, ts, hahead, rfl, -⟩ := List.map_eq_cons_iff.1 hc
        have ht : t.isEof = true := by simpa [Token.isEof] using hs
        simp [advance, hahead, ht]
      rw [hstay c₁ hsymbols, hstay c₂ (h ▸ hsymbols), h]
    · rw [symbols_advance hsymbols hs, symbols_advance (h ▸ hsymbols) hs]

/-- Where two runs have moved through the same symbols, they have both moved or both not. -/
theorem LeadsTo.eq_iff {c₁' c₂' : Cursor} (h₁ : c₁.LeadsTo c₁') (h₂ : c₂.LeadsTo c₂')
    (h : c₁.symbols = c₂.symbols) (h' : c₁'.symbols = c₂'.symbols) : c₁' = c₁ ↔ c₂' = c₂ := by
  have hsame := remaining_eq_of_symbols h
  have hsame' := remaining_eq_of_symbols h'
  constructor
  · rintro rfl
    exact h₂.eq_of_remaining (by omega)
  · rintro rfl
    exact h₁.eq_of_remaining (by omega)

end Cursor

theorem Cause.expected_errorAt (cause : Cause) (t₁ t₂ : Token) :
    (cause.errorAt t₁).expected = (cause.errorAt t₂).expected := by
  cases cause <;> rfl

/-! ## Replies that are alike -/

/-- Two replies give the same value, or fail for the same cause, before the same symbols. -/
inductive Reply.Alike {α : Type} : Reply α → Reply α → Prop
  | done {v : α} {c₁ c₂ : Cursor} : c₁.symbols = c₂.symbols → Alike (.done v c₁) (.done v c₂)
  | failed (cause : Cause) {c₁ c₂ : Cursor} : c₁.symbols = c₂.symbols →
      Alike (.failed (cause.errorAt c₁.current) c₁) (.failed (cause.errorAt c₂.current) c₂)

/-- Before the same symbols, among tokens in order, the action replies alike. -/
def Action.Alike {α : Type} (action : Action α) : Prop :=
  ∀ c₁ c₂, c₁.Ordered → c₂.Ordered → c₁.symbols = c₂.symbols → (action c₁).Alike (action c₂)

namespace Action

variable {α σ : Type}

/-- An attempt that is given up in one run is given up in the other. -/
theorem Alike.attempt {action : Action α} (hlocated : action.Located) (h : action.Alike) :
    (Action.attempt action).Alike := by
  intro c₁ c₂ ho₁ ho₂ hsymbols
  have hreply := h c₁ c₂ ho₁ ho₂ hsymbols
  have hl₁ := hlocated c₁
  have hl₂ := hlocated c₂
  rw [Action.attempt, Action.attempt]
  generalize action c₁ = r₁ at hreply hl₁ ⊢
  generalize action c₂ = r₂ at hreply hl₂ ⊢
  cases hreply with
  | done hsymbols' => exact .done hsymbols'
  | @failed cause c₁' c₂' hsymbols' =>
    -- either run has taken a token, or neither has
    have hmoved : (c₁'.current.span.start == c₁.current.span.start) =
        (c₂'.current.span.start == c₂.current.span.start) := by
      rw [Bool.eq_iff_iff, beq_iff_eq, beq_iff_eq, ho₁.start_eq_iff hl₁.1, ho₂.start_eq_iff hl₂.1]
      exact hl₁.1.eq_iff hl₂.1 hsymbols hsymbols'
    dsimp only
    rw [Cause.isMismatchAt_errorAt, Cause.isMismatchAt_errorAt, hmoved,
      cause.expected_errorAt c₁'.current c₂'.current]
    split
    · exact .done hsymbols
    · exact .failed _ hsymbols'

theorem Alike.iterate {step : σ → Action (Option σ)} (hlocated : ∀ s, (step s).Located)
    (h : ∀ s, (step s).Alike) : ∀ rounds s, (Action.iterate step rounds s).Alike := by
  intro rounds
  induction rounds with
  | zero => exact fun s c₁ c₂ _ _ hsymbols => .done hsymbols
  | succ rounds ih =>
    intro s c₁ c₂ ho₁ ho₂ hsymbols
    have hreply := h s c₁ c₂ ho₁ ho₂ hsymbols
    have hl₁ := hlocated s c₁
    have hl₂ := hlocated s c₂
    rw [Action.iterate, Action.iterate]
    generalize step s c₁ = r₁ at hreply hl₁ ⊢
    generalize step s c₂ = r₂ at hreply hl₂ ⊢
    cases hreply with
    | failed cause hsymbols' => exact .failed _ hsymbols'
    | @done found c₁' c₂' hsymbols' =>
      cases found with
      | none => exact .done hsymbols'
      | some s' =>
        -- the guard compares the numbers of tokens ahead, which are the same in both runs
        dsimp only
        rw [Cursor.remaining_eq_of_symbols hsymbols, Cursor.remaining_eq_of_symbols hsymbols']
        split
        · exact ih s' c₁' c₂' (ho₁.of_leadsTo hl₁) (ho₂.of_leadsTo hl₂) hsymbols'
        · exact .done hsymbols'

end Action

/-! ## Parsers -/

namespace Parser

variable {G : Type} {Tree : G → Type} {α : Type} {P : Productions Tree}

theorem perform_alike {nested : (α : Type) → Parser Tree α → Action α}
    (hlocated : ∀ α p, (nested α p).Located) (hnested : ∀ α p, (nested α p).Alike)
    (p : Parser Tree α) : (p.perform P nested).Alike := by
  induction p with
  | give value => exact fun c₁ c₂ _ _ hsymbols => .done hsymbols
  | andThen first next ih₁ ih₂ =>
    intro c₁ c₂ ho₁ ho₂ hsymbols
    have hreply := ih₁ c₁ c₂ ho₁ ho₂ hsymbols
    have hl₁ := perform_located (P := P) hlocated first c₁
    have hl₂ := perform_located (P := P) hlocated first c₂
    rw [perform, perform]
    generalize first.perform P nested c₁ = r₁ at hreply hl₁ ⊢
    generalize first.perform P nested c₂ = r₂ at hreply hl₂ ⊢
    cases hreply with
    | failed cause hsymbols' => exact .failed _ hsymbols'
    | @done value c₁' c₂' hsymbols' =>
      exact ih₂ value c₁' c₂' (ho₁.of_leadsTo hl₁) (ho₂.of_leadsTo hl₂) hsymbols'
  | look distance =>
    intro c₁ c₂ _ _ hsymbols
    rw [perform, perform, c₁.kindAt_eq, c₂.kindAt_eq, hsymbols]
    exact .done hsymbols
  | callee =>
    intro c₁ c₂ _ _ hsymbols
    rw [perform, perform, Cursor.callee?_current_eq, Cursor.callee?_current_eq, hsymbols]
    exact .done hsymbols
  | advance => exact fun c₁ c₂ _ _ hsymbols => .done (Cursor.symbols_advance_eq hsymbols)
  | unexpected expected =>
    exact fun c₁ c₂ _ _ hsymbols => .failed (.unexpected expected) hsymbols
  | unsupported construct =>
    exact fun c₁ c₂ _ _ hsymbols => .failed (.unsupported construct) hsymbols
  | attempt inner ih => exact ih.attempt (perform_located hlocated inner)
  | iterate step start ih =>
    intro c₁ c₂ ho₁ ho₂ hsymbols
    rw [perform, perform, Cursor.remaining_eq_of_symbols hsymbols]
    exact Action.Alike.iterate (fun s => perform_located hlocated (step s)) ih _ start c₁ c₂
      ho₁ ho₂ hsymbols
  | goal g => exact hnested _ (P g)
  | deeper inner => exact hnested _ inner

/-- Before the same symbols, among tokens in order, a parser does the same. -/
theorem run_alike (limit room : Nat) (p : Parser Tree α) : (p.run P limit room α).Alike := by
  induction room generalizing α with
  | zero =>
    apply perform_alike
    · intro β q c
      exact ⟨.refl c, .tooDeep limit, rfl⟩
    · intro β q c₁ c₂ _ _ hsymbols
      exact .failed (.tooDeep limit) hsymbols
  | succ room ih => exact perform_alike (fun _ q => run_located limit room q) (fun _ q => ih q) p

end Parser

end SqlGrammar
