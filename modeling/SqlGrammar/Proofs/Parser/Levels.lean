import SqlGrammar.Parser.Run

/-!
# More levels

A run that does not end for want of levels is the same run with more levels (`run_of_room_le`). An
attempt never undoes an error about levels, so that such an error is seen wherever it arises; the
limit itself is seen in such errors only.
-/

set_option autoImplicit false

namespace SqlGrammar

/-- The error says that too many levels are nested. -/
def ParseError.IsTooDeep (error : ParseError) : Prop :=
  ∃ limit span, error = .tooDeep limit span

/-- An error about levels is never taken for one before the first token. -/
theorem ParseError.IsTooDeep.isMismatchAt {error : ParseError} (h : error.IsTooDeep)
    (offset : Nat) : error.isMismatchAt offset = false := by
  obtain ⟨limit, span, rfl⟩ := h
  rfl

/-- The reply is an error about levels. -/
def Reply.IsTooDeep {α : Type} : Reply α → Prop
  | .done _ _ => False
  | .failed error _ => error.IsTooDeep

/-- The second action does the same as the first, except where the first ends for want of levels. -/
def Action.Outlasts {α : Type} (action' action : Action α) : Prop :=
  ∀ c, ¬ (action c).IsTooDeep → action' c = action c

namespace Action

variable {α σ : Type}

theorem outlasts_tooDeep (action : Action α) (limit : Nat) :
    action.Outlasts fun c => .failed (c.tooDeep limit) c :=
  fun _ hshallow => absurd ⟨limit, _, rfl⟩ hshallow

theorem Outlasts.attempt {action' action : Action α} (h : action'.Outlasts action) :
    (Action.attempt action').Outlasts (Action.attempt action) := by
  intro c hshallow
  have hsame := h c
  rw [Action.attempt, Action.attempt]
  rw [Action.attempt] at hshallow
  cases hact : action c with
  | done value c' =>
    rw [hact] at hsame
    rw [hsame (fun h => h)]
  | failed error c' =>
    rw [hact] at hsame hshallow
    -- an error about levels would not have been undone
    have herror : ¬ (Reply.failed error c' : Reply α).IsTooDeep := by
      intro hdeep
      dsimp only at hshallow
      rw [hdeep.isMismatchAt] at hshallow
      exact hshallow hdeep
    rw [hsame herror]

/-- A loop outlasts another one if its rounds do. -/
theorem Outlasts.iterate {step' step : σ → Action (Option σ)}
    (h : ∀ s, (step' s).Outlasts (step s)) :
    ∀ rounds s, (Action.iterate step' rounds s).Outlasts (Action.iterate step rounds s) := by
  intro rounds
  induction rounds with
  | zero => exact fun s c _ => rfl
  | succ rounds ih =>
    intro s c hshallow
    have hsame := h s c
    rw [Action.iterate, Action.iterate]
    rw [Action.iterate] at hshallow
    cases hstep : step s c with
    | failed error c₁ =>
      rw [hstep] at hsame hshallow
      rw [hsame hshallow]
    | done found c₁ =>
      rw [hstep] at hsame hshallow
      rw [hsame (fun h => h)]
      cases found with
      | none => rfl
      | some s' =>
        dsimp only at hshallow ⊢
        split
        · next hlt =>
          rw [if_pos hlt] at hshallow
          exact ih s' c₁ hshallow
        · rfl

end Action

namespace Parser

variable {G : Type} {Tree : G → Type} {α : Type} {P : Productions Tree}

/-- By recursion along the parser, if what is done a level deeper outlasts. -/
theorem perform_outlasts {nested' nested : (α : Type) → Parser Tree α → Action α}
    (h : ∀ α p, (nested' α p).Outlasts (nested α p)) (p : Parser Tree α) :
    (p.perform P nested').Outlasts (p.perform P nested) := by
  induction p with
  | give value => exact fun c _ => rfl
  | andThen first next ih₁ ih₂ =>
    intro c hshallow
    have hsame := ih₁ c
    rw [perform, perform]
    rw [perform] at hshallow
    cases hfirst : first.perform P nested c with
    | failed error c₁ =>
      rw [hfirst] at hsame hshallow
      rw [hsame hshallow]
    | done value c₁ =>
      rw [hfirst] at hsame hshallow
      rw [hsame (fun h => h)]
      exact ih₂ value c₁ hshallow
  | look distance => exact fun c _ => rfl
  | callee => exact fun c _ => rfl
  | advance => exact fun c _ => rfl
  | unexpected expected => exact fun c _ => rfl
  | unsupported construct => exact fun c _ => rfl
  | attempt inner ih => exact ih.attempt
  | iterate step start ih => exact fun c => Action.Outlasts.iterate ih (c.remaining + 1) start c
  | goal g => exact h _ (P g)
  | deeper inner => exact h _ inner

/-- With more levels a parser does the same, except where it ended for want of levels. -/
theorem run_of_room_le (limit limit' : Nat) {room room' : Nat} (hle : room ≤ room')
    (p : Parser Tree α) : (p.run P limit' room' α).Outlasts (p.run P limit room α) := by
  induction room generalizing room' α with
  | zero =>
    cases room' with
    | zero => exact perform_outlasts (fun β q => Action.outlasts_tooDeep _ limit) p
    | succ room' => exact perform_outlasts (fun β q => Action.outlasts_tooDeep _ limit) p
  | succ room ih =>
    obtain ⟨room', rfl⟩ : ∃ n, room' = n + 1 := ⟨room' - 1, by omega⟩
    exact perform_outlasts (fun β q => ih (by omega) q) p

/-- The limit itself makes no difference to a value. -/
theorem run_done_iff_of_limit (limit limit' : Nat) {room : Nat} {p : Parser Tree α} {c c' : Cursor}
    {v : α} : p.run P limit room α c = .done v c' ↔ p.run P limit' room α c = .done v c' := by
  have hsame : ∀ limit limit', p.run P limit room α c = .done v c' →
      p.run P limit' room α c = .done v c' := by
    intro limit limit' h
    rw [run_of_room_le limit limit' (Nat.le_refl room) p c (by rw [h]; exact id), h]
  exact ⟨hsame limit limit', hsame limit' limit⟩

end Parser

end SqlGrammar
