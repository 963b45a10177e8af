import SqlGrammar.Parser.Run

/-!
# Where parsers stop

Whatever a parser does, it stops at or behind the place where it started, among the same tokens;
and an error that it fails with was made from the token under the cursor at which it stops
(`run_located`). Errors are taken apart for this into a cause and the token at which the cause was
met.
-/

set_option autoImplicit false

namespace SqlGrammar

/-! ## Causes -/

/-- Why a parser fails, without the place. -/
inductive Cause where
  | unexpected (expected : List String)
  | unsupported (construct : String)
  | tooDeep (limit : Nat)
  deriving DecidableEq

/-- The error of a cause that is met at a token. -/
def Cause.errorAt : Cause → Token → ParseError
  | unexpected expected, t => .unexpected expected t.kind t.span
  | unsupported construct, t => .unsupported construct t.span
  | tooDeep limit, t => .tooDeep limit t.span

/-- Whether something else was expected. -/
def Cause.isUnexpected : Cause → Bool
  | unexpected _ => true
  | unsupported _ | tooDeep _ => false

/-- An error counts as one at the offset of its token, if it is about an unexpected one. -/
theorem Cause.isMismatchAt_errorAt (cause : Cause) (t : Token) (offset : Nat) :
    (cause.errorAt t).isMismatchAt offset = (cause.isUnexpected && t.span.start == offset) := by
  cases cause <;> rfl

/-! ## Places -/

namespace Cursor

/-- The first cursor leads to the second: the tokens are the same, and what is ahead of the second
is the end of what is ahead of the first. -/
def LeadsTo (c c' : Cursor) : Prop := c'.ahead <:+ c.ahead ∧ c'.final = c.final

variable {c c' c'' : Cursor}

theorem LeadsTo.refl (c : Cursor) : c.LeadsTo c := ⟨List.suffix_rfl, rfl⟩

/-- `LeadsTo` goes on from where it has got. -/
theorem LeadsTo.trans (h : c.LeadsTo c') (h' : c'.LeadsTo c'') : c.LeadsTo c'' :=
  ⟨h'.1.trans h.1, h'.2.trans h.2⟩

theorem LeadsTo.remaining_le (h : c.LeadsTo c') : c'.remaining ≤ c.remaining := h.1.length_le

/-- A cursor that leads to a place with as many tokens ahead is at this place. -/
theorem LeadsTo.eq_of_remaining (h : c.LeadsTo c') (hle : c.remaining ≤ c'.remaining) :
    c' = c := by
  obtain ⟨ahead, final, hfinal⟩ := c
  obtain ⟨ahead', final', hfinal'⟩ := c'
  obtain ⟨hsuffix, hsame⟩ := h
  have hahead : ahead' = ahead :=
    hsuffix.eq_of_length (Nat.le_antisymm hsuffix.length_le hle)
  subst hahead
  cases hsame
  rfl

/-- `advance` leads on, or stays at the end. -/
theorem leadsTo_advance (c : Cursor) : c.LeadsTo c.advance := by
  unfold advance
  split
  · exact .refl c
  · next token ahead hahead =>
    split
    · exact .refl c
    · rw [LeadsTo, hahead]
      exact ⟨List.suffix_cons token ahead, rfl⟩

end Cursor

/-! ## Replies -/

/-- Where a reply came about. -/
def Reply.cursor {α : Type} : Reply α → Cursor
  | .done _ c => c
  | .failed _ c => c

/-- The reply came about behind a cursor, and its error, if it has one, at the place where it came
about. -/
def Reply.LocatedFrom {α : Type} (c : Cursor) : Reply α → Prop
  | .done _ c' => c.LeadsTo c'
  | .failed error c' => c.LeadsTo c' ∧ ∃ cause : Cause, error = cause.errorAt c'.current

/-- Whatever the action replies, it is located. -/
def Action.Located {α : Type} (action : Action α) : Prop := ∀ c, (action c).LocatedFrom c

section Located

variable {α σ : Type} {c c' : Cursor}

theorem Reply.LocatedFrom.leadsTo {reply : Reply α} (h : reply.LocatedFrom c) :
    c.LeadsTo reply.cursor := by
  cases reply with
  | done value c' => exact h
  | failed error c' => exact h.1

/-- What is located from further on is located from here. -/
theorem Reply.LocatedFrom.behind {reply : Reply α} (hlead : c.LeadsTo c')
    (h : reply.LocatedFrom c') : reply.LocatedFrom c := by
  cases reply with
  | done value c'' => exact hlead.trans h
  | failed error c'' => exact ⟨hlead.trans h.1, h.2⟩

/-- An attempt stops where it started, or where the action has stopped. -/
theorem Action.Located.attempt {action : Action α} (h : action.Located) :
    (Action.attempt action).Located := by
  intro c
  have hreply := h c
  rw [Action.attempt]
  cases hact : action c with
  | done value c' =>
    rw [hact] at hreply
    exact hreply
  | failed error c' =>
    rw [hact] at hreply
    dsimp only
    split
    · exact Cursor.LeadsTo.refl c
    · exact hreply

theorem Action.Located.iterate {step : σ → Action (Option σ)} (h : ∀ s, (step s).Located) :
    ∀ rounds s, (Action.iterate step rounds s).Located := by
  intro rounds
  induction rounds with
  | zero => exact fun s c => Cursor.LeadsTo.refl c
  | succ rounds ih =>
    intro s c
    have hreply := h s c
    rw [Action.iterate]
    cases hstep : step s c with
    | failed error c₁ =>
      rw [hstep] at hreply
      exact hreply
    | done found c₁ =>
      rw [hstep] at hreply
      cases found with
      | none => exact hreply
      | some s' =>
        -- the rounds that follow start where this one has stopped
        dsimp only
        split
        · exact (ih s' c₁).behind hreply
        · exact hreply

end Located

/-! ## Parsers -/

namespace Parser

variable {G : Type} {Tree : G → Type} {α : Type} {P : Productions Tree}

/-- By recursion along the parser, if what is done a level deeper is located. -/
theorem perform_located {nested : (α : Type) → Parser Tree α → Action α}
    (hnested : ∀ α p, (nested α p).Located) (p : Parser Tree α) :
    (p.perform P nested).Located := by
  induction p with
  | give value => exact fun c => Cursor.LeadsTo.refl c
  | andThen first next ih₁ ih₂ =>
    intro c
    have hreply := ih₁ c
    rw [perform]
    cases hfirst : first.perform P nested c with
    | failed error c₁ =>
      rw [hfirst] at hreply
      exact hreply
    | done value c₁ =>
      rw [hfirst] at hreply
      exact (ih₂ value c₁).behind hreply
  | look distance => exact fun c => Cursor.LeadsTo.refl c
  | callee => exact fun c => Cursor.LeadsTo.refl c
  | advance => exact fun c => Cursor.leadsTo_advance c
  | unexpected expected => exact fun c => ⟨.refl c, .unexpected expected, rfl⟩
  | unsupported construct => exact fun c => ⟨.refl c, .unsupported construct, rfl⟩
  | attempt inner ih => exact ih.attempt
  | iterate step start ih => exact fun c => Action.Located.iterate ih (c.remaining + 1) start c
  | goal g => exact hnested _ (P g)
  | deeper inner => exact hnested _ inner

/-- However many levels are left, a parser stops behind the place where it started, and its error
is one at the place where it stops. -/
theorem run_located (limit room : Nat) (p : Parser Tree α) : (p.run P limit room α).Located := by
  induction room generalizing α with
  | zero =>
    apply perform_located
    intro β q c
    exact ⟨.refl c, .tooDeep limit, rfl⟩
  | succ room ih => exact perform_located (fun _ q => ih q) p

end Parser

end SqlGrammar
