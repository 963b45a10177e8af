import SqlGrammar.Proofs.Parser.Combinators

/-!
# Reading with few levels

`ReadsWithin P need p input v rest` is what `Reads` says, with the number of levels named. Levels
count only where a parser opens goals: a flat parser opens none, so that it reads with any number of
levels what it reads with enough of them (`readsWithin_of_flat`).
-/

set_option autoImplicit false

namespace SqlGrammar.Parser

variable {G : Type} {Tree : G → Type} {α β σ : Type} {P : Productions Tree}

/-! ## Flat parsers -/

/-- The parser opens no goal, and does nothing a level deeper. -/
def Flat : {α : Type} → Parser Tree α → Prop
  | _, andThen first next => first.Flat ∧ ∀ v, (next v).Flat
  | _, attempt inner => inner.Flat
  | _, iterate step _ => ∀ s, (step s).Flat
  | _, goal _ | _, deeper _ => False
  | _, _ => True

/-- A flat parser does the same whatever is done a level deeper. -/
theorem Flat.perform_eq {p : Parser Tree α} (h : p.Flat)
    (nested nested' : (β : Type) → Parser Tree β → Action β) :
    p.perform P nested = p.perform P nested' := by
  induction p with
  | andThen first next ih₁ ih₂ =>
    funext c
    rw [perform, perform, ih₁ h.1]
    split
    · next v c₁ _ => rw [ih₂ v (h.2 v)]
    · rfl
  | attempt inner ih =>
    funext c
    rw [perform, perform, ih h]
  | iterate step start ih =>
    funext c
    rw [perform, perform, funext fun s => ih s (h s)]
  | goal g => exact h.elim
  | deeper inner => exact h.elim
  | _ => rfl

/-- A flat parser runs alike under any limit, and with any number of levels left. -/
theorem Flat.run_eq {p : Parser Tree α} (h : p.Flat) (limit limit' room room' : Nat) :
    p.run P limit room α = p.run P limit' room' α := by
  cases room <;> cases room' <;> exact h.perform_eq _ _

/-! Forms of parsers. -/

/-- `pure` opens no goal, nor do the other parsers of one step. -/
@[simp] theorem flat_pure (v : α) : (pure v : Parser Tree α).Flat := trivial

/-- For `>>=` both parsers must be flat, the second for every value of the first. -/
@[simp] theorem flat_bind {p : Parser Tree α} {f : α → Parser Tree β} :
    (p >>= f).Flat ↔ p.Flat ∧ ∀ v, (f v).Flat :=
  Iff.rfl

@[simp] theorem flat_look (n : Nat) : (look n : Parser Tree _).Flat := trivial

@[simp] theorem flat_kind : (kind : Parser Tree _).Flat := trivial

@[simp] theorem flat_advance : (advance : Parser Tree _).Flat := trivial

@[simp] theorem flat_unexpected (expected : List String) :
    (unexpected expected : Parser Tree α).Flat := trivial

/-- Every round of `iterate` must be flat. -/
@[simp] theorem flat_iterate {step : σ → Parser Tree (Option σ)} {s : σ} :
    (iterate step s).Flat ↔ ∀ s, (step s).Flat :=
  Iff.rfl

@[simp] theorem flat_ite {b : Prop} [Decidable b] {p q : Parser Tree α} :
    (if b then p else q).Flat ↔ (b → p.Flat) ∧ (¬ b → q.Flat) := by
  split <;> simp [*]

/-! Combinators. -/

@[simp] theorem flat_isAt (t : Terminal) : (isAt t : Parser Tree _).Flat := by simp [isAt]

@[simp] theorem flat_isNext (t : Terminal) : (isNext t : Parser Tree _).Flat := by simp [isNext]

/-- By induction over the terminals that `areAhead` looks for. -/
@[simp] theorem flat_areAhead (n : Nat) (ts : List Terminal) :
    (areAhead n ts : Parser Tree _).Flat := by
  induction ts generalizing n with
  | nil => simp [areAhead]
  | cons t ts ih => simp [areAhead, ih]

@[simp] theorem flat_advanceBy (n : Nat) : (advanceBy n : Parser Tree _).Flat := by
  induction n with
  | zero => simp [advanceBy]
  | succ n ih => simp [advanceBy, ih]

@[simp] theorem flat_accept (t : Terminal) : (accept t : Parser Tree _).Flat := by simp [accept]

@[simp] theorem flat_expect (t : Terminal) : (expect t : Parser Tree _).Flat := by simp [expect]

@[simp] theorem flat_acceptAll (ts : List Terminal) : (acceptAll ts : Parser Tree _).Flat := by
  simp [acceptAll]

/-- `behind?`, `many`, `commaSeparated` and `parenthesized` are flat if their parser is. -/
@[simp] theorem flat_behind {t : Terminal} {p : Parser Tree α} :
    (behind? t p).Flat ↔ p.Flat := by
  simp [behind?]

@[simp] theorem flat_identifier : (identifier : Parser Tree _).Flat := by
  simp only [identifier, identifier?, flat_bind, flat_kind, true_and]
  constructor
  · intro k
    split <;> simp
  · intro name
    split <;> simp

@[simp] theorem flat_many {p : Parser Tree (Option α)} : (many p).Flat ↔ p.Flat := by
  simp only [many, flat_iterate, flat_bind]
  refine ⟨fun h => (h []).1, fun h found => ⟨h, ?_⟩⟩
  rintro (_ | x) <;> exact trivial

@[simp] theorem flat_commaSeparated {p : Parser Tree α} : (commaSeparated p).Flat ↔ p.Flat := by
  simp +contextual [commaSeparated, separated]

@[simp] theorem flat_parenthesized {p : Parser Tree α} : (parenthesized p).Flat ↔ p.Flat := by
  simp [parenthesized]

@[simp] theorem flat_expectEnd : (expectEnd : Parser Tree _).Flat := by
  simp only [expectEnd, flat_bind, flat_accept, flat_kind, true_and]
  intro _ k
  split <;> simp

/-! ## Reading -/

/-- With that many levels left, the parser turns the symbols ahead into a value and what is left. -/
def ReadsWithin (P : Productions Tree) (need : Nat) (p : Parser Tree α) (input : List Symbol)
    (v : α) (rest : List Symbol) : Prop :=
  ∀ limit room, need ≤ room → ∀ c : Cursor, c.symbols = input →
    ∃ c', p.run P limit room α c = .done v c' ∧ c'.symbols = rest

variable {need : Nat} {p : Parser Tree α} {input mid rest : List Symbol} {v : α}

theorem readsWithin_of_flat (hflat : p.Flat) (h : Reads P p input v rest) :
    ReadsWithin P need p input v rest := by
  obtain ⟨n, h⟩ := h
  intro limit room _ c hc
  obtain ⟨c', hrun, hc'⟩ := h limit n (Nat.le_refl n) c hc
  exact ⟨c', by rw [hflat.run_eq limit limit room n, hrun], hc'⟩

/-- `pure` needs no levels. -/
theorem readsWithin_pure (v : α) (ss : List Symbol) : ReadsWithin P need (pure v) ss v ss :=
  readsWithin_of_flat (flat_pure v) (reads_pure v ss)

/-- One number of levels is enough for both parsers of `>>=`. -/
theorem readsWithin_bind {f : α → Parser Tree β} {w : β} (hp : ReadsWithin P need p input v mid)
    (hf : ReadsWithin P need (f v) mid w rest) : ReadsWithin P need (p >>= f) input w rest := by
  intro limit room hroom c hc
  obtain ⟨c₁, hfirst, hc₁⟩ := hp limit room hroom c hc
  obtain ⟨c₂, hnext, hc₂⟩ := hf limit room hroom c₁ hc₁
  exact ⟨c₂, (run_bind_of_done hfirst).trans hnext, hc₂⟩

/-- A goal takes one of the levels. -/
theorem readsWithin_goal {g : G} {v : Tree g} (h : ReadsWithin P need (P g) input v rest) :
    ReadsWithin P (need + 1) (goal g) input v rest := by
  intro limit room hroom c hc
  obtain ⟨room, rfl⟩ : ∃ m, room = m + 1 := ⟨room - 1, by omega⟩
  rw [run_goal]
  exact h limit room (by omega) c hc

section Repetition

variable {step : σ → Parser Tree (Option σ)} {s s' w : σ}

/-- The last round of a loop. -/
theorem readsWithin_iterate_stop (h : ReadsWithin P need (step s) input none rest) :
    ReadsWithin P need (iterate step s) input s rest := by
  intro limit room hroom c hc
  obtain ⟨c', hstep, hc'⟩ := h limit room hroom c hc
  exact ⟨c', run_iterate_of_none hstep, hc'⟩

/-- A round of a loop before others, which must shorten what is ahead for the fuel to be enough. -/
theorem readsWithin_iterate_step (h : ReadsWithin P need (step s) input (some s') mid)
    (hlt : mid.length < input.length) (hmore : ReadsWithin P need (iterate step s') mid w rest) :
    ReadsWithin P need (iterate step s) input w rest := by
  intro limit room hroom c hc
  obtain ⟨c₁, hstep, hc₁⟩ := h limit room hroom c hc
  obtain ⟨c₂, hrest, hc₂⟩ := hmore limit room hroom c₁ hc₁
  have hlt' : c₁.remaining < c.remaining := by
    rw [← c₁.length_symbols, ← c.length_symbols, hc, hc₁]
    exact hlt
  exact ⟨c₂, (run_iterate_of_some hstep hlt').trans hrest, hc₂⟩

/-- No further item is found where its first terminal is missing. -/
theorem readsWithin_manyFrom_stop {t : Terminal} (hstop : kindAhead rest 0 ≠ t.kind)
    (found : List α) : ReadsWithin P need (manyFrom (behind? t p) found) rest found rest := by
  have hnone : ReadsWithin P need (behind? t p) rest none rest :=
    readsWithin_bind (readsWithin_of_flat (flat_accept t) (reads_accept_false hstop))
      (readsWithin_pure none rest)
  exact readsWithin_iterate_stop (readsWithin_bind hnone (readsWithin_pure none rest))

end Repetition

end SqlGrammar.Parser
