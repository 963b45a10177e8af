import SqlGrammar.Parser.Run
import SqlGrammar.Proofs.Symbol

/-!
# What parsers read, whatever the levels

`Reads P p input v rest` says that the parser `p`, at any cursor before the symbols `input` and with
enough levels left, gives the value `v` and leaves the symbols `rest`. The rules below follow the
forms of parsers one by one, so that what a production reads is put together from what its parts
read, and no number of levels has to be named.
-/

set_option autoImplicit false

namespace SqlGrammar.Parser

variable {G : Type} {Tree : G → Type} {α β σ : Type} {P : Productions Tree}

/-- With enough levels left, the parser turns the symbols ahead into a value and what is left. -/
def Reads (P : Productions Tree) (p : Parser Tree α) (input : List Symbol) (v : α)
    (rest : List Symbol) : Prop :=
  ∃ need, ∀ limit room, need ≤ room → ∀ c : Cursor, c.symbols = input →
    ∃ c', p.run P limit room α c = .done v c' ∧ c'.symbols = rest

/-! ## Single steps of a run -/

section Run

variable (limit room : Nat) (c : Cursor)

/-- The runs of parsers of one step are computed. -/
theorem run_pure (v : α) : (pure v : Parser Tree α).run P limit room α c = .done v c := by
  cases room <;> rfl

theorem run_look (n : Nat) :
    (look n : Parser Tree _).run P limit room _ c = .done (c.kindAt n) c := by
  cases room <;> rfl

theorem run_callee :
    (callee : Parser Tree _).run P limit room _ c = .done c.current.callee? c := by
  cases room <;> rfl

theorem run_advance : (advance : Parser Tree _).run P limit room _ c = .done () c.advance := by
  cases room <;> rfl

theorem run_unexpected (expected : List String) :
    (unexpected expected : Parser Tree α).run P limit room _ c =
      .failed (c.unexpected expected) c := by
  cases room <;> rfl

theorem run_unsupported (construct : String) :
    (unsupported construct : Parser Tree α).run P limit room _ c =
      .failed (c.unsupported construct) c := by
  cases room <;> rfl

/-- `attempt` is `Action.attempt` of the run. -/
theorem run_attempt (p : Parser Tree α) :
    (attempt p).run P limit room _ c = Action.attempt (p.run P limit room α) c := by
  cases room <;> rfl

/-- The fuel of `iterate` is one more than the tokens left, which is enough for rounds that move. -/
theorem run_iterate (step : σ → Parser Tree (Option σ)) (s : σ) :
    (iterate step s).run P limit room _ c =
      Action.iterate (fun s => (step s).run P limit room _) (c.remaining + 1) s c := by
  cases room <;> rfl

/-- With a level left, a goal is its production with one level less. -/
theorem run_goal (g : G) :
    (goal g : Parser Tree _).run P limit (room + 1) _ c = (P g).run P limit room _ c := rfl

theorem run_deeper (p : Parser Tree α) :
    (deeper p).run P limit (room + 1) _ c = p.run P limit room _ c := rfl

variable {limit room c}

/-- `>>=` goes on with the value, from the cursor behind it. -/
theorem run_bind_of_done {p : Parser Tree α} {f : α → Parser Tree β} {v : α} {c' : Cursor}
    (h : p.run P limit room α c = .done v c') :
    (p >>= f).run P limit room β c = (f v).run P limit room β c' := by
  cases room with
  | zero =>
    have h' : p.perform P (fun _ _ c => .failed (c.tooDeep limit) c) c = .done v c' := h
    simp only [bind, run, perform, h']
  | succ room =>
    have h' : p.perform P (run P limit room) c = .done v c' := h
    simp only [bind, run, perform, h']

/-- `>>=` keeps a failure and its cursor. -/
theorem run_bind_of_failed {p : Parser Tree α} {f : α → Parser Tree β} {error : ParseError}
    {c' : Cursor} (h : p.run P limit room α c = .failed error c') :
    (p >>= f).run P limit room β c = .failed error c' := by
  cases room with
  | zero =>
    have h' : p.perform P (fun _ _ c => .failed (c.tooDeep limit) c) c = .failed error c' := h
    simp only [bind, run, perform, h']
  | succ room =>
    have h' : p.perform P (run P limit room) c = .failed error c' := h
    simp only [bind, run, perform, h']

/-- Where both parsers together give a value, each of them does. -/
theorem exists_of_run_bind {p : Parser Tree α} {f : α → Parser Tree β} {w : β} {c' : Cursor}
    (h : (p >>= f).run P limit room β c = .done w c') :
    ∃ v c₁, p.run P limit room α c = .done v c₁ ∧ (f v).run P limit room β c₁ = .done w c' := by
  cases hp : p.run P limit room α c with
  | done v c₁ =>
    rw [run_bind_of_done hp] at h
    exact ⟨v, c₁, rfl, h⟩
  | failed error c₁ =>
    rw [run_bind_of_failed hp] at h
    cases h

end Run

/-! ## Rules -/

theorem reads_pure (v : α) (ss : List Symbol) : Reads P (pure v) ss v ss :=
  ⟨0, fun limit room _ c hc => ⟨c, run_pure limit room c v, hc⟩⟩

/-- `Reads` goes through `>>=` with the number of levels that is enough for both. -/
theorem reads_bind {p : Parser Tree α} {f : α → Parser Tree β} {v : α} {w : β}
    {input mid rest : List Symbol} (hp : Reads P p input v mid) (hf : Reads P (f v) mid w rest) :
    Reads P (p >>= f) input w rest := by
  obtain ⟨m, hp⟩ := hp
  obtain ⟨n, hf⟩ := hf
  refine ⟨max m n, fun limit room hroom c hc => ?_⟩
  obtain ⟨c₁, h₁, hc₁⟩ := hp limit room (by omega) c hc
  rw [run_bind_of_done h₁]
  exact hf limit room (by omega) c₁ hc₁

theorem reads_map {p : Parser Tree α} {f : α → β} {v : α} {input rest : List Symbol}
    (hp : Reads P p input v rest) : Reads P (f <$> p) input (f v) rest :=
  reads_bind hp (reads_pure _ _)

/-- Looking ahead reads nothing, at any distance. -/
theorem reads_look (n : Nat) (ss : List Symbol) : Reads P (look n) ss (kindAhead ss n) ss :=
  ⟨0, fun limit room _ c hc => ⟨c, by rw [run_look, c.kindAt_eq, hc], hc⟩⟩

theorem reads_kind (ss : List Symbol) : Reads P kind ss (kindAhead ss 0) ss := reads_look 0 ss

theorem reads_callee (s : Symbol) (ss : List Symbol) :
    Reads P callee (s :: ss) s.callee? (s :: ss) :=
  ⟨0, fun limit room _ c hc => ⟨c, by rw [run_callee, Cursor.callee?_current hc], hc⟩⟩

/-- `advance` reads one symbol that is not the end. -/
theorem reads_advance {s : Symbol} {ss : List Symbol} (hs : s.kind ≠ .eof) :
    Reads P advance (s :: ss) () ss :=
  ⟨0, fun limit room _ c hc =>
    ⟨c.advance, run_advance limit room c, Cursor.symbols_advance hc hs⟩⟩

/-- A parser that reads is not taken back by `attempt`. -/
theorem reads_attempt {p : Parser Tree α} {v : α} {input rest : List Symbol}
    (hp : Reads P p input v rest) : Reads P (attempt p) input (.ok v) rest := by
  obtain ⟨n, hp⟩ := hp
  refine ⟨n, fun limit room hroom c hc => ?_⟩
  obtain ⟨c', h, hc'⟩ := hp limit room hroom c hc
  refine ⟨c', ?_, hc'⟩
  rw [run_attempt, Action.attempt, h]

/-- A goal needs one level more than its production. -/
theorem reads_goal {g : G} {v : Tree g} {input rest : List Symbol}
    (h : Reads P (P g) input v rest) : Reads P (goal g) input v rest := by
  obtain ⟨n, h⟩ := h
  refine ⟨n + 1, fun limit room hroom c hc => ?_⟩
  obtain ⟨room, rfl⟩ : ∃ m, room = m + 1 := ⟨room - 1, by omega⟩
  rw [run_goal]
  exact h limit room (by omega) c hc

theorem reads_deeper {p : Parser Tree α} {v : α} {input rest : List Symbol}
    (h : Reads P p input v rest) : Reads P (deeper p) input v rest := by
  obtain ⟨n, h⟩ := h
  refine ⟨n + 1, fun limit room hroom c hc => ?_⟩
  obtain ⟨room, rfl⟩ : ∃ m, room = m + 1 := ⟨room - 1, by omega⟩
  rw [run_deeper]
  exact h limit room (by omega) c hc

/-! ## Repetition -/

/-- More rounds than tokens make no difference. -/
theorem iterate_rounds (step : σ → Action (Option σ)) :
    ∀ (m n : Nat) (s : σ) (c : Cursor), c.remaining < m → c.remaining < n →
      Action.iterate step m s c = Action.iterate step n s c := by
  intro m
  induction m with
  | zero => intro n s c hm; omega
  | succ m ih =>
    intro n s c hm hn
    obtain ⟨n, rfl⟩ : ∃ k, n = k + 1 := ⟨n - 1, by omega⟩
    simp only [Action.iterate]
    cases hstep : step s c with
    | failed error c' => rfl
    | done o c' =>
      cases o with
      | none => rfl
      -- a round that takes no token is the last one, whatever the number of rounds
      | some s' =>
        dsimp only
        split
        · exact ih n s' c' (by omega) (by omega)
        · rfl

/-! What a repetition does, by what its first round does. -/

section Rounds

variable {limit room : Nat} {step : σ → Parser Tree (Option σ)} {s s' : σ} {c c' : Cursor}

/-- A round that fails ends the loop with its failure. -/
theorem run_iterate_of_failed {error : ParseError}
    (h : (step s).run P limit room _ c = .failed error c') :
    (iterate step s).run P limit room _ c = .failed error c' := by
  rw [run_iterate, Action.iterate, h]

/-- A round that gives nothing ends the loop with what it has. -/
theorem run_iterate_of_none (h : (step s).run P limit room _ c = .done none c') :
    (iterate step s).run P limit room _ c = .done s c' := by
  rw [run_iterate, Action.iterate, h]

/-- A round that takes a token is followed by the remaining rounds. -/
theorem run_iterate_of_some (h : (step s).run P limit room _ c = .done (some s') c')
    (hlt : c'.remaining < c.remaining) :
    (iterate step s).run P limit room _ c = (iterate step s').run P limit room _ c' := by
  rw [run_iterate, run_iterate, Action.iterate, h]
  dsimp only
  rw [if_pos hlt]
  exact iterate_rounds _ _ _ _ _ hlt (Nat.lt_succ_self _)

/-- A round that takes no token is the last one. -/
theorem run_iterate_of_stay (h : (step s).run P limit room _ c = .done (some s') c')
    (hge : ¬ c'.remaining < c.remaining) :
    (iterate step s).run P limit room _ c = .done s' c' := by
  rw [run_iterate, Action.iterate, h]
  dsimp only
  rw [if_neg hge]

end Rounds

/-- As `run_iterate_of_none`, for what is read. -/
theorem reads_iterate_stop {step : σ → Parser Tree (Option σ)} {s : σ} {input rest : List Symbol}
    (h : Reads P (step s) input none rest) : Reads P (iterate step s) input s rest := by
  obtain ⟨n, h⟩ := h
  refine ⟨n, fun limit room hroom c hc => ?_⟩
  obtain ⟨c', h', hc'⟩ := h limit room hroom c hc
  exact ⟨c', run_iterate_of_none h', hc'⟩

/-- A round that takes at least one symbol is followed by the remaining rounds. -/
theorem reads_iterate_step {step : σ → Parser Tree (Option σ)} {s s' v : σ}
    {input mid rest : List Symbol} (h : Reads P (step s) input (some s') mid)
    (hlt : mid.length < input.length) (hmore : Reads P (iterate step s') mid v rest) :
    Reads P (iterate step s) input v rest := by
  obtain ⟨m, h⟩ := h
  obtain ⟨n, hmore⟩ := hmore
  -- levels that suffice for the round and for those behind it
  refine ⟨max m n, fun limit room hroom c hc => ?_⟩
  obtain ⟨c₁, h₁, hc₁⟩ := h limit room (by omega) c hc
  obtain ⟨c₂, h₂, hc₂⟩ := hmore limit room (by omega) c₁ hc₁
  have hlt' : c₁.remaining < c.remaining := by
    rw [← c₁.length_symbols, ← c.length_symbols, hc, hc₁]
    exact hlt
  exact ⟨c₂, (run_iterate_of_some h₁ hlt').trans h₂, hc₂⟩

end SqlGrammar.Parser
