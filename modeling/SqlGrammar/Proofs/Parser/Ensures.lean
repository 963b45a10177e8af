import SqlGrammar.Proofs.Lexer.Valid
import SqlGrammar.Proofs.Parser.Located
import SqlGrammar.Proofs.Parser.Reads

/-!
# What holds when a parser succeeds

`Yields` is the counterpart of `Reads`: with some number of levels left, the parser has turned the
symbols ahead into a value. `Ensures` says that whatever a parser yields from valid symbols, a
postcondition holds of the value and of the symbols that are left. Its rules follow the forms of
parsers, so that a production is gone through step by step. A parser only ever moves forward
(`Yields.suffix`), which is why the symbols that are left are valid again.
-/

set_option autoImplicit false

namespace SqlGrammar.Parser

variable {G : Type} {Tree : G → Type} {α β σ : Type} {P : Productions Tree} {room : Nat}

/-- With this number of levels left, the parser can turn the symbols ahead into a value and what is
left. -/
def Yields (P : Productions Tree) (room : Nat) (p : Parser Tree α) (input : List Symbol) (v : α)
    (rest : List Symbol) : Prop :=
  ∃ (limit : Nat) (c c' : Cursor),
    c.symbols = input ∧ p.run P limit room α c = .done v c' ∧ c'.symbols = rest

/-- Whatever the parser yields from valid symbols, it is as demanded. -/
def Ensures (P : Productions Tree) (room : Nat) (p : Parser Tree α) (input : List Symbol)
    (Q : α → List Symbol → Prop) : Prop :=
  (∀ s ∈ input, s.Valid) → ∀ v rest, Yields P room p input v rest → Q v rest

/-- What a parser leaves is the end of what was ahead. -/
theorem Yields.suffix {p : Parser Tree α} {input rest : List Symbol} {v : α}
    (h : Yields P room p input v rest) : rest <:+ input := by
  obtain ⟨limit, c, c', rfl, hrun, rfl⟩ := h
  have hlead := (run_located (P := P) limit room p c).leadsTo
  rw [hrun] at hlead
  exact hlead.1.map Token.symbol

/-! ## Rules -/

variable {input rest : List Symbol} {Q : α → List Symbol → Prop}

/-- The parser may rely on the symbols ahead being valid. -/
theorem ensures_of_valid {p : Parser Tree α}
    (h : (∀ s ∈ input, s.Valid) → Ensures P room p input Q) : Ensures P room p input Q :=
  fun hvalid => h hvalid hvalid

/-- The parser may rely on having yielded what it has. -/
theorem ensures_yields {p : Parser Tree α}
    (h : Ensures P room p input fun v rest => Yields P room p input v rest → Q v rest) :
    Ensures P room p input Q :=
  fun hvalid v rest hyields => h hvalid v rest hyields hyields

theorem ensures_mono {p : Parser Tree α} {R : α → List Symbol → Prop}
    (h : Ensures P room p input R) (himp : ∀ v rest, R v rest → Q v rest) :
    Ensures P room p input Q :=
  fun hvalid v rest hyields => himp v rest (h hvalid v rest hyields)

theorem ensures_pure {v : α} (h : Q v input) : Ensures P room (pure v : Parser Tree α) input Q := by
  rintro - w rest ⟨limit, c, c', rfl, hrun, rfl⟩
  rw [run_pure] at hrun
  cases hrun
  exact h

theorem ensures_bind {p : Parser Tree β} {f : β → Parser Tree α} {R : β → List Symbol → Prop}
    (hp : Ensures P room p input R)
    (hf : ∀ v mid, R v mid → Ensures P room (f v) mid Q) : Ensures P room (p >>= f) input Q := by
  rintro hvalid w rest ⟨limit, c, c', rfl, hrun, rfl⟩
  cases hfirst : p.run P limit room β c with
  | failed error c₁ =>
    -- where the first parser fails, both of them do
    rw [run_bind_of_failed hfirst] at hrun
    cases hrun
  | done v c₁ =>
    rw [run_bind_of_done hfirst] at hrun
    have hyields : Yields P room p c.symbols v c₁.symbols := ⟨limit, c, c₁, rfl, hfirst, rfl⟩
    exact hf v c₁.symbols (hp hvalid v _ hyields)
      (fun s hs => hvalid s (hyields.suffix.subset hs)) w _ ⟨limit, c₁, c', rfl, hrun, rfl⟩

theorem ensures_map {p : Parser Tree β} {f : β → α}
    (h : Ensures P room p input fun v rest => Q (f v) rest) : Ensures P room (f <$> p) input Q :=
  ensures_bind h fun _ _ hv => ensures_pure hv

theorem ensures_look {Q : TokenKind → List Symbol → Prop} {n : Nat}
    (h : Q (kindAhead input n) input) : Ensures P room (look n) input Q := by
  rintro - w rest ⟨limit, c, c', rfl, hrun, rfl⟩
  rw [run_look] at hrun
  cases hrun
  rw [c.kindAt_eq]
  exact h

/-- The name under which the first symbol calls a function. -/
theorem ensures_callee {Q : Option String → List Symbol → Prop}
    (h : Q (input.head?.bind Symbol.callee?) input) : Ensures P room callee input Q := by
  rintro - w rest ⟨limit, c, c', rfl, hrun, rfl⟩
  rw [run_callee] at hrun
  cases hrun
  rw [c.callee?_current_eq]
  exact h

/-- Moving on takes the first symbol off. -/
theorem ensures_advance {Q : Unit → List Symbol → Prop} (hne : kindAhead input 0 ≠ .eof)
    (h : ∀ s ss, input = s :: ss → Q () ss) : Ensures P room advance input Q := by
  rintro - w rest ⟨limit, c, c', rfl, hrun, rfl⟩
  rw [run_advance] at hrun
  cases hrun
  cases hsymbols : c.symbols with
  | nil =>
    rw [hsymbols] at hne
    exact absurd (kindAhead_nil 0) hne
  | cons s ss =>
    rw [hsymbols] at hne h
    rw [Cursor.symbols_advance hsymbols hne]
    exact h s ss rfl

theorem ensures_unexpected {expected : List String} :
    Ensures P room (unexpected expected : Parser Tree α) input Q := by
  rintro - w rest ⟨limit, c, c', rfl, hrun, rfl⟩
  rw [run_unexpected] at hrun
  cases hrun

theorem ensures_unsupported {construct : String} :
    Ensures P room (unsupported construct : Parser Tree α) input Q := by
  rintro - w rest ⟨limit, c, c', rfl, hrun, rfl⟩
  rw [run_unsupported] at hrun
  cases hrun

/-- An attempt that fails leaves everything as it was. -/
theorem ensures_attempt {p : Parser Tree β} {Q : Except (List String) β → List Symbol → Prop}
    (hp : Ensures P room p input fun v rest => Q (.ok v) rest)
    (hfail : ∀ expected, Q (.error expected) input) : Ensures P room (attempt p) input Q := by
  rintro hvalid w rest ⟨limit, c, c', rfl, hrun, rfl⟩
  rw [run_attempt, Action.attempt] at hrun
  cases hinner : p.run P limit room β c with
  | done v c₁ =>
    rw [hinner] at hrun
    cases hrun
    exact hp hvalid v _ ⟨limit, c, c', rfl, hinner, rfl⟩
  | failed error c₁ =>
    rw [hinner] at hrun
    dsimp only at hrun
    -- a failure behind the place where the attempt began is none that is undone
    split at hrun
    · cases hrun
      exact hfail _
    · cases hrun

/-- Without a level left nothing is yielded. -/
theorem ensures_goal_zero {g : G} {Q : Tree g → List Symbol → Prop} :
    Ensures P 0 (goal g) input Q := by
  rintro - w rest ⟨limit, c, c', rfl, hrun, rfl⟩
  cases hrun

theorem ensures_goal_succ {g : G} {Q : Tree g → List Symbol → Prop}
    (h : Ensures P room (P g) input Q) : Ensures P (room + 1) (goal g) input Q := by
  rintro hvalid w rest ⟨limit, c, c', rfl, hrun, rfl⟩
  exact h hvalid w _ ⟨limit, c, c', rfl, hrun, rfl⟩

/-- What is a level deeper is yielded with a level less. -/
theorem ensures_deeper {p : Parser Tree α} (h : ∀ r, r < room → Ensures P r p input Q) :
    Ensures P room (deeper p) input Q := by
  rintro hvalid w rest ⟨limit, c, c', rfl, hrun, rfl⟩
  cases room with
  | zero => cases hrun
  | succ room => exact h room (Nat.lt_succ_self room) hvalid w _ ⟨limit, c, c', rfl, hrun, rfl⟩

/-- A repetition keeps what every round keeps. The last round is one that gives nothing, or one that
takes no symbol. -/
theorem ensures_iterate {step : σ → Parser Tree (Option σ)} {s : σ} {I : σ → List Symbol → Prop}
    {Q : σ → List Symbol → Prop} (hstart : I s input)
    (hstep : ∀ s mid, I s mid → Ensures P room (step s) mid fun found rest =>
      (found = none → Q s rest) ∧ ∀ s', found = some s' →
        I s' rest ∧ (mid.length ≤ rest.length → Q s' rest)) :
    Ensures P room (iterate step s) input Q := by
  rintro hvalid w rest ⟨limit, c, c', rfl, hrun, rfl⟩
  rw [run_iterate] at hrun
  -- by induction on the rounds that are left, of which there are more than tokens
  have hrounds : ∀ n s c, (∀ t ∈ c.symbols, t.Valid) → I s c.symbols → c.remaining < n →
      Action.iterate (fun s => (step s).run P limit room _) n s c = .done w c' →
        Q w c'.symbols := by
    intro n
    induction n with
    | zero => intro s c _ _ hn; omega
    | succ n ih =>
      intro s c hvalid hI hn heq
      rw [Action.iterate] at heq
      cases hround : (step s).run P limit room _ c with
      | failed error c₁ =>
        rw [hround] at heq
        cases heq
      | done found c₁ =>
        rw [hround] at heq
        have hyields : Yields P room (step s) c.symbols found c₁.symbols :=
          ⟨limit, c, c₁, rfl, hround, rfl⟩
        obtain ⟨hnone, hsome⟩ := hstep s c.symbols hI hvalid found _ hyields
        cases found with
        | none =>
          cases heq
          exact hnone rfl
        | some s' =>
          obtain ⟨hI', hlast⟩ := hsome s' rfl
          dsimp only at heq
          split at heq
          · next hlt =>
            exact ih s' c₁ (fun t ht => hvalid t (hyields.suffix.subset ht)) hI' (by omega) heq
          -- the round has taken nothing, so that it was the last one
          · next hge =>
            cases heq
            refine hlast ?_
            rw [Cursor.length_symbols, Cursor.length_symbols]
            omega
  exact hrounds _ s c hvalid hstart (Nat.lt_succ_self _) hrun

end SqlGrammar.Parser
