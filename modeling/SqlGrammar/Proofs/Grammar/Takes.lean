import SqlGrammar.Proofs.Grammar.Loops
import SqlGrammar.Proofs.Parser.Combinators
import SqlGrammar.Proofs.Parser.Levels
import SqlGrammar.Proofs.Parser.Located

/-!
# The first token of a production

No goal succeeds without taking a token, and before its first token a goal nests few others: no more
than its `level`. The two facts are shown together. `Takes` says of a parser that it gives a value
only behind a token, and that it had few levels left where it ends for want of them; the rules for
it follow a parser up to the first token. Behind that token a parser may open any goals
(`Light.fits`), as each token makes room for four levels.
-/

set_option autoImplicit false

namespace SqlGrammar

namespace Grammar

open SqlGrammar.Parser

/-! ## Levels -/

/-- The number of goals that a goal can open before its first token, itself included. -/
def level : Goal → Nat
  | .operand _ => 2
  | .rule .expr => 3
  | .rule .resultColumn | .rule .orderingTerm => 4
  | .rule .statement | .rule .selectSource | .rule .columnConstraint => 2
  | .rule _ => 1

theorem level_pos (g : Goal) : 0 < level g := by
  rcases g with r | least
  · cases r <;> decide
  · exact Nat.two_pos

/-- Four levels of goals are opened at most before a token is taken. -/
theorem level_le_four (g : Goal) : level g ≤ 4 := by
  rcases g with r | least
  · cases r <;> decide
  · exact Nat.le_of_ble_eq_true rfl

/-- An action that ends for want of levels had fewer than four for each token ahead, and a base. -/
def Fits {α : Type} (room base : Nat) (action : Action α) : Prop :=
  ∀ c, (action c).IsTooDeep → room < 4 * c.remaining + base

/-- With this number of levels left, goals that succeed have taken a token, and the levels fit. -/
structure GoalsMeet (limit room : Nat) : Prop where
  moves : ∀ (g : Goal) (c : Cursor) (tree : g.Tree) (c' : Cursor),
    (Parser.goal g).run productions limit room _ c = .done tree c' → c'.remaining < c.remaining
  fits : ∀ g : Goal, Fits room (level g) ((Parser.goal g).run productions limit room _)

/-- As long as goals meet what is demanded of them, the levels fit for the parser with one less. -/
def FitsBelow (limit : Nat) (α : Type) (p : Production α) : Prop :=
  ∀ room, (∀ r, r ≤ room → GoalsMeet limit r) → Fits room 3 (p.run productions limit room α)

/-- The levels fit for whatever the parser does one level deeper, other than by a goal. -/
def Light (limit : Nat) {α : Type} (p : Production α) : Prop :=
  p.Throughout (fun _ _ => True) (FitsBelow limit)

section Light

variable {limit room : Nat} {α σ : Type}

/-- `attempt` opens no levels. -/
theorem Fits.attempt {base : Nat} {action : Action α} (h : Fits room base action) :
    Fits room base (Action.attempt action) := by
  intro c hdeep
  have hact := h c
  rw [Action.attempt] at hdeep
  cases hreply : action c with
  | done value c' =>
    rw [hreply] at hdeep
    exact hdeep.elim
  | failed error c' =>
    rw [hreply] at hact hdeep
    dsimp only at hdeep
    split at hdeep
    · exact hdeep.elim
    · exact hact hdeep

/-- Each round of a loop fits in what the tokens left allow. -/
theorem Fits.iterate {base : Nat} {step : σ → Action (Option σ)}
    (hlocated : ∀ s, (step s).Located) (h : ∀ s, Fits room base (step s)) :
    ∀ rounds s, Fits room base (Action.iterate step rounds s) := by
  intro rounds
  induction rounds with
  | zero => exact fun s c hdeep => hdeep.elim
  | succ rounds ih =>
    intro s c hdeep
    have hround := h s c
    have hlead := (hlocated s c).leadsTo.remaining_le
    rw [Action.iterate] at hdeep
    cases hstep : step s c with
    | failed error c₁ =>
      rw [hstep] at hround hdeep
      exact hround hdeep
    | done found c₁ =>
      rw [hstep] at hlead hdeep
      cases found with
      | none => exact hdeep.elim
      | some s' =>
        -- there are no more tokens ahead of the rounds that follow
        dsimp only [Reply.cursor] at hlead hdeep
        split at hdeep
        · have hrest := ih s' c₁ hdeep
          omega
        · exact hdeep.elim

/-- Wherever a parser ends for want of levels, it had fewer than four for each token ahead and four
more. -/
theorem Light.fits (hgoals : ∀ r, r ≤ room → GoalsMeet limit r) {p : Production α}
    (hp : Light limit p) : Fits room 4 (p.run productions limit room α) := by
  induction p with
  | give value => cases room <;> exact fun c hdeep => hdeep.elim
  | andThen first next ih₁ ih₂ =>
    intro c hdeep
    have hlead := (run_located (P := productions) limit room first c).leadsTo.remaining_le
    have hboth : ((first >>= next).run productions limit room _ c).IsTooDeep := hdeep
    cases hfirst : first.run productions limit room _ c with
    | failed error c₁ =>
      have hdeep₁ := ih₁ hp.1 c
      rw [hfirst] at hdeep₁
      rw [run_bind_of_failed hfirst] at hboth
      exact hdeep₁ hboth
    | done value c₁ =>
      rw [hfirst, Reply.cursor] at hlead
      rw [run_bind_of_done hfirst] at hboth
      have hrest := ih₂ value (hp.2 value) c₁ hboth
      omega
  | look distance => cases room <;> exact fun c hdeep => hdeep.elim
  | callee => cases room <;> exact fun c hdeep => hdeep.elim
  | advance => cases room <;> exact fun c hdeep => hdeep.elim
  | unexpected expected =>
    intro c hdeep
    rw [run_unexpected] at hdeep
    obtain ⟨_, _, herror⟩ := hdeep
    cases herror
  | unsupported construct =>
    intro c hdeep
    rw [run_unsupported] at hdeep
    obtain ⟨_, _, herror⟩ := hdeep
    cases herror
  | attempt inner ih =>
    intro c hdeep
    rw [run_attempt] at hdeep
    exact (ih hp).attempt c hdeep
  | iterate step start ih =>
    intro c hdeep
    rw [run_iterate] at hdeep
    have hlocated : ∀ s, ((step s).run productions limit room _).Located :=
      fun s => run_located limit room (step s)
    exact Fits.iterate hlocated (fun s => ih s (hp.2 s)) _ start c hdeep
  | goal g =>
    intro c hdeep
    have hgoal := (hgoals room (Nat.le_refl room)).fits g c hdeep
    have := level_le_four g
    omega
  | deeper inner =>
    intro c hdeep
    cases room with
    | zero => omega
    | succ room =>
      rw [run_deeper] at hdeep
      have hinner := hp.1 room (fun r hr => hgoals r (Nat.le_succ_of_le hr)) c hdeep
      omega

end Light

/-! ## Up to the first token -/

/-- At the cursor, the parser gives a value as in `Q` only behind a token that it has taken; and
where it ends for want of levels, it had fewer than four for each token ahead, and a base. -/
structure Takes (limit room base : Nat) {α : Type} (Q : α → Prop) (p : Production α)
    (c : Cursor) : Prop where
  moves : ∀ v c', p.run productions limit room α c = .done v c' → Q v → c'.remaining < c.remaining
  fits : Light limit p → (p.run productions limit room α c).IsTooDeep →
    room < 4 * c.remaining + base

/-- Any value. -/
abbrev Any {α : Type} (_ : α) : Prop := True

section Takes

variable {limit room base : Nat} {α β : Type} {Q : β → Prop} {p : Production α}
  {f : α → Production β} {c : Cursor}

/-- A value that does not count need not take anything. -/
theorem takes_pure {v : β} (h : ¬ Q v) : Takes limit room base Q (pure v) c where
  moves w c' hrun hw := by
    rw [run_pure] at hrun
    cases hrun
    exact absurd hw h
  fits _ hdeep := by
    rw [run_pure] at hdeep
    exact hdeep.elim

/-- A failure gives no value. -/
theorem takes_unexpected (expected : List String) :
    Takes limit room base Q (unexpected expected) c where
  moves v c' hrun _ := by
    rw [run_unexpected] at hrun
    cases hrun
  fits _ hdeep := by
    rw [run_unexpected] at hdeep
    obtain ⟨_, _, herror⟩ := hdeep
    cases herror

theorem takes_unsupported (construct : String) :
    Takes limit room base Q (unsupported construct) c where
  moves v c' hrun _ := by
    rw [run_unsupported] at hrun
    cases hrun
  fits _ hdeep := by
    rw [run_unsupported] at hdeep
    obtain ⟨_, _, herror⟩ := hdeep
    cases herror

/-- Moving on takes a token, unless the end of the input is under the cursor. -/
theorem takes_advance (h : c.kindAt 0 ≠ .eof) : Takes limit room base Any advance c where
  moves v c' hrun _ := by
    rw [run_advance] at hrun
    cases hrun
    exact Cursor.remaining_advance_lt h
  fits _ hdeep := by
    rw [run_advance] at hdeep
    exact hdeep.elim

/-- What leaves the cursor where it is leaves the first token to what comes next. -/
theorem takes_of_done {v : α} (h : p.run productions limit room α c = .done v c)
    (hf : Takes limit room base Q (f v) c) : Takes limit room base Q (p >>= f) c where
  moves w c' hrun hw := by
    rw [run_bind_of_done h] at hrun
    exact hf.moves w c' hrun hw
  fits hlight hdeep := by
    rw [run_bind_of_done h] at hdeep
    exact hf.fits (hlight.2 v) hdeep

/-- Looking ahead takes nothing, so that what follows must. -/
theorem takes_look {f : TokenKind → Production β} (n : Nat)
    (hf : Takes limit room base Q (f (c.kindAt n)) c) :
    Takes limit room base Q (look n >>= f) c :=
  takes_of_done (run_look limit room c n) hf

theorem takes_kind {f : TokenKind → Production β}
    (hf : Takes limit room base Q (f (c.kindAt 0)) c) : Takes limit room base Q (kind >>= f) c :=
  takes_look 0 hf

theorem takes_isAt {f : Bool → Production β} (t : Terminal)
    (hf : Takes limit room base Q (f (t.accepts (c.kindAt 0))) c) :
    Takes limit room base Q (isAt t >>= f) c :=
  takes_of_done (run_isAt t) hf

theorem takes_isNext {f : Bool → Production β} (t : Terminal)
    (hf : Takes limit room base Q (f (t.accepts (c.kindAt 1))) c) :
    Takes limit room base Q (isNext t >>= f) c :=
  takes_of_done (run_isNext t) hf

theorem takes_areAhead {f : Bool → Production β} (n : Nat) (ts : List Terminal)
    (hf : Takes limit room base Q (f (terminalsAhead c.symbols n ts)) c) :
    Takes limit room base Q (areAhead n ts >>= f) c :=
  takes_of_done (run_areAhead ts n) hf

/-- What is done a level deeper needs one level more. -/
theorem takes_deeper (h : ∀ r, r < room → Takes limit r base Any p c) :
    Takes limit room (base + 1) Any (deeper p) c := by
  cases room with
  | zero =>
    constructor
    · intro v c' hrun _
      cases hrun
    · intro _ _
      omega
  | succ room =>
    have hinner := h room (Nat.lt_succ_self room)
    constructor
    · intro v c' hrun hv
      rw [run_deeper] at hrun
      exact hinner.moves v c' hrun hv
    · intro hlight hdeep
      rw [run_deeper] at hdeep
      have := hinner.fits hlight.2 hdeep
      omega

/-- An attempt that succeeds has taken what its parser takes. -/
theorem takes_attempt (hp : Takes limit room base Any p c) :
    Takes limit room base (·.isOk) (attempt p) c where
  moves result c' hrun hok := by
    rw [run_attempt, Action.attempt] at hrun
    split at hrun
    · next value c₁ h =>
      cases hrun
      exact hp.moves value c' h trivial
    · split at hrun
      · cases hrun
        cases hok
      · cases hrun
  fits hlight hdeep := by
    have hfirst := hp.fits hlight
    rw [run_attempt, Action.attempt] at hdeep
    split at hdeep
    · exact hdeep.elim
    · next error c₁ h =>
      rw [h] at hfirst
      split at hdeep
      · exact hdeep.elim
      · exact hfirst hdeep

variable (hgoals : ∀ r, r ≤ room → GoalsMeet limit r)
include hgoals

/-- Behind the first token there are four levels for each token that is left. -/
theorem takes_behind {v : α} {c₁ : Cursor} (h : p.run productions limit room α c = .done v c₁)
    (hlt : c₁.remaining < c.remaining) : Takes limit room base Q (p >>= f) c where
  moves w c' hrun _ := by
    rw [run_bind_of_done h] at hrun
    have hlead := (run_located (P := productions) limit room (f v) c₁).leadsTo.remaining_le
    rw [hrun, Reply.cursor] at hlead
    omega
  fits hlight hdeep := by
    rw [run_bind_of_done h] at hdeep
    have hrest := Light.fits hgoals (hlight.2 v) c₁ hdeep
    omega

/-- Where the first parser has taken no token, the first token is left to what comes next. -/
theorem takes_bind_or {R : α → Prop} (hp : Takes limit room base R p c)
    (hstay : ∀ v c₁, p.run productions limit room α c = .done v c₁ → ¬ R v →
      c₁ = c ∧ Takes limit room base Q (f v) c) :
    Takes limit room base Q (p >>= f) c := by
  cases h : p.run productions limit room α c with
  | done v c₁ =>
    by_cases hR : R v
    · exact takes_behind hgoals h (hp.moves v c₁ h hR)
    · obtain ⟨rfl, hf⟩ := hstay v c₁ h hR
      exact takes_of_done h hf
  | failed error c₁ =>
    constructor
    · intro w c' hrun _
      rw [run_bind_of_failed h] at hrun
      cases hrun
    · intro hlight hdeep
      rw [run_bind_of_failed h] at hdeep
      have hfirst := hp.fits hlight.1
      rw [h] at hfirst
      exact hfirst hdeep

/-- A parser that takes a token may be followed by any other. -/
theorem takes_bind (hp : Takes limit room base Any p c) :
    Takes limit room base Q (p >>= f) c :=
  takes_bind_or hgoals hp fun _ _ _ hnot => absurd trivial hnot

theorem takes_map {g : α → β} (hp : Takes limit room base Any p c) :
    Takes limit room base Q (g <$> p) c :=
  takes_bind hgoals hp

/-- A goal of a low `level` takes a token by assumption, as `GoalsMeet` has it. -/
theorem takes_goal (g : Goal) (hlevel : level g ≤ base) :
    Takes limit room base Any (Parser.goal g) c where
  moves tree c' hrun _ := (hgoals room (Nat.le_refl room)).moves g c tree c' hrun
  fits _ hdeep := by
    have := (hgoals room (Nat.le_refl room)).fits g c hdeep
    omega

/-- `accept` takes the terminal where it is. -/
theorem takes_accept_of_eq {f : Bool → Production β} {t : Terminal} (h : c.kindAt 0 = t.kind) :
    Takes limit room base Q (accept t >>= f) c :=
  takes_behind hgoals (run_accept_of_eq h)
    (Cursor.remaining_advance_lt (Terminal.ne_eof_of_eq h))

/-- Where the terminal is not there, what follows must take a token. -/
theorem takes_accept {f : Bool → Production β} {t : Terminal}
    (hf : Takes limit room base Q (f false) c) : Takes limit room base Q (accept t >>= f) c := by
  by_cases h : c.kindAt 0 = t.kind
  · exact takes_accept_of_eq hgoals h
  · exact takes_of_done (run_accept_of_ne h) hf

theorem takes_acceptAll {f : Bool → Production β} {t : Terminal} {ts : List Terminal}
    (hf : Takes limit room base Q (f false) c) :
    Takes limit room base Q (acceptAll (t :: ts) >>= f) c := by
  cases h : terminalsAhead c.symbols 0 (t :: ts) with
  | false => exact takes_of_done (run_acceptAll_of_false h) hf
  | true =>
    -- the first of the terminals is under the cursor
    have hfirst : c.kindAt 0 = t.kind := by
      rw [terminalsAhead, Bool.and_eq_true, Terminal.accepts_iff, ← c.kindAt_eq] at h
      exact h.1
    apply takes_bind hgoals
    apply takes_areAhead
    rw [h, if_pos rfl]
    apply takes_bind hgoals
    exact takes_bind hgoals (takes_advance (Terminal.ne_eof_of_eq hfirst))

theorem takes_expect (t : Terminal) : Takes limit room base Any (expect t) c :=
  takes_accept hgoals (takes_unexpected [t.text])

theorem takes_expectAll (t : Terminal) (ts : List Terminal) :
    Takes limit room base Any (expectAll (t :: ts)) c :=
  takes_bind hgoals (takes_expect hgoals t)

/-- A name that is found has been taken. -/
theorem takes_identifier? : Takes limit room base (·.isSome) identifier? c := by
  apply takes_kind
  split
  · next name hname => exact takes_bind hgoals (takes_advance (by simp [hname]))
  · exact takes_pure Bool.false_ne_true

theorem takes_identifier : Takes limit room base Any identifier c := by
  apply takes_bind_or hgoals (takes_identifier? hgoals)
  intro name c₁ hrun hnone
  cases name with
  | some name => exact absurd rfl hnone
  | none => exact ⟨eq_of_identifier?_none hrun, takes_unexpected _⟩

/-- A value of `behind?` stands behind a terminal that was taken. -/
theorem takes_behind? {t : Terminal} : Takes limit room base (·.isSome) (behind? t p) c :=
  takes_accept hgoals (takes_pure Bool.false_ne_true)

/-- Where nothing is behind the terminal, the first token is left to what comes next. -/
theorem takes_behind?_bind {f : Option α → Production β} {t : Terminal}
    (hf : Takes limit room base Q (f none) c) :
    Takes limit room base Q (behind? t p >>= f) c := by
  apply takes_bind_or hgoals (takes_behind? hgoals)
  intro found c₁ hrun hnone
  cases found with
  | some value => exact absurd rfl hnone
  | none => exact ⟨eq_of_behind?_none hrun, hf⟩

/-- Each choice must take a token for its value. -/
theorem takes_firstOf {ps : List (Production α)} (h : ∀ p ∈ ps, Takes limit room base Any p c)
    (known : List String) : Takes limit room base Any (firstOf known ps) c := by
  induction ps generalizing known with
  | nil => exact takes_unexpected known
  | cons p ps ih =>
    apply takes_bind_or hgoals (takes_attempt (h p List.mem_cons_self))
    intro result c₁ hrun herror
    cases result with
    | ok value => exact absurd rfl herror
    | error expected =>
      exact ⟨eq_of_attempt_error hrun, ih (fun q hq => h q (List.mem_cons_of_mem p hq)) _⟩

end Takes

end Grammar

end SqlGrammar
