import SqlGrammar.Proofs.Lexer.Ordered
import SqlGrammar.Proofs.Parser.Reads
import SqlGrammar.Proofs.Parser.Throughout

/-!
# Parsing with positions

A context keeps all tokens, the position of the next one among them, and how deep goals are nested.
Parsers are run over contexts with every step checked: looking outside of the tokens, subtracting
below zero, ending a level that was not begun, and a loop that does not move on all make the run
fail. Where the loops of a grammar move on, no check fails, and a run over contexts does what the
run over cursors does (`runChecked_mirrors`).
-/

set_option autoImplicit false

namespace SqlGrammar

/-- The difference of two numbers, if it is not below zero. -/
def subtract? (m n : Nat) : Option Nat := if n ≤ m then some (m - n) else none

theorem subtract?_of_le {m n : Nat} (h : n ≤ m) : subtract? m n = some (m - n) := if_pos h

/-- The state of a parse: the tokens, the position of the next one, how many levels are nested, and
how many may be. -/
structure Context where
  tokens : List Token
  position : Nat
  depth : Nat
  limit : Nat

/-- What is done with a context: nothing if a check fails, and otherwise a value or an error, and
the context that is left. -/
abbrev CheckedAction (α : Type) := Context → Option (Except ParseError α × Context)

namespace Context

variable {α σ : Type}

/-- The start of a list of tokens. -/
def ofTokens (tokens : List Token) (limit : Nat) : Context :=
  ⟨(Cursor.ofTokens tokens).tokens, 0, 0, limit⟩

/-! ## Checked steps -/

/-- The position of the last token. -/
def last? (x : Context) : Option Nat := subtract? x.tokens.length 1

/-- The token `n` places ahead, or the last one of all. -/
def peek? (x : Context) (n : Nat) : Option Token := do
  let last ← x.last?
  x.tokens[min (x.position + n) last]?

/-- The number of tokens before the last one. -/
def remaining? (x : Context) : Option Nat := do
  let last ← x.last?
  subtract? last x.position

/-- The context one position further on; it stays where it is at an end of the input. -/
def advance? (x : Context) : Option Context := do
  let token ← x.peek? 0
  return if token.isEof then x else { x with position := x.position + 1 }

/-- Undoes an action that fails because of the token at the position. -/
def attempt (action : CheckedAction α) : CheckedAction (Except (List String) α) := fun x => do
  let start ← x.peek? 0
  match ← action x with
  | (.ok value, y) => return (.ok (.ok value), y)
  | (.error error, y) =>
    if error.isMismatchAt start.span.start then
      return (.ok (.error error.expected), { y with position := x.position })
    else
      return (.error error, y)

/-- Repeats a step until it gives nothing. Every round but the last has to move on. -/
def iterate (step : σ → CheckedAction (Option σ)) : (rounds : Nat) → σ → CheckedAction σ
  | 0, _, _ => none
  | rounds + 1, state, x => do
    match ← step state x with
    | (.error error, y) => return (.error error, y)
    | (.ok none, y) => return (.ok state, y)
    | (.ok (some state'), y) =>
      if x.position < y.position then iterate step rounds state' y else none

/-- Does something one level deeper, if there may be one more level. -/
def nested (inner : CheckedAction α) : CheckedAction α := fun x =>
  if x.limit ≤ x.depth then do
    let token ← x.peek? 0
    return (.error (.tooDeep x.limit token.span), x)
  else do
    let (result, y) ← inner { x with depth := x.depth + 1 }
    let depth ← subtract? y.depth 1
    return (result, { y with depth })

end Context

/-! ## Checked runs -/

namespace Parser

variable {G : Type} {Tree : G → Type}

/-- What a parser does with a context, when `nested` tells what a parser one level deeper does. -/
def performChecked (P : Productions Tree)
    (nested : (α : Type) → Parser Tree α → CheckedAction α) :
    {α : Type} → Parser Tree α → CheckedAction α
  | _, give value, x => some (.ok value, x)
  | _, andThen first next, x => do
    match ← first.performChecked P nested x with
    | (.ok value, y) => (next value).performChecked P nested y
    | (.error error, y) => return (.error error, y)
  | _, look distance, x => do
    let token ← x.peek? distance
    return (.ok token.kind, x)
  | _, callee, x => do
    let token ← x.peek? 0
    return (.ok token.callee?, x)
  | _, advance, x => do
    let y ← x.advance?
    return (.ok (), y)
  | _, unexpected expected, x => do
    let token ← x.peek? 0
    return (.error (.unexpected expected token.kind token.span), x)
  | _, unsupported construct, x => do
    let token ← x.peek? 0
    return (.error (.unsupported construct token.span), x)
  | _, attempt inner, x => Context.attempt (inner.performChecked P nested) x
  | _, iterate step start, x =>
    Context.iterate (fun state => (step state).performChecked P nested) x.tokens.length start x
  | _, goal g, x => nested _ (P g) x
  | _, deeper inner, x => nested _ inner x

/-- What a parser does with a context, for as many levels as are said to be left. -/
def runChecked (P : Productions Tree) :
    (room : Nat) → (α : Type) → Parser Tree α → CheckedAction α
  | 0, _, p => p.performChecked P fun _ _ => Context.nested fun _ => none
  | room + 1, _, p => p.performChecked P fun α q => Context.nested (runChecked P room α q)

end Parser

/-! ## Contexts and cursors -/

namespace Context

variable {α σ : Type} {x y : Context} {c : Cursor}

/-- The tokens from the position on are those of the cursor. -/
def Views (x : Context) (c : Cursor) : Prop := x.tokens.drop x.position = c.tokens

/-- The contexts differ in their positions only. -/
structure Shares (x y : Context) : Prop where
  tokens : y.tokens = x.tokens
  depth : y.depth = x.depth
  limit : y.limit = x.limit

theorem Shares.refl (x : Context) : x.Shares x := ⟨rfl, rfl, rfl⟩

theorem Shares.trans {z : Context} (h : x.Shares y) (h' : y.Shares z) : x.Shares z :=
  ⟨h'.tokens.trans h.tokens, h'.depth.trans h.depth, h'.limit.trans h.limit⟩

/-- The position and what remains make up all tokens. -/
theorem Views.length (h : x.Views c) : x.position + c.remaining + 1 = x.tokens.length := by
  have hlength := congrArg List.length h
  simp only [List.length_drop, Cursor.tokens, List.length_append, List.length_singleton] at hlength
  simp only [Cursor.remaining]
  omega

theorem Views.last? (h : x.Views c) : x.last? = some (x.position + c.remaining) := by
  have hlength := h.length
  rw [Context.last?, subtract?_of_le (by omega)]
  congr 1
  omega

theorem Views.peek? (h : x.Views c) (n : Nat) : x.peek? n = some (c.peek n) := by
  have hpeek : c.tokens[min n c.remaining]? = some (c.peek n) := by
    obtain ⟨ahead, final, hfinal⟩ := c
    simp only [Cursor.tokens, Cursor.remaining, Cursor.peek]
    rcases Nat.lt_or_ge n ahead.length with hlt | hge
    · rw [Nat.min_eq_left (Nat.le_of_lt hlt), List.getElem?_append_left hlt]
      simp [hlt]
    · rw [Nat.min_eq_right hge, List.getElem?_append_right (Nat.le_refl _)]
      simp [hge]
  have hindex : min (x.position + n) (x.position + c.remaining) =
      x.position + min n c.remaining := by
    omega
  simp only [Context.peek?, h.last?, Option.bind_eq_bind, Option.bind_some]
  rw [hindex, ← List.getElem?_drop, h]
  exact hpeek

theorem Views.current (h : x.Views c) : x.peek? 0 = some c.current := by
  rw [h.peek?]
  obtain ⟨ahead, final, hfinal⟩ := c
  cases ahead <;> rfl

theorem Views.remaining? (h : x.Views c) : x.remaining? = some c.remaining := by
  simp only [Context.remaining?, h.last?, Option.bind_eq_bind, Option.bind_some]
  rw [subtract?_of_le (Nat.le_add_right _ _), Nat.add_sub_cancel_left]

/-- Behind a token that does not mark an end of the input is the next position. -/
theorem Views.moveOn (h : x.Views c) (heof : ¬ c.current.isEof = true) :
    ({ x with position := x.position + 1 } : Context).Views c.advance := by
  have hmove : c.advance.tokens = c.tokens.tail := by
    obtain ⟨ahead, final, hfinal⟩ := c
    cases ahead with
    | nil => exact absurd hfinal heof
    | cons token ahead =>
      have hadvance : Cursor.advance ⟨token :: ahead, final, hfinal⟩ = ⟨ahead, final, hfinal⟩ :=
        if_neg heof
      rw [hadvance]
      rfl
  rw [Views, hmove, ← h, List.tail_drop]

theorem Views.advance? (h : x.Views c) :
    ∃ y, x.advance? = some y ∧ y.Views c.advance ∧ x.Shares y := by
  simp only [Context.advance?, h.current, Option.bind_eq_bind, Option.bind_some, pure]
  refine ⟨_, rfl, ?_⟩
  by_cases heof : c.current.isEof = true
  · -- neither moves at an end of the input
    have hstay : c.advance = c := by
      obtain ⟨ahead, final, hfinal⟩ := c
      cases ahead with
      | nil => rfl
      | cons token ahead => exact if_pos heof
    rw [if_pos heof, hstay]
    exact ⟨h, .refl x⟩
  · rw [if_neg heof]
    exact ⟨h.moveOn heof, rfl, rfl, rfl⟩

/-! ## Checked actions -/

/-- At contexts with this number of levels left, no check of the first action fails, and it does
what the second action does at the cursor. -/
def Mirrors (limit room : Nat) (checked : CheckedAction α) (action : Action α) : Prop :=
  ∀ x c, x.Views c → x.limit = limit → limit - x.depth = room →
    ∃ y, checked x = some ((action c).toExcept, y) ∧ y.Views (action c).cursor ∧ x.Shares y

variable {limit room : Nat}

theorem Mirrors.attempt {checked : CheckedAction α} {action : Action α}
    (h : Mirrors limit room checked action) :
    Mirrors limit room (Context.attempt checked) (Action.attempt action) := by
  intro x c hviews hlimit hroom
  obtain ⟨y, hchecked, hviews', hshares⟩ := h x c hviews hlimit hroom
  simp only [Context.attempt, hviews.current, hchecked, Option.bind_eq_bind, Option.bind_some]
  rw [Action.attempt]
  cases hact : action c with
  | done value c' =>
    rw [hact] at hviews'
    exact ⟨y, rfl, hviews', hshares⟩
  | failed error c' =>
    rw [hact] at hviews'
    dsimp only [Reply.toExcept]
    split
    · refine ⟨{ y with position := x.position }, rfl, ?_, hshares.tokens, hshares.depth,
        hshares.limit⟩
      rw [Views, hshares.tokens]
      exact hviews
    · exact ⟨y, rfl, hviews', hshares⟩

/-- Rounds that move on pass the check of a loop. -/
theorem Mirrors.iterate {checked : σ → CheckedAction (Option σ)} {step : σ → Action (Option σ)}
    (hmoves : ∀ s s' c c', step s c = .done (some s') c' → c'.remaining < c.remaining)
    (h : ∀ s, Mirrors limit room (checked s) (step s)) :
    ∀ rounds s x c, c.remaining < rounds → x.Views c → x.limit = limit → limit - x.depth = room →
      ∃ y, Context.iterate checked rounds s x =
          some ((Action.iterate step rounds s c).toExcept, y) ∧
        y.Views (Action.iterate step rounds s c).cursor ∧ x.Shares y := by
  intro rounds
  induction rounds with
  | zero => intro s x c hrounds; omega
  | succ rounds ih =>
    intro s x c hrounds hviews hlimit hroom
    obtain ⟨y, hchecked, hviews', hshares⟩ := h s x c hviews hlimit hroom
    simp only [Context.iterate, hchecked, Option.bind_eq_bind, Option.bind_some]
    rw [Action.iterate]
    cases hstep : step s c with
    | failed error c' =>
      rw [hstep] at hviews'
      exact ⟨y, rfl, hviews', hshares⟩
    | done found c' =>
      rw [hstep] at hviews'
      cases found with
      | none => exact ⟨y, rfl, hviews', hshares⟩
      | some s' =>
        have hlt := hmoves s s' c c' hstep
        have hposition : x.position < y.position := by
          have hx := hviews.length
          have hy := hviews'.length
          rw [hshares.tokens] at hy
          simp only [Reply.cursor] at hy
          omega
        dsimp only [Reply.toExcept]
        rw [if_pos hposition, if_pos hlt]
        obtain ⟨z, hiterate, hviews'', hshares'⟩ := ih s' y c' (by omega) hviews'
          (hshares.limit.trans hlimit) (by rw [hshares.depth, hroom])
        exact ⟨z, hiterate, hviews'', hshares.trans hshares'⟩

/-- Without a level left, the error about levels is the same. -/
theorem mirrors_nested_zero (inner : CheckedAction α) :
    Mirrors limit 0 (nested inner) fun c => .failed (c.tooDeep limit) c := by
  rintro x c hviews rfl hroom
  have hfull : x.limit ≤ x.depth := by omega
  refine ⟨x, ?_, hviews, .refl x⟩
  simp only [nested, if_pos hfull, hviews.current, Option.bind_eq_bind, Option.bind_some]
  rfl

/-- A level that is begun is ended again. -/
theorem Mirrors.nested {inner : CheckedAction α} {action : Action α}
    (h : Mirrors limit room inner action) :
    Mirrors limit (room + 1) (Context.nested inner) action := by
  intro x c hviews hlimit hroom
  have hfree : ¬ x.limit ≤ x.depth := by omega
  obtain ⟨y, hinner, hviews', hshares⟩ :=
    h { x with depth := x.depth + 1 } c hviews hlimit (by simp only; omega)
  have hdepth : subtract? y.depth 1 = some x.depth := by
    rw [hshares.depth]
    exact subtract?_of_le (Nat.le_add_left 1 _)
  refine ⟨{ y with depth := x.depth }, ?_, hviews', hshares.tokens, rfl, hshares.limit⟩
  simp only [Context.nested, if_neg hfree, hinner, hdepth, Option.bind_eq_bind, Option.bind_some]
  rfl

end Context

/-! ## Checked parsers -/

namespace Parser

open Context

variable {G : Type} {Tree : G → Type} {P : Productions Tree} {limit room : Nat} {α : Type}

/-- All loops in the parser move on in each round. -/
abbrev Moving (P : Productions Tree) {α : Type} (p : Parser Tree α) : Prop :=
  p.Throughout (LoopMoves P) fun _ _ => True

theorem performChecked_mirrors {nested' : (α : Type) → Parser Tree α → CheckedAction α}
    {nested : (α : Type) → Parser Tree α → Action α}
    (hloop : ∀ σ step, LoopMoves P σ step → ∀ s s' c c',
      (step s).perform P nested c = .done (some s') c' → c'.remaining < c.remaining)
    (hnested : ∀ α p, Moving P p → Mirrors limit room (nested' α p) (nested α p))
    (hP : ∀ g, Moving P (P g)) (p : Parser Tree α) (hp : Moving P p) :
    Mirrors limit room (p.performChecked P nested') (p.perform P nested) := by
  induction p with
  | give value => exact fun x c hviews _ _ => ⟨x, rfl, hviews, .refl x⟩
  | andThen first next ih₁ ih₂ =>
    intro x c hviews hlimit hroom
    obtain ⟨y, hfirst, hviews', hshares⟩ := ih₁ hp.1 x c hviews hlimit hroom
    simp only [performChecked, hfirst, Option.bind_eq_bind, Option.bind_some]
    rw [perform]
    cases hreply : first.perform P nested c with
    | failed error c' =>
      rw [hreply] at hviews'
      exact ⟨y, rfl, hviews', hshares⟩
    | done value c' =>
      rw [hreply] at hviews'
      obtain ⟨z, hnext, hviews'', hshares'⟩ := ih₂ value (hp.2 value) y c' hviews'
        (hshares.limit.trans hlimit) (by rw [hshares.depth, hroom])
      exact ⟨z, hnext, hviews'', hshares.trans hshares'⟩
  | look distance =>
    intro x c hviews _ _
    refine ⟨x, ?_, hviews, .refl x⟩
    simp only [performChecked, hviews.peek?, Option.bind_eq_bind, Option.bind_some]
    rfl
  | callee =>
    intro x c hviews _ _
    refine ⟨x, ?_, hviews, .refl x⟩
    simp only [performChecked, hviews.current, Option.bind_eq_bind, Option.bind_some]
    rfl
  | advance =>
    intro x c hviews _ _
    obtain ⟨y, hadvance, hviews', hshares⟩ := hviews.advance?
    refine ⟨y, ?_, hviews', hshares⟩
    simp only [performChecked, hadvance, Option.bind_eq_bind, Option.bind_some]
    rfl
  | unexpected expected =>
    intro x c hviews _ _
    refine ⟨x, ?_, hviews, .refl x⟩
    simp only [performChecked, hviews.current, Option.bind_eq_bind, Option.bind_some]
    rfl
  | unsupported construct =>
    intro x c hviews _ _
    refine ⟨x, ?_, hviews, .refl x⟩
    simp only [performChecked, hviews.current, Option.bind_eq_bind, Option.bind_some]
    rfl
  | attempt inner ih => exact (ih hp).attempt
  | iterate step start ih =>
    intro x c hviews hlimit hroom
    have hlength := hviews.length
    rw [perform, iterate_rounds _ (c.remaining + 1) x.tokens.length start c (by omega) (by omega)]
    exact Mirrors.iterate (hloop _ step hp.1) (fun s => ih s (hp.2 s)) _ start x c (by omega)
      hviews hlimit hroom
  | goal g => exact hnested _ (P g) (hP g)
  | deeper inner => exact hnested _ inner hp.2

/-- If all loops move on, no check of a run fails, and the run does what it does over cursors. -/
theorem runChecked_mirrors (hP : ∀ g, Moving P (P g)) (p : Parser Tree α) (hp : Moving P p) :
    Mirrors limit room (p.runChecked P room α) (p.run P limit room α) := by
  induction room generalizing α with
  | zero =>
    exact performChecked_mirrors (fun σ step h => h limit 0)
      (fun β q _ => mirrors_nested_zero fun _ => none) hP p hp
  | succ room ih =>
    exact performChecked_mirrors (fun σ step h => h limit (room + 1))
      (fun β q hq => (ih q hq).nested) hP p hp

end Parser

end SqlGrammar
