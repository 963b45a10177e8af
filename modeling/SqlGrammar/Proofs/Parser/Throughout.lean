import SqlGrammar.Parser.Run

/-!
# The loops of a parser

`Throughout Loop Deep p` says that every repetition in the parser `p` has a step as `Loop` demands,
and that everything `p` does a level deeper is as `Deep` demands. Goals are not entered: what is
demanded of a whole grammar is demanded of each of its productions. The combinators are gone through
here once, so that of a production only its own steps are left.
-/

set_option autoImplicit false

namespace SqlGrammar.Parser

variable {G : Type} {Tree : G → Type} {α β σ : Type}
  {Loop : (σ : Type) → (σ → Parser Tree (Option σ)) → Prop}
  {Deep : (α : Type) → Parser Tree α → Prop}

/-- The steps of the repetitions in a parser, and what it does a level deeper, are as demanded. -/
def Throughout (Loop : (σ : Type) → (σ → Parser Tree (Option σ)) → Prop)
    (Deep : (α : Type) → Parser Tree α → Prop) : {α : Type} → Parser Tree α → Prop
  | _, andThen first next => first.Throughout Loop Deep ∧ ∀ v, (next v).Throughout Loop Deep
  | _, attempt inner => inner.Throughout Loop Deep
  | _, iterate step _ => Loop _ step ∧ ∀ s, (step s).Throughout Loop Deep
  | _, deeper inner => Deep _ inner ∧ inner.Throughout Loop Deep
  | _, _ => True

/-- A round of the loop that is not the last one has taken a token. -/
def LoopMoves (P : Productions Tree) (σ : Type) (step : σ → Parser Tree (Option σ)) : Prop :=
  ∀ (limit room : Nat) (s s' : σ) (c c' : Cursor),
    (step s).run P limit room _ c = .done (some s') c' → c'.remaining < c.remaining

/-! ## Forms of parsers -/

/-- There is no repetition in `pure`, nor in the other parsers of one step. -/
@[simp] theorem throughout_pure (v : α) : (pure v : Parser Tree α).Throughout Loop Deep := trivial

/-- For `>>=` both parsers count, the second for every value of the first. -/
@[simp] theorem throughout_bind {p : Parser Tree α} {f : α → Parser Tree β} :
    (p >>= f).Throughout Loop Deep ↔
      p.Throughout Loop Deep ∧ ∀ v, (f v).Throughout Loop Deep :=
  Iff.rfl

/-- The parser under `<$>` is all that counts. -/
@[simp] theorem throughout_map {p : Parser Tree α} {f : α → β} :
    (f <$> p).Throughout Loop Deep ↔ p.Throughout Loop Deep :=
  ⟨fun h => h.1, fun h => ⟨h, fun _ => trivial⟩⟩

@[simp] theorem throughout_look (n : Nat) :
    (look n : Parser Tree _).Throughout Loop Deep := trivial

@[simp] theorem throughout_kind : (kind : Parser Tree _).Throughout Loop Deep := trivial

@[simp] theorem throughout_callee : (callee : Parser Tree _).Throughout Loop Deep := trivial

@[simp] theorem throughout_advance : (advance : Parser Tree _).Throughout Loop Deep := trivial

@[simp] theorem throughout_unexpected (expected : List String) :
    (unexpected expected : Parser Tree α).Throughout Loop Deep := trivial

@[simp] theorem throughout_unsupported (construct : String) :
    (unsupported construct : Parser Tree α).Throughout Loop Deep := trivial

/-- A goal is not entered. -/
@[simp] theorem throughout_goal (g : G) : (goal g : Parser Tree _).Throughout Loop Deep := trivial

/-- An `attempt` is gone into. -/
@[simp] theorem throughout_attempt {p : Parser Tree α} :
    (attempt p).Throughout Loop Deep ↔ p.Throughout Loop Deep :=
  Iff.rfl

/-- What `deeper` does must be as `Deep` demands, besides what is in it. -/
@[simp] theorem throughout_deeper {p : Parser Tree α} :
    (deeper p).Throughout Loop Deep ↔ Deep α p ∧ p.Throughout Loop Deep :=
  Iff.rfl

/-- The step of `iterate` must be as `Loop` demands, besides what is in each round. -/
@[simp] theorem throughout_iterate {step : σ → Parser Tree (Option σ)} {s : σ} :
    (iterate step s).Throughout Loop Deep ↔
      Loop σ step ∧ ∀ s, (step s).Throughout Loop Deep :=
  Iff.rfl

/-- Each branch counts under its own condition. -/
@[simp] theorem throughout_ite {b : Prop} [Decidable b] {p q : Parser Tree α} :
    (if b then p else q).Throughout Loop Deep ↔
      (b → p.Throughout Loop Deep) ∧ (¬ b → q.Throughout Loop Deep) := by
  split <;> simp [*]

/-! ## Combinators -/

@[simp] theorem throughout_isAt (t : Terminal) : (isAt t : Parser Tree _).Throughout Loop Deep := by
  simp [isAt]

@[simp] theorem throughout_isNext (t : Terminal) :
    (isNext t : Parser Tree _).Throughout Loop Deep := by
  simp [isNext]

/-- By induction over the terminals that `areAhead` looks for. -/
@[simp] theorem throughout_areAhead (n : Nat) (ts : List Terminal) :
    (areAhead n ts : Parser Tree _).Throughout Loop Deep := by
  induction ts generalizing n with
  | nil => simp [areAhead]
  | cons t ts ih => simp [areAhead, ih]

/-- By induction over the number of tokens that `advanceBy` takes. -/
@[simp] theorem throughout_advanceBy (n : Nat) :
    (advanceBy n : Parser Tree _).Throughout Loop Deep := by
  induction n with
  | zero => simp [advanceBy]
  | succ n ih => simp [advanceBy, ih]

@[simp] theorem throughout_accept (t : Terminal) :
    (accept t : Parser Tree _).Throughout Loop Deep := by
  simp [accept]

@[simp] theorem throughout_expect (t : Terminal) :
    (expect t : Parser Tree _).Throughout Loop Deep := by
  simp [expect]

@[simp] theorem throughout_acceptAll (ts : List Terminal) :
    (acceptAll ts : Parser Tree _).Throughout Loop Deep := by
  simp [acceptAll]

/-- By induction over the terminals that `expectAll` takes. -/
@[simp] theorem throughout_expectAll (ts : List Terminal) :
    (expectAll ts : Parser Tree _).Throughout Loop Deep := by
  induction ts with
  | nil => simp [expectAll]
  | cons t ts ih => simp [expectAll, ih]

/-- What counts of `behind?` is the parser behind the terminal. -/
@[simp] theorem throughout_behind {t : Terminal} {p : Parser Tree α} :
    (behind? t p).Throughout Loop Deep ↔ p.Throughout Loop Deep := by
  simp [behind?]

@[simp] theorem throughout_identifier? :
    (identifier? : Parser Tree _).Throughout Loop Deep := by
  simp only [identifier?, throughout_bind, throughout_kind, true_and]
  intro k
  split <;> simp

@[simp] theorem throughout_identifier : (identifier : Parser Tree _).Throughout Loop Deep := by
  simp only [identifier, throughout_bind, throughout_identifier?, true_and]
  intro name
  split <;> simp

@[simp] theorem throughout_expectWord (word : String) :
    (expectWord word : Parser Tree _).Throughout Loop Deep := by
  simp only [expectWord, throughout_bind, throughout_kind, true_and]
  intro k
  split <;> simp

/-- The step of a repetition that collects what a parser finds. -/
def collecting (p : Parser Tree (Option α)) (found : List α) : Parser Tree (Option (List α)) := do
  match ← p with
  | some x => return some (found ++ [x])
  | none => return none

/-- A round of `collecting` is the parser whose finds it collects. -/
@[simp] theorem throughout_collecting {p : Parser Tree (Option α)} {found : List α} :
    (collecting p found).Throughout Loop Deep ↔ p.Throughout Loop Deep := by
  refine ⟨fun h => h.1, fun h => ⟨h, ?_⟩⟩
  rintro (_ | x) <;> exact trivial

/-- The loop of `many` is `collecting`. -/
@[simp] theorem throughout_many {p : Parser Tree (Option α)} :
    (many p).Throughout Loop Deep ↔ Loop _ (collecting p) ∧ p.Throughout Loop Deep := by
  have hmany : many p = iterate (collecting p) [] := rfl
  rw [hmany, throughout_iterate]
  simp only [throughout_collecting, forall_const]

/-- The loop of `commaSeparated` collects what is behind each comma. -/
@[simp] theorem throughout_commaSeparated {p : Parser Tree α}
    (hloop : Loop _ (collecting (behind? Operator.comma p))) (hp : p.Throughout Loop Deep) :
    (commaSeparated p).Throughout Loop Deep := by
  simp [commaSeparated, separated, hloop, hp]

/-- What counts of `parenthesized` is the parser between the parentheses. -/
@[simp] theorem throughout_parenthesized {p : Parser Tree α} :
    (parenthesized p).Throughout Loop Deep ↔ p.Throughout Loop Deep := by
  simp [parenthesized]

/-- Every choice of `firstOf` counts. -/
theorem throughout_firstOf {ps : List (Parser Tree α)}
    (h : ∀ p ∈ ps, p.Throughout Loop Deep) (known : List String) :
    (firstOf known ps).Throughout Loop Deep := by
  induction ps generalizing known with
  | nil => exact trivial
  | cons p ps ih =>
    refine ⟨h p List.mem_cons_self, ?_⟩
    rintro (expected | value)
    · exact ih (fun q hq => h q (List.mem_cons_of_mem p hq)) _
    · exact trivial

@[simp] theorem throughout_expectEnd : (expectEnd : Parser Tree _).Throughout Loop Deep := by
  simp only [expectEnd, throughout_bind, throughout_accept, throughout_kind, true_and]
  intro _ k
  split <;> simp

end SqlGrammar.Parser
