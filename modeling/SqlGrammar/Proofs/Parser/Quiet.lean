import SqlGrammar.Proofs.Parser.Combinators
import SqlGrammar.Proofs.Parser.Expected
import SqlGrammar.Proofs.Parser.Located

/-!
# Parsers that are quiet before their first token

A parser is quiet at a cursor if it does nothing that matters before it has taken a token: it gives
no value there, and if it fails there, then the error names no terminal. What it does later is not
looked at, so that the rules for it follow a parser up to its first token only. A parser is nameless
if none of its errors names a terminal, wherever it fails.
-/

set_option autoImplicit false

namespace SqlGrammar.Parser

variable {G : Type} {Tree : G → Type} {α β : Type} {P : Productions Tree} {limit room : Nat}
  {p : Parser Tree α} {f : α → Parser Tree β} {c : Cursor}

/-- Before it has moved, the parser neither gives a value nor names a terminal. -/
structure QuietAt (P : Productions Tree) (limit room : Nat) (p : Parser Tree α) (c : Cursor) :
    Prop where
  done : ∀ v c', p.run P limit room α c = .done v c' → c'.remaining < c.remaining
  failed : ∀ expected found span c',
    p.run P limit room α c = .failed (.unexpected expected found span) c' →
      c'.remaining < c.remaining ∨ Terminal.named expected = []

/-- A parser that has moved with its value is quiet. -/
theorem quietAt_of_moved {v : α} {c' : Cursor} (h : p.run P limit room α c = .done v c')
    (hmoved : c'.remaining < c.remaining) : QuietAt P limit room p c where
  done w c₁ hrun := by
    rw [h] at hrun
    cases hrun
    exact hmoved
  failed expected found span c₁ hrun := by
    rw [h] at hrun
    cases hrun

/-- A parser that fails with an error that names no terminal is quiet. -/
theorem quietAt_of_nameless {error : ParseError} {c' : Cursor}
    (h : p.run P limit room α c = .failed error c') (hnone : Terminal.named error.expected = []) :
    QuietAt P limit room p c where
  done v c₁ hrun := by
    rw [h] at hrun
    cases hrun
  failed expected found span c₁ hrun := by
    rw [h] at hrun
    cases hrun
    exact .inr hnone

/-! ## Forms of parsers -/

/-- What comes behind the first token does not matter. -/
theorem QuietAt.bind (h : QuietAt P limit room p c) : QuietAt P limit room (p >>= f) c := by
  have hlater (v : α) (c₁ : Cursor) :
      ((f v).run P limit room β c₁).cursor.remaining ≤ c₁.remaining :=
    (run_located (P := P) limit room (f v) c₁).leadsTo.remaining_le
  constructor
  · intro w c' hrun
    obtain ⟨v, c₁, hfirst, hnext⟩ := exists_of_run_bind hrun
    have hle := hlater v c₁
    rw [hnext] at hle
    exact Nat.lt_of_le_of_lt hle (h.done v c₁ hfirst)
  · intro expected found span c' hrun
    cases hfirst : p.run P limit room α c with
    | done v c₁ =>
      rw [run_bind_of_done hfirst] at hrun
      have hle := hlater v c₁
      rw [hrun] at hle
      exact .inl (Nat.lt_of_le_of_lt hle (h.done v c₁ hfirst))
    | failed error c₁ =>
      rw [run_bind_of_failed hfirst] at hrun
      cases hrun
      exact h.failed _ _ _ _ hfirst

/-- `<$>` changes the value only. -/
theorem QuietAt.map (g : α → β) (h : QuietAt P limit room p c) :
    QuietAt P limit room (g <$> p) c := h.bind

/-- What leaves the cursor where it is leaves the first token to what comes next. -/
theorem quietAt_of_done {v : α} (h : p.run P limit room α c = .done v c)
    (hf : QuietAt P limit room (f v) c) : QuietAt P limit room (p >>= f) c where
  done w c' hrun := by
    rw [run_bind_of_done h] at hrun
    exact hf.done w c' hrun
  failed expected found span c' hrun := by
    rw [run_bind_of_done h] at hrun
    exact hf.failed expected found span c' hrun

/-- Looking ahead does not move, so that what follows must be quiet. -/
theorem quietAt_look {f : TokenKind → Parser Tree β} (n : Nat)
    (h : QuietAt P limit room (f (c.kindAt n)) c) : QuietAt P limit room (look n >>= f) c :=
  quietAt_of_done (run_look limit room c n) h

theorem quietAt_isAt {f : Bool → Parser Tree β} (t : Terminal)
    (h : QuietAt P limit room (f (t.accepts (c.kindAt 0))) c) :
    QuietAt P limit room (isAt t >>= f) c :=
  quietAt_of_done (run_isAt t) h

theorem quietAt_isNext {f : Bool → Parser Tree β} (t : Terminal)
    (h : QuietAt P limit room (f (t.accepts (c.kindAt 1))) c) :
    QuietAt P limit room (isNext t >>= f) c :=
  quietAt_of_done (run_isNext t) h

/-- Words that are no `Terminal.named` may stand in the error. -/
theorem quietAt_unexpected {expected : List String} (hnone : Terminal.named expected = []) :
    QuietAt P limit room (unexpected expected : Parser Tree α) c :=
  quietAt_of_nameless (run_unexpected limit room c expected) hnone

/-- The error of a refusal has no expected terminals. -/
theorem quietAt_unsupported (construct : String) :
    QuietAt P limit room (unsupported construct : Parser Tree α) c :=
  quietAt_of_nameless (run_unsupported limit room c construct) rfl

/-- Before the end, `advance` moves. -/
theorem quietAt_advance (h : c.kindAt 0 ≠ .eof) : QuietAt P limit room advance c :=
  quietAt_of_moved (run_advance limit room c) (Cursor.remaining_advance_lt h)

/-- `accept`, `expect` and `expectAll` move where their first terminal is ahead. -/
theorem quietAt_accept {t : Terminal} (h : c.kindAt 0 = t.kind) :
    QuietAt P limit room (accept t) c :=
  quietAt_of_moved (run_accept_of_eq h) (Cursor.remaining_advance_lt (Terminal.ne_eof_of_eq h))

theorem quietAt_expect {t : Terminal} (h : c.kindAt 0 = t.kind) :
    QuietAt P limit room (expect t) c :=
  quietAt_of_moved (run_expect_of_eq h) (Cursor.remaining_advance_lt (Terminal.ne_eof_of_eq h))

theorem quietAt_expectAll {t : Terminal} {ts : List Terminal} (h : c.kindAt 0 = t.kind) :
    QuietAt P limit room (expectAll (t :: ts)) c :=
  (quietAt_expect h).bind

/-- A goal is quiet if its production is; the error for lack of levels names no terminal. -/
theorem quietAt_goal {g : G} (h : ∀ room, QuietAt P limit room (P g) c) :
    QuietAt P limit room (goal g) c := by
  cases room with
  | zero =>
    have hrun : (goal g).run P limit 0 _ c = .failed (c.tooDeep limit) c := rfl
    exact quietAt_of_nameless hrun rfl
  | succ room => exact ⟨(h room).done, (h room).failed⟩

/-! ## No terminal at all -/

/-- No error of the parser names a terminal. -/
def Nameless (P : Productions Tree) (p : Parser Tree α) : Prop :=
  ∀ limit room c error c', p.run P limit room α c = .failed error c' →
    Terminal.named error.expected = []

/-- Nothing is assumed about the cursor, so that `Nameless` goes through `>>=`. -/
theorem Nameless.bind (hp : Nameless P p) (hf : ∀ v, Nameless P (f v)) : Nameless P (p >>= f) := by
  intro limit room c error c' hrun
  cases hfirst : p.run P limit room α c with
  | done v c₁ =>
    rw [run_bind_of_done hfirst] at hrun
    exact hf v limit room c₁ error c' hrun
  | failed error₁ c₁ =>
    rw [run_bind_of_failed hfirst] at hrun
    cases hrun
    exact hp limit room c _ _ hfirst

theorem Nameless.map (g : α → β) (hp : Nameless P p) : Nameless P (g <$> p) :=
  hp.bind fun v => by
    intro limit room c error c' hrun
    cases (run_pure (P := P) limit room c (g v)).symm.trans hrun

theorem nameless_pure (v : α) : Nameless P (pure v : Parser Tree α) := by
  intro limit room c error c' hrun
  rw [run_pure] at hrun
  cases hrun

theorem nameless_unsupported (construct : String) :
    Nameless P (unsupported construct : Parser Tree α) := by
  intro limit room c error c' hrun
  rw [run_unsupported] at hrun
  cases hrun
  rfl

/-- Words that are no `Terminal.named` may stand in the error. -/
theorem nameless_unexpected {expected : List String} (hnone : Terminal.named expected = []) :
    Nameless P (unexpected expected : Parser Tree α) := by
  intro limit room c error c' hrun
  rw [run_unexpected] at hrun
  cases hrun
  exact hnone

theorem nameless_kind : Nameless P kind := by
  intro limit room c error c' hrun
  rw [kind, run_look] at hrun
  cases hrun

theorem nameless_advance : Nameless P advance := by
  intro limit room c error c' hrun
  rw [run_advance] at hrun
  cases hrun

/-- By induction over the number of tokens. -/
theorem nameless_advanceBy (n : Nat) : Nameless P (advanceBy n) := by
  induction n with
  | zero => exact nameless_pure ()
  | succ n ih => exact nameless_advance.bind fun _ => ih

theorem nameless_isAt (t : Terminal) : Nameless P (isAt t) := by
  intro limit room c error c' hrun
  rw [run_isAt] at hrun
  cases hrun

theorem nameless_accept (t : Terminal) : Nameless P (accept t) := by
  refine (nameless_isAt t).bind fun there => ?_
  split
  · exact nameless_advance.bind fun _ => nameless_pure true
  · exact nameless_pure false

theorem nameless_acceptAll (ts : List Terminal) : Nameless P (acceptAll ts) := by
  have hahead : Nameless P (areAhead 0 ts) := by
    intro limit room c error c' hrun
    rw [run_areAhead] at hrun
    cases hrun
  refine hahead.bind fun there => ?_
  split
  · exact (nameless_advanceBy ts.length).bind fun _ => nameless_pure true
  · exact nameless_pure false

theorem nameless_identifier? : Nameless P identifier? := by
  refine nameless_kind.bind fun now => ?_
  split
  · exact nameless_advance.bind fun _ => nameless_pure _
  · exact nameless_pure none

/-- The error of `identifier` names no terminal: an identifier is none. -/
theorem nameless_identifier : Nameless P identifier := by
  refine nameless_identifier?.bind fun own => ?_
  split
  · exact nameless_pure _
  · exact nameless_unexpected (Terminal.named_description .identifier)

/-- The error for lack of levels names no terminal. -/
theorem nameless_goal {g : G} (h : Nameless P (P g)) : Nameless P (goal g) := by
  intro limit room c error c' hrun
  cases room with
  | zero =>
    cases hrun
    rfl
  | succ room => exact h limit room c error c' hrun

end SqlGrammar.Parser
