import SqlGrammar.Proofs.CursorContract
import SqlGrammar.Proofs.Parser.Combinators

/-!
# Sequences of terminals

A sequence of terminals can be taken as a whole or one by one. As a whole, all of them are looked
for before anything is taken, where looking ahead sees the last token again and again, and then the
position is changed once. One by one, each is taken where it is found, and nothing moves past an end
of the input, which may also stand between other tokens. No terminal is found at an end of the
input, so that both agree wherever a context can get: they take the same sequences and get equally
far, and where a sequence is not there as a whole, taking it one by one stops at the first terminal
that is not there (`Context.Reachable.acceptAll_iff_expectAll`).
-/

set_option autoImplicit false

namespace SqlGrammar

open SqlGrammar.Parser

variable {G : Type} {Tree : G → Type} {P : Productions Tree} {limit room : Nat}

/-! ## Terminals from one cursor to another -/

namespace Cursor

variable {c c' : Cursor} {t : Terminal} {ts : List Terminal}

/-- From the first cursor to the second stand the terminals. -/
inductive Spells : Cursor → List Terminal → Cursor → Prop
  | nil {c : Cursor} : Spells c [] c
  | cons {c c' : Cursor} {t : Terminal} {ts : List Terminal} :
      c.kindAt 0 = t.kind → Spells c.advance ts c' → Spells c (t :: ts) c'

/-- The cursor `Spells` all terminals, or there is a first one that is not there. -/
theorem spells_or_breaks (ts : List Terminal) : ∀ c : Cursor,
    (∃ c', c.Spells ts c') ∨ ∃ before t after c', ts = before ++ t :: after ∧
      c.Spells before c' ∧ c'.kindAt 0 ≠ t.kind := by
  induction ts with
  | nil => exact fun c => .inl ⟨c, .nil⟩
  | cons t ts ih =>
    intro c
    by_cases hkind : c.kindAt 0 = t.kind
    · obtain ⟨c', hspells⟩ | ⟨before, u, after, c', rfl, hspells, hbreak⟩ := ih c.advance
      · exact .inl ⟨c', .cons hkind hspells⟩
      · exact .inr ⟨t :: before, u, after, c', rfl, .cons hkind hspells, hbreak⟩
    · exact .inr ⟨[], t, ts, c, rfl, .nil, hkind⟩

/-- Looking ahead from behind a terminal sees everything one place nearer. -/
theorem terminalsAhead_advance (h : c.kindAt 0 ≠ .eof) (ts : List Terminal) : ∀ n,
    terminalsAhead c.advance.symbols n ts = terminalsAhead c.symbols (n + 1) ts := by
  induction ts with
  | nil => exact fun n => rfl
  | cons t ts ih =>
    intro n
    rw [terminalsAhead, terminalsAhead, ← kindAt_eq, ← kindAt_eq, kindAt_advance h, ih]

theorem Spells.terminalsAhead (h : c.Spells ts c') (more : List Terminal) :
    terminalsAhead c.symbols 0 (ts ++ more) = terminalsAhead c'.symbols 0 more := by
  induction h with
  | nil => rfl
  | cons hkind _ ih =>
    rw [List.cons_append, Parser.terminalsAhead, ← kindAt_eq, Terminal.accepts_iff.2 hkind,
      Bool.true_and, ← terminalsAhead_advance (Terminal.ne_eof_of_eq hkind), ih]

theorem Spells.terminalsAhead_true (h : c.Spells ts c') :
    Parser.terminalsAhead c.symbols 0 ts = true := by
  rw [← ts.append_nil, h.terminalsAhead]
  rfl

theorem Spells.terminalsAhead_false (h : c.Spells ts c') (hbreak : c'.kindAt 0 ≠ t.kind)
    (after : List Terminal) : Parser.terminalsAhead c.symbols 0 (ts ++ t :: after) = false := by
  rw [h.terminalsAhead, Parser.terminalsAhead, ← kindAt_eq,
    Bool.eq_false_iff.2 (mt Terminal.accepts_iff.1 hbreak), Bool.false_and]

theorem Spells.run_advanceBy (h : c.Spells ts c') :
    (advanceBy ts.length : Parser Tree Unit).run P limit room _ c = .done () c' := by
  induction h with
  | nil => exact run_pure limit room _ ()
  | cons _ _ ih => exact (run_bind_of_done (run_advance limit room _)).trans ih

theorem Spells.run_expectAll (h : c.Spells ts c') (more : List Terminal) :
    (expectAll (ts ++ more) : Parser Tree Unit).run P limit room _ c =
      (expectAll more).run P limit room _ c' := by
  induction h with
  | nil => rfl
  | cons hkind _ ih => exact (run_bind_of_done (run_expect_of_eq hkind)).trans ih

/-- Terminals that are there are taken as a whole and one by one. -/
theorem Spells.run_all (h : c.Spells ts c') :
    (acceptAll ts : Parser Tree Bool).run P limit room _ c = .done true c' ∧
      (expectAll ts : Parser Tree Unit).run P limit room _ c = .done () c' := by
  constructor
  · rw [acceptAll, run_bind_of_done (run_areAhead ts 0), h.terminalsAhead_true]
    exact (run_bind_of_done h.run_advanceBy).trans (run_pure limit room c' true)
  · rw [← ts.append_nil, h.run_expectAll]
    exact run_pure limit room c' ()

/-- Where a terminal is not there, nothing is taken as a whole, and what stands before it is taken
one by one. -/
theorem Spells.run_all_of_ne (h : c.Spells ts c') (hbreak : c'.kindAt 0 ≠ t.kind)
    (after : List Terminal) :
    (acceptAll (ts ++ t :: after) : Parser Tree Bool).run P limit room _ c = .done false c ∧
      (expectAll (ts ++ t :: after) : Parser Tree Unit).run P limit room _ c =
        .failed (c'.unexpected [t.text]) c' := by
  refine ⟨run_acceptAll_of_false (h.terminalsAhead_false hbreak after), ?_⟩
  rw [h.run_expectAll]
  exact run_bind_of_failed (run_expect_of_ne hbreak)

end Cursor

/-! ## Terminals from a position on -/

namespace Context

variable {tokens : List Token} {x y z : Context} {c c' : Cursor} {t : Terminal}
  {ts : List Terminal}

/-- Whether the terminals are ahead, the first of them at a distance. -/
def areAhead? (x : Context) (distance : Nat) : List Terminal → Option Bool
  | [] => some true
  | t :: ts => do
    let token ← x.peek? distance
    if t.accepts token.kind then x.areAhead? (distance + 1) ts else return false

/-- Takes the terminals as a whole, by one change of the position. -/
def acceptAll? (x : Context) (ts : List Terminal) : Option (Bool × Context) := do
  let last ← x.last?
  if ← x.areAhead? 0 ts then
    return (true, { x with position := min (x.position + ts.length) last })
  else
    return (false, x)

/-- Takes the terminals as a whole, with all steps checked. -/
def acceptAll (x : Context) (ts : List Terminal) : Option (Except ParseError Bool × Context) :=
  (Parser.acceptAll ts).runChecked Grammar.productions (x.limit - x.depth) _ x

/-- Takes the terminals one by one, with all steps checked. -/
def expectAll (x : Context) (ts : List Terminal) : Option (Except ParseError Unit × Context) :=
  (Parser.expectAll ts).runChecked Grammar.productions (x.limit - x.depth) _ x

/-- The terminals are the tokens from the position on. -/
def Stand (x : Context) (ts : List Terminal) : Prop :=
  ∀ n t, ts[n]? = some t → ∃ token, x.tokens[x.position + n]? = some token ∧ token.kind = t.kind

/-- The context a number of positions further on. -/
def moved (x : Context) (n : Nat) : Context := { x with position := x.position + n }

theorem Views.getElem? (h : x.Views c) : x.tokens[x.position]? = some c.current := by
  rw [← Nat.add_zero x.position, ← List.getElem?_drop, h]
  obtain ⟨ahead, final, hfinal⟩ := c
  cases ahead <;> rfl

theorem Views.moved_one (h : x.Views c) (hkind : c.kindAt 0 = t.kind) :
    (x.moved 1).Views c.advance := by
  refine h.moveOn fun heof => Terminal.ne_eof_of_eq hkind ?_
  rw [c.kindAt_zero]
  simpa [Token.isEof] using heof

theorem Views.moved (h : x.Views c) (hspells : c.Spells ts c') :
    (x.moved ts.length).Views c' := by
  induction hspells generalizing x with
  | nil => exact h
  | cons hkind _ ih =>
    have hmoved := ih (h.moved_one hkind)
    rwa [Context.moved, Context.moved, Nat.add_assoc, Nat.add_comm 1] at hmoved

theorem Views.stand (h : x.Views c) (hspells : c.Spells ts c') : x.Stand ts := by
  induction hspells generalizing x with
  | nil => exact fun n t ht => nomatch ht
  | @cons c c' t ts hkind _ ih =>
    rintro (_ | n) u hu
    · cases hu
      exact ⟨c.current, h.getElem?, by rw [← c.kindAt_zero, hkind]⟩
    · obtain ⟨token, htoken, hmatch⟩ := ih (h.moved_one hkind) n u hu
      refine ⟨token, ?_, hmatch⟩
      rwa [Nat.add_comm n, ← Nat.add_assoc]

/-- A context that differs in its position only and sees the same cursor is the same. -/
theorem Views.eq_of_shares (hy : y.Views c) (hz : z.Views c) (hshares : x.Shares y)
    (hshares' : x.Shares z) : y = z := by
  have hlength := hy.length.trans
    ((congrArg List.length (hshares.tokens.trans hshares'.tokens.symm)).trans hz.length.symm)
  obtain ⟨ytokens, yposition, ydepth, ylimit⟩ := y
  obtain ⟨ztokens, zposition, zdepth, zlimit⟩ := z
  obtain ⟨rfl, rfl, rfl⟩ := hshares
  obtain ⟨rfl, rfl, rfl⟩ := hshares'
  have hposition : yposition = zposition := by
    simp only at hlength
    omega
  rw [hposition]

theorem shares_moved (x : Context) (n : Nat) : x.Shares (x.moved n) := ⟨rfl, rfl, rfl⟩

/-- What a parser does at the cursor is done with all steps checked, too, and the context that is
left sees the cursor that is left. -/
theorem Views.runChecked {α : Type} {p : Production α} {reply : Reply α} (h : x.Views c)
    (hp : Moving Grammar.productions p)
    (hrun : p.run Grammar.productions x.limit (x.limit - x.depth) _ c = reply)
    (hz : z.Views reply.cursor) (hshares : x.Shares z) :
    p.runChecked Grammar.productions (x.limit - x.depth) _ x = some (reply.toExcept, z) := by
  obtain ⟨y, hchecked, hy, hshares'⟩ := runChecked_mirrors moving_productions p hp x c h rfl rfl
  rw [hrun] at hchecked hy
  rw [hchecked, hy.eq_of_shares hz hshares' hshares]

theorem Views.areAhead? (h : x.Views c) (ts : List Terminal) : ∀ n,
    x.areAhead? n ts = some (terminalsAhead c.symbols n ts) := by
  induction ts with
  | nil => exact fun n => rfl
  | cons t ts ih =>
    intro n
    simp only [Context.areAhead?, h.peek? n, Option.bind_eq_bind, Option.bind_some, ih]
    rw [terminalsAhead, ← c.kindAt_eq, Cursor.kindAt]
    cases t.accepts (c.peek n).kind <;> rfl

theorem Views.acceptAll? (h : x.Views c) (ts : List Terminal) :
    x.acceptAll? ts = some (if terminalsAhead c.symbols 0 ts then
      (true, { x with position := min (x.position + ts.length) (x.position + c.remaining) })
      else (false, x)) := by
  simp only [Context.acceptAll?, h.last?, h.areAhead?, Option.bind_eq_bind, Option.bind_some]
  cases terminalsAhead c.symbols 0 ts <;> rfl

/-- Where the cursor `Spells` the terminals, they are taken, and the position is behind them. -/
theorem Views.all_of_spells (h : x.Views c) (hspells : c.Spells ts c') :
    x.acceptAll? ts = some (true, x.moved ts.length) ∧
      x.acceptAll ts = some (.ok true, x.moved ts.length) ∧
      x.expectAll ts = some (.ok (), x.moved ts.length) := by
  have hmoved := h.moved hspells
  refine ⟨?_, h.runChecked (by simp) hspells.run_all.1 hmoved (x.shares_moved _),
    h.runChecked (by simp) hspells.run_all.2 hmoved (x.shares_moved _)⟩
  -- the last token is not among the terminals, so that the position is not cut off
  have hlast :
      min (x.position + ts.length) (x.position + c.remaining) = x.position + ts.length := by
    have hx := h.length
    have hy := hmoved.length
    simp only [Context.moved] at hy
    omega
  rw [h.acceptAll?, hspells.terminalsAhead_true, if_pos rfl, hlast]
  rfl

/-- Where a terminal is not there, the context stays as it is, or only what stands before the
terminal is taken. -/
theorem Views.all_of_ne (h : x.Views c) (hspells : c.Spells ts c') (hbreak : c'.kindAt 0 ≠ t.kind)
    (after : List Terminal) :
    x.acceptAll? (ts ++ t :: after) = some (false, x) ∧
      x.acceptAll (ts ++ t :: after) = some (.ok false, x) ∧
      x.expectAll (ts ++ t :: after) =
        some (.error (c'.unexpected [t.text]), x.moved ts.length) := by
  refine ⟨?_, h.runChecked (by simp) (hspells.run_all_of_ne hbreak after).1 h (.refl x),
    h.runChecked (by simp) (hspells.run_all_of_ne hbreak after).2 (h.moved hspells)
      (x.shares_moved _)⟩
  rw [h.acceptAll?, hspells.terminalsAhead_false hbreak, if_neg Bool.false_ne_true]

/-- In every `Reachable` context, `acceptAll` and `expectAll` agree, with all steps checked and at a
cursor that sees the same tokens. Both take the terminals where these `Stand` from the position on,
and then both leave the position behind the last of them. Otherwise `acceptAll` changes nothing;
`expectAll` leaves the position at the first token that is not the terminal that should stand there,
and its error says that this terminal was expected in its place. -/
theorem Reachable.acceptAll_iff_expectAll (h : Reachable tokens limit x) (ts : List Terminal) :
    ∃ c accepted y result z, x.Views c ∧
      x.acceptAll? ts = some (accepted, y) ∧ x.acceptAll ts = some (.ok accepted, y) ∧
      x.expectAll ts = some (result, z) ∧
      ((Parser.acceptAll ts).run Grammar.productions limit (limit - x.depth) _ c).toExcept =
        .ok accepted ∧
      ((Parser.expectAll ts).run Grammar.productions limit (limit - x.depth) _ c).toExcept =
        result ∧
      (accepted = true ↔ result = .ok ()) ∧ (accepted = true ↔ x.Stand ts) ∧
      (accepted = true → y = x.moved ts.length ∧ z = x.moved ts.length) ∧
      (accepted = false → y = x ∧ ∃ n t token,
        ts[n]? = some t ∧ x.tokens[x.position + n]? = some token ∧ token.kind ≠ t.kind ∧
        x.Stand (ts.take n) ∧ result = .error (.unexpected [t.text] token.kind token.span) ∧
        z = x.moved n) := by
  obtain ⟨⟨c, hviews⟩, -, rfl⟩ := h.exists_views
  obtain ⟨c', hspells⟩ | ⟨before, t, after, c', rfl, hspells, hbreak⟩ := c.spells_or_breaks ts
  · obtain ⟨hwhole, haccept, hexpect⟩ := hviews.all_of_spells hspells
    refine ⟨c, true, _, _, _, hviews, hwhole, haccept, hexpect, ?_, ?_, by simp, ?_,
      fun _ => ⟨rfl, rfl⟩, nofun⟩
    · rw [hspells.run_all.1, Reply.toExcept]
    · rw [hspells.run_all.2, Reply.toExcept]
    · exact ⟨fun _ => hviews.stand hspells, fun _ => rfl⟩
  · obtain ⟨hwhole, haccept, hexpect⟩ := hviews.all_of_ne hspells hbreak after
    have hmissing : (before ++ t :: after)[before.length]? = some t := by simp
    have htoken := (hviews.moved hspells).getElem?
    have hother : c'.current.kind ≠ t.kind := c'.kindAt_zero ▸ hbreak
    refine ⟨c, false, _, _, _, hviews, hwhole, haccept, hexpect, ?_, ?_, by simp, ?_, nofun,
      fun _ => ⟨rfl, before.length, t, c'.current, hmissing, htoken, hother, ?_, rfl, rfl⟩⟩
    · rw [(hspells.run_all_of_ne hbreak after).1, Reply.toExcept]
    · rw [(hspells.run_all_of_ne hbreak after).2, Reply.toExcept]
    · refine ⟨nofun, fun hstand => ?_⟩
      obtain ⟨token, hfound, hmatch⟩ := hstand _ _ hmissing
      cases htoken.symm.trans hfound
      exact absurd hmatch hother
    · rw [List.take_left]
      exact hviews.stand hspells

/-- Two keywords with an end of the input in between, and none at the end. -/
def partedKeywords : List Token :=
  [⟨.keyword .IF, "IF", ⟨0, 2⟩⟩, .eof 2, ⟨.keyword .NOT, "NOT", ⟨3, 6⟩⟩]

/-- The keywords are not taken together across the end of the input. -/
theorem acceptAll_iff_expectAll_parted :
    Reachable partedKeywords 9 (ofTokens partedKeywords 9) ∧
      (ofTokens partedKeywords 9).acceptAll [.keyword .IF, .keyword .NOT] =
        some (.ok false, ofTokens partedKeywords 9) ∧
      (ofTokens partedKeywords 9).expectAll [.keyword .IF, .keyword .NOT] =
        some (.error (.unexpected ["NOT"] .eof ⟨2, 2⟩), (ofTokens partedKeywords 9).moved 1) := by
  have hstart : Reachable partedKeywords 9 (ofTokens partedKeywords 9) := .start
  obtain ⟨c, accepted, y, result, z, -, -, haccept, hexpect, -, -, -, hstands, -, hmissing⟩ :=
    hstart.acceptAll_iff_expectAll [.keyword .IF, .keyword .NOT]
  have hend : (ofTokens partedKeywords 9).tokens[1]? = some (.eof 2) := rfl
  cases accepted with
  | true =>
    obtain ⟨token, htoken, hkind⟩ := hstands.1 rfl 1 (.keyword .NOT) rfl
    cases hend.symm.trans htoken
    cases hkind
  | false =>
    obtain ⟨rfl, n, t, token, hat, htoken, hother, -, rfl, rfl⟩ := hmissing rfl
    refine ⟨hstart, haccept, hexpect.trans ?_⟩
    match n with
    | 0 =>
      cases hat
      cases htoken
      exact absurd rfl hother
    | 1 =>
      cases hat
      cases htoken
      rfl
    | n + 2 => cases hat

end Context

end SqlGrammar
