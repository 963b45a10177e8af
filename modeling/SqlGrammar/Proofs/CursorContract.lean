import SqlGrammar.Proofs.Grammar.Progress
import SqlGrammar.Proofs.Parser.Context

/-!
# The contract of every rule

Wherever a context can get by what can be done with it, a rule that is parsed there passes all
checks. It stops behind the place where it started, on success at least one token further, never
behind the last token, and with as many levels nested as before
(`Context.Reachable.parse_contract`).
-/

set_option autoImplicit false

namespace SqlGrammar

namespace Context

/-- A tree of a rule, one level deeper, with all steps checked. -/
def parse (x : Context) (r : Rule) : Option (Except ParseError r.Tree × Context) :=
  r.parse.runChecked Grammar.productions (x.limit - x.depth) _ x

/-- The contexts that can be got from a list of tokens: by moving on, by skipping tokens up to the
last one, by coming back to the position of another such context, by beginning and ending levels,
and by parsing rules. -/
inductive Reachable (tokens : List Token) (limit : Nat) : Context → Prop
  | start : Reachable tokens limit (ofTokens tokens limit)
  | advance {x y : Context} : Reachable tokens limit x → x.advance? = some y →
      Reachable tokens limit y
  | skip {x : Context} (n : Nat) : Reachable tokens limit x →
      Reachable tokens limit { x with position := min (x.position + n) (x.tokens.length - 1) }
  | restore {x y : Context} : Reachable tokens limit x → Reachable tokens limit y →
      Reachable tokens limit { x with position := y.position }
  | enter {x : Context} : Reachable tokens limit x → x.depth < x.limit →
      Reachable tokens limit { x with depth := x.depth + 1 }
  | leave {x : Context} : Reachable tokens limit x → 0 < x.depth →
      Reachable tokens limit { x with depth := x.depth - 1 }
  | parse {x y : Context} {r : Rule} {result : Except ParseError r.Tree} :
      Reachable tokens limit x → x.parse r = some (result, y) → Reachable tokens limit y

variable {tokens : List Token} {limit : Nat} {x : Context} {c : Cursor}

/-! ## Parsing -/

/-- The productions of the grammar move on in every round of every loop. -/
theorem moving_productions (g : Goal) :
    Parser.Moving Grammar.productions (Grammar.productions g) :=
  Grammar.throughout_productions Grammar.suits_loopMoves g

/-- No check fails where a rule is parsed, and the outcome is that of the cursor. -/
theorem Views.parse (h : x.Views c) (r : Rule) :
    ∃ reply y, reply = r.parse.run Grammar.productions x.limit (x.limit - x.depth) _ c ∧
      x.parse r = some (reply.toExcept, y) ∧ y.Views reply.cursor ∧ x.Shares y :=
  have ⟨y, hparse, hviews, hshares⟩ :=
    Parser.runChecked_mirrors moving_productions r.parse trivial x c h rfl rfl
  ⟨_, y, rfl, hparse, hviews, hshares⟩

/-! ## Positions that can be reached -/

/-- Every position among the tokens is that of a cursor. -/
theorem Views.exists_at (h : x.Views c) {position : Nat} (hlt : position < x.tokens.length) :
    ∃ c', ({ x with position } : Context).Views c' := by
  have hlength := h.length
  have htokens : x.tokens = (x.tokens.take x.position ++ c.ahead) ++ [c.final] := by
    rw [List.append_assoc]
    calc x.tokens = x.tokens.take x.position ++ x.tokens.drop x.position :=
          (List.take_append_drop _ _).symm
      _ = x.tokens.take x.position ++ (c.ahead ++ [c.final]) := by rw [h, Cursor.tokens]
  refine ⟨⟨(x.tokens.take x.position ++ c.ahead).drop position, c.final, c.final_isEof⟩, ?_⟩
  have hle : position ≤ (x.tokens.take x.position ++ c.ahead).length := by
    simp only [List.length_append, List.length_take, Cursor.remaining] at hlength ⊢
    omega
  calc x.tokens.drop position
      = ((x.tokens.take x.position ++ c.ahead) ++ [c.final]).drop position := by rw [← htokens]
    _ = _ := List.drop_append_of_le_length hle

/-- A context that can be reached has the tokens and the limit that it was made with, and a position
among the tokens. -/
theorem Reachable.exists_views (h : Reachable tokens limit x) :
    (∃ c, x.Views c) ∧ x.tokens = (Cursor.ofTokens tokens).tokens ∧ x.limit = limit := by
  induction h with
  | start => exact ⟨⟨Cursor.ofTokens tokens, rfl⟩, rfl, rfl⟩
  | advance _ hadvance ih =>
    obtain ⟨⟨c, hviews⟩, htokens, hlimit⟩ := ih
    obtain ⟨y, hy, hviews', hshares⟩ := hviews.advance?
    cases hy.symm.trans hadvance
    exact ⟨⟨_, hviews'⟩, hshares.tokens.trans htokens, hshares.limit.trans hlimit⟩
  | skip n _ ih =>
    obtain ⟨⟨c, hviews⟩, htokens, hlimit⟩ := ih
    have hlength := hviews.length
    exact ⟨hviews.exists_at (by omega), htokens, hlimit⟩
  | restore _ _ ihx ihy =>
    obtain ⟨-, htokens, hlimit⟩ := ihx
    obtain ⟨⟨c, hviews⟩, htokens', -⟩ := ihy
    refine ⟨⟨c, ?_⟩, htokens, hlimit⟩
    rw [Views, htokens, ← htokens']
    exact hviews
  | enter _ _ ih => exact ih
  | leave _ _ ih => exact ih
  | @parse x y r result _ hparse ih =>
    obtain ⟨⟨c, hviews⟩, htokens, hlimit⟩ := ih
    obtain ⟨reply, z, -, hz, hviews', hshares⟩ := hviews.parse r
    cases hz.symm.trans hparse
    exact ⟨⟨_, hviews'⟩, hshares.tokens.trans htokens, hshares.limit.trans hlimit⟩

/-! ## The contract -/

/-- In every `Reachable` context, `peek?` and `remaining?` are those of a cursor among its tokens,
and `Context.parse` passes all checks with the reply that the rule has at that cursor. Whatever the
outcome, the tokens, the depth and the limit are left as they were (`Shares`), and the position
stays among the tokens and does not go back; where a tree is given, it moves on. All loops of
`Grammar.productions` are `Parser.Moving`. -/
theorem Reachable.parse_contract (h : Reachable tokens limit x) (r : Rule) :
    ∃ c reply y, x.Views c ∧
      (∀ n, x.peek? n = some (c.peek n)) ∧ x.remaining? = some c.remaining ∧
      reply = r.parse.run Grammar.productions limit (limit - x.depth) _ c ∧
      x.parse r = some (reply.toExcept, y) ∧ x.Shares y ∧
      x.position ≤ y.position ∧ y.position ≤ y.tokens.length - 1 ∧
      (∀ tree, reply.toExcept = .ok tree → x.position < y.position) ∧
      ∀ g, Parser.Moving Grammar.productions (Grammar.productions g) := by
  obtain ⟨⟨c, hviews⟩, -, rfl⟩ := h.exists_views
  obtain ⟨reply, y, hreply, hparse, hviews', hshares⟩ := hviews.parse r
  have hlead := (Parser.run_located (P := Grammar.productions) x.limit (x.limit - x.depth)
    r.parse c).leadsTo.remaining_le
  rw [← hreply] at hlead
  -- positions and remaining tokens make up the same number before and after
  have hlength := hviews.length
  have hlength' := hviews'.length
  rw [hshares.tokens] at hlength'
  refine ⟨c, reply, y, hviews, hviews.peek?, hviews.remaining?, hreply, hparse, hshares, by omega,
    ?_, ?_, moving_productions⟩
  · rw [hshares.tokens]
    omega
  · intro tree htree
    cases reply with
    | failed error c' => cases htree
    | done tree' c' =>
      have hmoves := (Grammar.goalsMeet x.limit (x.limit - x.depth)).moves (.rule r) c tree' c'
        hreply.symm
      rw [Reply.cursor] at hlength'
      omega

/-- Two names with an end of the input in between, and none at the end. -/
def partedTokens : List Token :=
  [⟨.identifier "a", "a", ⟨0, 1⟩⟩, .eof 1, ⟨.identifier "b", "b", ⟨2, 3⟩⟩]

/-- A level deeper, behind the end of the input that stands in between. -/
def behindParting : Context := { ofTokens partedTokens 9 with position := 2, depth := 1 }

theorem parse_contract_parted :
    Reachable partedTokens 9 behindParting ∧
      ∃ c reply y, behindParting.Views c ∧
        reply = (Rule.parse .expr).run Grammar.productions 9 8 _ c ∧
        behindParting.parse .expr = some (reply.toExcept, y) ∧ behindParting.Shares y ∧
        y.position = 3 := by
  have hreach : Reachable partedTokens 9 behindParting :=
    .enter (.skip 2 .start) (by decide)
  obtain ⟨c, reply, y, hviews, -, -, hreply, hparse, hshares, -⟩ := hreach.parse_contract .expr
  have hposition : (behindParting.parse .expr).map (·.2.position) = some 3 := by decide +kernel
  rw [hparse] at hposition
  exact ⟨hreach, c, reply, y, hviews, hreply, hparse, hshares, Option.some.inj hposition⟩

end Context

end SqlGrammar
