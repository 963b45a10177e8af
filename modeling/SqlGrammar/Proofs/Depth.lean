import SqlGrammar.Proofs.Grammar.Progress
import SqlGrammar.Proofs.Lexer.Ordered

/-!
# The limit of nesting

The number of levels that may be nested decides only whether a text is refused for its depth. What a
smaller number gives stands with every larger one, and four levels for each token, and four more,
are enough for any text (`parseRule_depth`).
-/

set_option autoImplicit false

namespace SqlGrammar

/-- A reply is an error about levels where its outcome is one. -/
theorem Reply.isTooDeep_iff {α : Type} (reply : Reply α) :
    reply.IsTooDeep ↔ ∃ error, reply.toExcept = .error error ∧ error.IsTooDeep := by
  cases reply with
  | done value c =>
    constructor
    · exact False.elim
    · rintro ⟨error, herror, -⟩
      cases herror
  | failed error c =>
    constructor
    · exact fun hdeep => ⟨error, rfl, hdeep⟩
    · rintro ⟨_, ⟨⟩, hdeep⟩
      exact hdeep

theorem Grammar.light_whole (limit : Nat) (r : Rule) : Light limit (whole r) := by
  simp [Light, whole, Rule.parse]

section Limits

variable {r : Rule} {text : String} {d d' : Nat}

/-- What is not refused for its depth is the same with every larger limit. -/
theorem parseRule_eq_of_le (hle : d ≤ d')
    (hshallow : ∀ error, parseRule r text d = .error error → ¬ error.IsTooDeep) :
    parseRule r text d' = parseRule r text d := by
  cases hc : Cursor.ofText text with
  | error error => rw [parseRule_of_fault hc, parseRule_of_fault hc]
  | ok c =>
    rw [parseRule_of_ofText hc] at hshallow
    rw [parseRule_of_ofText hc, parseRule_of_ofText hc]
    have hreply : ¬ (Grammar.run d (Grammar.whole r) c).IsTooDeep := by
      intro hdeep
      obtain ⟨error, herror, hdeep⟩ := (Reply.isTooDeep_iff _).1 hdeep
      exact hshallow error herror hdeep
    exact congrArg Reply.toExcept (Parser.run_of_room_le d d' hle (Grammar.whole r) c hreply)

/-- Four levels for each token and four more are always enough. -/
theorem not_isTooDeep_of_le {ts : List Token} {last : Token}
    (hts : tokenize text = .ok (ts ++ [last])) (hd : 4 * ts.length + 4 ≤ d) (error : ParseError)
    (hparse : parseRule r text d = .error error) : ¬ error.IsTooDeep := by
  intro hdeep
  obtain ⟨c, hc, htokens⟩ := Cursor.exists_ofText hts
  have hremaining : c.remaining = ts.length := by
    have := congrArg List.length htokens
    simpa [Cursor.tokens, Cursor.remaining] using this
  rw [parseRule_of_ofText hc] at hparse
  have hroom := (Grammar.light_whole d r).fits (fun n _ => Grammar.goalsMeet d n) c
    ((Reply.isTooDeep_iff _).2 ⟨error, hparse, hdeep⟩)
  omega

/-- A text that is read with some number of levels is read as the same tree with every other number
of them, or refused for its depth. -/
theorem parseRule_ok_or_isTooDeep {tree : r.Tree} (h : parseRule r text d = .ok tree) (d' : Nat) :
    parseRule r text d' = .ok tree ∨
      ∃ error, parseRule r text d' = .error error ∧ error.IsTooDeep := by
  by_cases hdeep : ∃ error, parseRule r text d' = .error error ∧ error.IsTooDeep
  · exact .inr hdeep
  · left
    have hshallow : ∀ error, parseRule r text d' = .error error → ¬ error.IsTooDeep :=
      fun error herror h => hdeep ⟨error, herror, h⟩
    rcases Nat.le_total d d' with hle | hle
    · have hread : ∀ error, parseRule r text d = .error error → ¬ error.IsTooDeep := by
        rw [h]
        exact nofun
      rw [parseRule_eq_of_le hle hread, h]
    · rw [← parseRule_eq_of_le hle hshallow, h]

end Limits

/-- An outcome that is not `ParseError.IsTooDeep` is the same under every larger limit, and under a
limit of four for each token and four more there is no such error. -/
theorem parseRule_depth (r : Rule) (text : String) :
    (∀ d d', d ≤ d' → (∀ error, parseRule r text d = .error error → ¬ error.IsTooDeep) →
        parseRule r text d' = parseRule r text d) ∧
      ∀ (ts : List Token) (last : Token), tokenize text = .ok (ts ++ [last]) →
        ∀ d, 4 * ts.length + 4 ≤ d →
          ∀ error, parseRule r text d = .error error → ¬ error.IsTooDeep :=
  ⟨fun _ _ => parseRule_eq_of_le, fun _ _ hts _ => not_isTooDeep_of_le hts⟩

/-- Six levels are enough for a number in two pairs of parentheses, so that any more are too; five
are not. -/
theorem parseRule_depth_parentheses :
    (∃ error, parseRule .expr "((1))" 5 = .error error ∧ error.IsTooDeep) ∧
      (∀ error, parseRule .expr "((1))" 6 = .error error → ¬ error.IsTooDeep) ∧
      parseRule .expr "((1))" 200 = parseRule .expr "((1))" 6 ∧
      ∃ ts last, tokenize "((1))" = .ok (ts ++ [last]) ∧ ts.length = 5 ∧
        ∀ error, parseRule .expr "((1))" 24 = .error error → ¬ error.IsTooDeep := by
  have hdepth := parseRule_depth .expr "((1))"
  have hnone : (parseRule .expr "((1))" 5).isOk = false := by decide +kernel
  have hok : (parseRule .expr "((1))" 6).isOk = true := by decide +kernel
  have hshallow : ∀ error, parseRule .expr "((1))" 6 = .error error → ¬ error.IsTooDeep := by
    intro error herror
    rw [herror] at hok
    cases hok
  have hts : tokenize "((1))" = .ok ([⟨.operator .leftParen, "(", ⟨0, 1⟩⟩,
      ⟨.operator .leftParen, "(", ⟨1, 2⟩⟩, ⟨.number "1", "1", ⟨2, 3⟩⟩,
      ⟨.operator .rightParen, ")", ⟨3, 4⟩⟩, ⟨.operator .rightParen, ")", ⟨4, 5⟩⟩] ++ [.eof 5]) :=
    Lexer.ok_of_toOption (by decide)
  refine ⟨?_, hshallow, hdepth.1 6 200 (by decide) hshallow, _, _, hts, rfl,
    hdepth.2 _ _ hts 24 (by decide)⟩
  -- any other error would be met with six levels too
  apply Classical.byContradiction
  intro hnever
  have hsame := hdepth.1 5 6 (by decide) fun error herror hdeep => hnever ⟨error, herror, hdeep⟩
  rw [hsame, hnone] at hok
  cases hok

end SqlGrammar
