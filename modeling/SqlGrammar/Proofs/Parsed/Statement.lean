import SqlGrammar.Proofs.Parsed.Operand
import SqlGrammar.Proofs.Parsed.Schema
import SqlGrammar.Proofs.Reading.Statement

/-!
# What texts are read from

By induction on the levels that are left, every goal of the grammar yields what it should (`sound`):
each production is gone through once, with the goals inside it one level deeper. A tree that was
parsed from a whole text is therefore well formed (`wellFormed_of_parseRule`), and is written with
the payload of the text.
-/

set_option autoImplicit false

namespace SqlGrammar

open Lexer SqlGrammar.Parser Grammar

namespace Grammar

variable {room : Nat} {input : List Symbol}

/-! ## Statements -/

/-- A creation that names no kind of object never succeeds. -/
theorem ensures_unknownCreation {Q : Statement → List Symbol → Prop} :
    Ensures room unknownCreation input Q := by
  refine ensures_bind (ensures_expect _) fun _ mid _ => ensures_kind_bind ?_
  split
  · refine ensures_bind (R := fun _ _ => True) ?_ fun _ _ _ => ensures_unexpected
    exact fun _ _ _ _ => trivial
  · exact ensures_unexpected

theorem ensures_creation (h : Sound room) :
    Ensures room creation input (Rule.Parsed .statement input) := by
  refine ensures_look_bind (ensures_look_bind ?_)
  split
  · exact ensures_map (ensures_mono (h.goal (.rule .createTable) input) fun _ _ hs =>
      ⟨hs.1.finishes, hs.2⟩)
  · exact ensures_map (ensures_mono (h.goal (.rule .createIndex) input) fun _ _ hs =>
      ⟨hs.1.finishes, hs.2⟩)
  · exact ensures_map (ensures_mono (h.goal (.rule .createView) input) fun _ _ hs =>
      ⟨hs.1.finishes, hs.2⟩)
  · exact ensures_map (h.goal (.rule .createTrigger) input)
  · exact ensures_unknownCreation

theorem ensures_statement (h : Sound room) :
    Ensures room statement input (Rule.Parsed .statement input) := by
  refine ensures_kind_bind ?_
  split
  · exact ensures_map (ensures_mono (h.select input) fun _ _ hq => ⟨hq.1.finishes, hq.2⟩)
  · exact ensures_unsupported
  · exact ensures_map (ensures_mono (h.goal (.rule .insert) input) fun _ _ hs =>
      ⟨hs.1.finishes, hs.2⟩)
  · exact ensures_map (ensures_mono (h.goal (.rule .insert) input) fun _ _ hs =>
      ⟨hs.1.finishes, hs.2⟩)
  · exact ensures_map (ensures_mono (h.goal (.rule .update) input) fun _ _ hs =>
      ⟨hs.1.finishes, hs.2⟩)
  · exact ensures_map (ensures_mono (h.goal (.rule .delete) input) fun _ _ hs =>
      ⟨hs.1.finishes, hs.2⟩)
  · exact ensures_creation h
  · exact ensures_map (ensures_mono (h.goal (.rule .drop) input) fun _ _ hs =>
      ⟨hs.1.finishes, hs.2⟩)
  · exact ensures_map (ensures_mono (h.goal (.rule .alter) input) fun _ _ hs =>
      ⟨hs.1.finishes, hs.2⟩)
  · exact ensures_unexpected

/-! ## All goals -/

/-- The production of every rule yields what it should if the goals in it do. -/
theorem ensures_rule (h : Sound room) (r : Rule) :
    Ensures room (rule r) input (r.Parsed input) := by
  cases r with
  | statement => exact ensures_statement h
  | select => exact ensures_select h
  | insert => exact ensures_insert h
  | update => exact ensures_update h
  | delete => exact ensures_delete h
  | createTable => exact ensures_createTable h
  | createIndex => exact ensures_createIndex h
  | createView => exact ensures_createView h
  | createTrigger => exact ensures_createTrigger h
  | drop => exact ensures_mono ensures_drop fun _ _ hpass => ⟨hpass, trivial⟩
  | alter => exact ensures_alter h
  | expr =>
    exact ensures_mono (h.operand (Nat.zero_le atomPower) input) fun e rest he =>
      ⟨he.passes, he.wellFormed⟩
  | literal => exact ensures_literal
  | functionCall => exact ensures_functionCall h
  | resultColumn => exact ensures_resultColumn h
  | selectSource => exact ensures_mono (ensures_selectSource h) fun _ _ hpass => ⟨hpass, trivial⟩
  | tableSource => exact ensures_mono ensures_tableSource fun _ _ hpass => ⟨hpass, trivial⟩
  | joinClause => exact fun _ tree => nomatch tree
  | orderingTerm => exact ensures_orderingTerm h
  | assignment => exact ensures_assignment h
  | columnDefinition => exact ensures_columnDefinition h
  | columnConstraint => exact ensures_columnConstraint h
  | tableConstraint => exact ensures_tableConstraint h
  | typeName => exact ensures_typeName h
  | signedNumber => exact ensures_signedNumber
  | conflictClause => exact ensures_mono ensures_conflictClause fun _ _ hpass => ⟨hpass, trivial⟩
  | foreignKey => exact ensures_mono ensures_foreignKey fun _ _ hpass => ⟨hpass, trivial⟩
  | indexedColumn => exact ensures_mono ensures_indexedColumn fun _ _ hpass => ⟨hpass, trivial⟩

/-- The production of every goal yields what it should if the goals in it do. -/
theorem ensures_production (h : Sound room) (g : Goal) :
    Ensures room (productions g) input (g.Parsed input) := by
  cases g with
  | rule r => exact ensures_rule h r
  | operand least =>
    -- only a power that some expression has may be demanded
    intro hvalid e rest hyields hleast
    exact ensures_operand h hleast hvalid e rest hyields

/-- Every goal yields what it should, however many levels are left. -/
theorem sound (room : Nat) : Sound room := by
  -- a goal that is reached with `room + 1` levels runs its production with `room` levels
  induction room with
  | zero =>
    intro r hr g input
    cases Nat.le_zero.1 hr
    exact ensures_goal_zero
  | succ room ih =>
    intro r hr g input
    rcases Nat.lt_or_eq_of_le hr with hlt | rfl
    · exact ih r (Nat.le_of_lt_succ hlt) g input
    · exact ensures_goal_succ (ensures_production ih g)

/-- A whole text is a tree and at most a semicolon behind it. -/
theorem ensures_whole (r : Rule) : Ensures room (whole r) input fun tree _ =>
    ∃ mid, r.Parsed input tree mid ∧ (mid = [] ∨ Next mid (.operator .semicolon) []) := by
  refine ensures_bind ((sound room).goal (.rule r) input) fun tree mid htree => ?_
  exact ensures_bind ensures_expectEnd fun _ rest hend => ensures_pure ⟨mid, htree, hend⟩

end Grammar

/-! ## Texts -/

/-- What a tree was parsed from: the symbols of the tree, and at most a semicolon behind them. -/
theorem parsed_of_parseRule {r : Rule} {text : String} {depth : Nat} {tree : r.Tree}
    (h : parseRule r text depth = .ok tree) :
    ∃ symbols mid, Lexes text.toList symbols ∧ r.Parsed symbols tree mid ∧
      (mid = [] ∨ Next mid (.operator .semicolon) []) := by
  cases htokens : tokenize text with
  | error e =>
    simp only [parseRule, Cursor.ofText, htokens, Except.map, bind, Except.bind] at h
    cases h
  | ok ts =>
    -- the cursor starts in front of the symbols of the text
    obtain ⟨symbols, hlexes, hsymbols⟩ := lexes_of_tokenize htokens
    simp only [parseRule, Cursor.ofText, htokens, Except.map, bind, Except.bind] at h
    cases hrun : Grammar.run depth (whole r) (.ofTokens ts) with
    | failed error c =>
      rw [hrun] at h
      cases h
    | done found c =>
      rw [hrun] at h
      cases h
      have hyields : Yields productions depth (whole r) symbols tree c.symbols :=
        ⟨depth, .ofTokens ts, c, Cursor.symbols_ofTokens hsymbols, hrun, rfl⟩
      obtain ⟨mid, htree, hmid⟩ := ensures_whole r (Lexes.valid hlexes) tree _ hyields
      exact ⟨symbols, mid, hlexes, htree, hmid⟩

/-- A tree of a rule that was read is well formed. -/
theorem Rule.Parsed.wellFormed {r : Rule} {input rest : List Symbol} {tree : r.Tree}
    (h : r.Parsed input tree rest) : r.WellFormed Phrase.Parsed tree := by
  cases r with
  | typeName => exact TypeName.Parsed.wellMade h
  | literal => exact h.2.1
  | _ => exact h.2

/-- A tree that was parsed from a text is well formed. -/
theorem wellFormed_of_parseRule {r : Rule} {text : String} {depth : Nat} {tree : r.Tree}
    (h : parseRule r text depth = .ok tree) : r.WellFormed Phrase.Parsed tree := by
  obtain ⟨symbols, mid, -, hparsed, -⟩ := parsed_of_parseRule h
  exact hparsed.wellFormed

end SqlGrammar
