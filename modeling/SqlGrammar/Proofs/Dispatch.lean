import SqlGrammar.Proofs.StatementBoundary

/-!
# The choice among the statements

A statement is chosen by the kinds of its first three tokens, before any of them is taken; the rule
that is chosen then reads these tokens once more by itself. Both agree on every combination of
words: a statement is accepted exactly where the rule of its kind accepts it with one level less,
and no two of the ten kinds accept the same text (`statement_dispatch`).
-/

set_option autoImplicit false

namespace SqlGrammar

open SqlGrammar.Parser Grammar

/-! ## Kinds of statements -/

/-- The kinds of statements. -/
inductive StatementKind where
  | select | insert | update | delete
  | createTable | createIndex | createView | createTrigger | drop | alter
  deriving DecidableEq, Repr

namespace StatementKind

/-- The rule of the statements of a kind. -/
@[reducible] def rule : StatementKind → Rule
  | select => .select
  | insert => .insert
  | update => .update
  | delete => .delete
  | createTable => .createTable
  | createIndex => .createIndex
  | createView => .createView
  | createTrigger => .createTrigger
  | drop => .drop
  | alter => .alter

/-- A tree of the rule as a statement. -/
def wrap : (k : StatementKind) → k.rule.Tree → Statement
  | select => .select
  | insert => .insert
  | update => .update
  | delete => .delete
  | createTable => .createTable
  | createIndex => .createIndex
  | createView => .createView
  | createTrigger => .createTrigger
  | drop => .drop
  | alter => .alter

/-- The kind of a statement that creates an object. -/
def ofObject : ObjectKind → StatementKind
  | .table => createTable
  | .index => createIndex
  | .view => createView
  | .trigger => createTrigger

/-- The kind of the statement that starts with tokens of these kinds. -/
def ofKinds? (now next afterNext : TokenKind) : Option StatementKind :=
  match now with
  | .keyword .SELECT => some select
  | .keyword .INSERT | .keyword .REPLACE => some insert
  | .keyword .UPDATE => some update
  | .keyword .DELETE => some delete
  | .keyword .CREATE => (createdKind? next afterNext).map ofObject
  | .keyword .DROP => some drop
  | .keyword .ALTER => some alter
  | _ => none

/-- The kind of the statement that starts at a cursor. -/
def ofCursor? (c : Cursor) : Option StatementKind :=
  ofKinds? (c.kindAt 0) (c.kindAt 1) (c.kindAt 2)

end StatementKind

/-- The kind of a statement. -/
def Statement.kind : Statement → StatementKind
  | .select _ => .select
  | .insert _ => .insert
  | .update _ => .update
  | .delete _ => .delete
  | .createTable _ => .createTable
  | .createIndex _ => .createIndex
  | .createView _ => .createView
  | .createTrigger _ => .createTrigger
  | .drop _ => .drop
  | .alter _ => .alter

namespace StatementKind

@[simp] theorem kind_wrap (k : StatementKind) (tree : k.rule.Tree) : (k.wrap tree).kind = k := by
  cases k <;> rfl

theorem wrap_injective (k : StatementKind) : Function.Injective k.wrap := by
  intro tree tree' h
  cases k <;> injection h

/-- Every statement is a tree of one of the ten rules. -/
theorem exists_wrap (statement : Statement) :
    ∃ (k : StatementKind) (tree : k.rule.Tree), k.wrap tree = statement := by
  cases statement with
  | select tree => exact ⟨.select, tree, rfl⟩
  | insert tree => exact ⟨.insert, tree, rfl⟩
  | update tree => exact ⟨.update, tree, rfl⟩
  | delete tree => exact ⟨.delete, tree, rfl⟩
  | createTable tree => exact ⟨.createTable, tree, rfl⟩
  | createIndex tree => exact ⟨.createIndex, tree, rfl⟩
  | createView tree => exact ⟨.createView, tree, rfl⟩
  | createTrigger tree => exact ⟨.createTrigger, tree, rfl⟩
  | drop tree => exact ⟨.drop, tree, rfl⟩
  | alter tree => exact ⟨.alter, tree, rfl⟩

end StatementKind

/-! ## What is chosen -/

section Choice

variable {limit room : Nat} {c c' : Cursor}

/-- What is created is told from the words behind `CREATE`, one of which may say what it is like. -/
theorem Grammar.createdKind?_eq {object : Keyword} {next afterNext : TokenKind}
    (hobject : modifiesCreation (.keyword object) = false)
    (h : next = .keyword object ∨ modifiesCreation next = true ∧ afterNext = .keyword object) :
    createdKind? next afterNext = objectKind? (.keyword object) := by
  rcases h with rfl | ⟨hmodifies, rfl⟩
  · rw [createdKind?, hobject]
    rfl
  · rw [createdKind?, if_pos hmodifies]

/-- A creation of no known kind is never accepted. -/
theorem Grammar.run_unknownCreation_ne_done (statement : Statement) :
    unknownCreation.run productions limit room _ c ≠ .done statement c' := by
  intro hrun
  obtain ⟨_, c₁, -, hrun⟩ := exists_of_run_bind hrun
  obtain ⟨kind, c₂, -, hrun⟩ := exists_of_run_bind hrun
  split at hrun
  · obtain ⟨_, c₃, -, hrun⟩ := exists_of_run_bind hrun
    rw [run_unexpected] at hrun
    cases hrun
  · rw [run_unexpected] at hrun
    cases hrun

theorem Grammar.run_creation (limit room : Nat) (c : Cursor) :
    creation.run productions limit room _ c =
      match createdKind? (c.kindAt 1) (c.kindAt 2) with
      | some object => ((StatementKind.ofObject object).wrap <$>
          (StatementKind.ofObject object).rule.parse).run productions limit room _ c
      | none => unknownCreation.run productions limit room _ c := by
  rw [creation, run_bind_of_done (run_look limit room c 1),
    run_bind_of_done (run_look limit room c 2)]
  cases createdKind? (c.kindAt 1) (c.kindAt 2) with
  | none => rfl
  | some object => cases object <;> rfl

/-- A statement is read as one of the kind that its first tokens tell. -/
theorem Grammar.run_statement_of_some {k : StatementKind} (h : StatementKind.ofCursor? c = some k) :
    statement.run productions limit room _ c =
      (k.wrap <$> k.rule.parse).run productions limit room _ c := by
  rw [statement, kind, run_bind_of_done (run_look limit room c 0)]
  unfold StatementKind.ofCursor? StatementKind.ofKinds? at h
  split at h
  -- behind `CREATE` the object decides
  case h_6 hkind =>
    obtain ⟨object, hobject, rfl⟩ := Option.map_eq_some_iff.1 h
    rw [hkind, run_creation, hobject]
  case h_9 => cases h
  all_goals
    next hkind =>
      cases h
      rw [hkind]
      rfl

/-- Where they tell none, nothing is accepted. -/
theorem Grammar.run_statement_ne_done (h : StatementKind.ofCursor? c = none) (tree : Statement) :
    statement.run productions limit room _ c ≠ .done tree c' := by
  rw [statement, kind, run_bind_of_done (run_look limit room c 0)]
  unfold StatementKind.ofCursor? StatementKind.ofKinds? at h
  split
  -- a creation of no known kind
  case h_7 hkind =>
    rw [hkind] at h
    rw [run_creation, Option.map_eq_none_iff.1 h]
    exact run_unknownCreation_ne_done tree
  -- a `WITH`, and a token that starts no statement
  case h_2 => simp [run_unsupported]
  case h_10 => simp [run_unexpected]
  all_goals
    next hkind =>
      rw [hkind] at h
      cases h

/-! ## What is read -/

/-- Where a parser has moved over a word that says what the created object is like, or stayed. -/
def Cursor.PassesModifier (c c' : Cursor) : Prop :=
  modifiesCreation (c.kindAt 0) = true ∧ c' = c.advance ∨ c' = c

theorem Parser.passesModifier_of_run_accept {word : Keyword} {v : Bool}
    (hmodifies : modifiesCreation (.keyword word) = true)
    (h : (accept word).run productions limit room _ c = .done v c') : c.PassesModifier c' := by
  rcases kindAt_of_run_accept h with ⟨hkind, hadvance⟩ | hstay
  · exact .inl ⟨by rw [hkind]; exact hmodifies, hadvance⟩
  · exact .inr hstay

theorem Grammar.passesModifier_of_run_temporary {v : Bool}
    (h : temporary.run productions limit room _ c = .done v c') : c.PassesModifier c' := by
  rw [temporary] at h
  by_cases hkind : c.kindAt 0 = .keyword .TEMP
  · rw [run_bind_of_done (run_accept_of_eq (t := .keyword .TEMP) hkind), if_pos rfl, run_pure] at h
    cases h
    exact .inl ⟨by rw [hkind]; rfl, rfl⟩
  · rw [run_bind_of_done (run_accept_of_ne (t := .keyword .TEMP) hkind),
      if_neg Bool.false_ne_true] at h
    exact passesModifier_of_run_accept rfl h

/-- A creation is of the kind of its object, behind at most one word that says what it is like. -/
theorem StatementKind.ofCursor?_of_creation {object : Keyword} {c₁ c₂ c₃ : Cursor} {u v : Unit}
    (hcreate : (expect Keyword.CREATE).run productions limit room _ c = .done u c₁)
    (hpasses : c₁.PassesModifier c₂)
    (hobject : (expect object).run productions limit room _ c₂ = .done v c₃)
    (hplain : modifiesCreation (.keyword object) = false) :
    ofCursor? c = (objectKind? (.keyword object)).map ofObject := by
  obtain ⟨hkind, rfl⟩ := kindAt_of_run_expect hcreate
  obtain ⟨hkind₂, -⟩ := kindAt_of_run_expect hobject
  have hne : c.kindAt 0 ≠ .eof := Terminal.ne_eof_of_eq hkind
  have hcreated : createdKind? (c.kindAt 1) (c.kindAt 2) = objectKind? (.keyword object) := by
    refine createdKind?_eq hplain ?_
    rcases hpasses with ⟨hmodifies, rfl⟩ | rfl
    · have hne₁ : c.advance.kindAt 0 ≠ .eof := by
        intro heof
        rw [heof] at hmodifies
        cases hmodifies
      rw [Cursor.kindAt_advance hne₁, Cursor.kindAt_advance hne] at hkind₂
      rw [Cursor.kindAt_advance hne] at hmodifies
      exact .inr ⟨hmodifies, hkind₂⟩
    · rw [Cursor.kindAt_advance hne] at hkind₂
      exact .inl hkind₂
  rw [ofCursor?, hkind, Terminal.kind, ofKinds?, hcreated]

theorem StatementKind.ofCursor?_of_createHead {object : Keyword} {v : Bool × Bool}
    (h : (createHead object).run productions limit room _ c = .done v c')
    (hplain : modifiesCreation (.keyword object) = false) :
    ofCursor? c = (objectKind? (.keyword object)).map ofObject := by
  obtain ⟨_, c₁, hcreate, h⟩ := exists_of_run_bind h
  obtain ⟨temporary, c₂, htemporary, h⟩ := exists_of_run_bind h
  obtain ⟨_, c₃, hobject, -⟩ := exists_of_run_bind h
  exact ofCursor?_of_creation hcreate (passesModifier_of_run_temporary htemporary) hobject hplain

/-- A rule that starts with a word tells the kind by the word alone. -/
theorem StatementKind.ofCursor?_of_expect {word : Keyword} {v : Unit} {k : StatementKind}
    (h : (expect word).run productions limit room _ c = .done v c')
    (hword : ∀ next afterNext, ofKinds? (.keyword word) next afterNext = some k) :
    ofCursor? c = some k := by
  rw [ofCursor?, (kindAt_of_run_expect h).1]
  exact hword _ _

/-- What the rule of a kind accepts starts as a statement of this kind. -/
theorem StatementKind.ofCursor?_of_run {k : StatementKind} {tree : k.rule.Tree}
    (h : k.rule.parse.run productions limit room _ c = .done tree c') : ofCursor? c = some k := by
  cases room with
  | zero => cases h
  | succ room =>
    change (Grammar.rule k.rule).run productions limit room _ c = .done tree c' at h
    cases k with
    | select =>
      rw [Grammar.rule, Grammar.select, run_bind_of_done (run_isAt _)] at h
      split at h
      · rw [run_unsupported] at h
        cases h
      · obtain ⟨_, _, hword, -⟩ := exists_of_run_bind h
        exact ofCursor?_of_expect hword fun _ _ => rfl
    | insert =>
      obtain ⟨verb, _, hverb, -⟩ := exists_of_run_bind h
      by_cases hkind : c.kindAt 0 = .keyword .REPLACE
      · rw [ofCursor?, hkind]
        rfl
      · rw [insertVerb, run_bind_of_done (run_accept_of_ne (t := .keyword .REPLACE) hkind),
          if_neg Bool.false_ne_true] at hverb
        obtain ⟨_, _, hword, -⟩ := exists_of_run_bind hverb
        exact ofCursor?_of_expect hword fun _ _ => rfl
    | update =>
      obtain ⟨_, _, hword, -⟩ := exists_of_run_bind h
      exact ofCursor?_of_expect hword fun _ _ => rfl
    | delete =>
      obtain ⟨_, _, hwords, -⟩ := exists_of_run_bind h
      obtain ⟨_, _, hword, -⟩ := exists_of_run_bind hwords
      exact ofCursor?_of_expect hword fun _ _ => rfl
    | createTable =>
      obtain ⟨_, _, hhead, -⟩ := exists_of_run_bind h
      exact ofCursor?_of_createHead hhead rfl
    | createIndex =>
      obtain ⟨_, _, hcreate, h⟩ := exists_of_run_bind h
      obtain ⟨unique, _, hunique, h⟩ := exists_of_run_bind h
      obtain ⟨_, _, hobject, -⟩ := exists_of_run_bind h
      exact ofCursor?_of_creation hcreate (passesModifier_of_run_accept rfl hunique) hobject rfl
    | createView =>
      obtain ⟨_, _, hhead, -⟩ := exists_of_run_bind h
      exact ofCursor?_of_createHead hhead rfl
    | createTrigger =>
      obtain ⟨_, _, hhead, -⟩ := exists_of_run_bind h
      exact ofCursor?_of_createHead hhead rfl
    | drop =>
      obtain ⟨_, _, hword, -⟩ := exists_of_run_bind h
      exact ofCursor?_of_expect hword fun _ _ => rfl
    | alter =>
      obtain ⟨_, _, hwords, -⟩ := exists_of_run_bind h
      obtain ⟨_, _, hword, -⟩ := exists_of_run_bind hwords
      exact ofCursor?_of_expect hword fun _ _ => rfl

/-- A statement is what the rule of some kind reads. -/
theorem Grammar.run_statement_iff {tree : Statement} :
    statement.run productions limit room _ c = .done tree c' ↔
      ∃ (k : StatementKind) (inner : k.rule.Tree), k.wrap inner = tree ∧
        k.rule.parse.run productions limit room _ c = .done inner c' := by
  constructor
  · intro hrun
    cases hkind : StatementKind.ofCursor? c with
    | none => exact absurd hrun (run_statement_ne_done hkind tree)
    | some k =>
      rw [run_statement_of_some hkind] at hrun
      obtain ⟨inner, c₁, hinner, hpure⟩ := exists_of_run_bind hrun
      cases (run_pure limit room c₁ (k.wrap inner)).symm.trans hpure
      exact ⟨k, inner, rfl, hinner⟩
  · rintro ⟨k, inner, rfl, hrun⟩
    rw [run_statement_of_some (StatementKind.ofCursor?_of_run hrun)]
    exact (run_bind_of_done hrun).trans (run_pure limit room c' _)

end Choice

/-- A statement needs one level more than the rule of its kind, and nothing else. -/
theorem Grammar.parses_statement_iff {depth : Nat} {c : Cursor} (k : StatementKind)
    (tree : k.rule.Tree) :
    (Grammar.run (depth + 1) (whole .statement) c).toExcept = .ok (k.wrap tree) ↔
      (Grammar.run depth (whole k.rule) c).toExcept = .ok tree := by
  rw [parses_iff, parses_iff]
  refine exists_congr fun c₁ => and_congr_left fun _ => ?_
  rw [run_done_iff_of_limit depth (depth + 1)]
  change statement.run productions (depth + 1) depth _ c = .done (k.wrap tree) c₁ ↔ _
  rw [run_statement_iff]
  constructor
  · rintro ⟨k', inner, hwrap, hrun⟩
    have hsame : k' = k := by rw [← k'.kind_wrap inner, hwrap, k.kind_wrap]
    subst hsame
    rwa [← k'.wrap_injective hwrap]
  · exact fun hrun => ⟨k, tree, rfl, hrun⟩

/-- With one level more, `parseRule .statement` gives `k.wrap tree` exactly where `parseRule k.rule`
gives the tree. No text is of two kinds, and every statement is `wrap` of a tree of some
`StatementKind`. -/
theorem statement_dispatch (text : String) :
    (∀ (depth : Nat) (k : StatementKind) (tree : k.rule.Tree),
        parseRule .statement text (depth + 1) = .ok (k.wrap tree) ↔
          parseRule k.rule text depth = .ok tree) ∧
      (∀ (depth depth' : Nat) (k k' : StatementKind) (tree : k.rule.Tree) (tree' : k'.rule.Tree),
        parseRule k.rule text depth = .ok tree → parseRule k'.rule text depth' = .ok tree' →
          k = k') ∧
      ∀ statement : Statement,
        ∃ (k : StatementKind) (tree : k.rule.Tree), k.wrap tree = statement := by
  refine ⟨fun depth k tree => ?_, fun depth depth' k k' tree tree' h h' => ?_,
    StatementKind.exists_wrap⟩
  · cases hc : Cursor.ofText text with
    | error error => simp [parseRule_of_fault hc]
    | ok c =>
      rw [parseRule_of_ofText hc, parseRule_of_ofText hc]
      exact parses_statement_iff k tree
  · cases hc : Cursor.ofText text with
    | error error =>
      rw [parseRule_of_fault hc] at h
      cases h
    | ok c =>
      rw [parseRule_of_ofText hc] at h h'
      obtain ⟨c₁, hrun, -⟩ := parses_iff.1 h
      obtain ⟨c₁', hrun', -⟩ := parses_iff.1 h'
      -- both rules see the same first tokens
      exact Option.some.inj ((StatementKind.ofCursor?_of_run hrun).symm.trans
        (StatementKind.ofCursor?_of_run hrun'))

/-- A word between `CREATE` and `INDEX` is looked past by both. -/
theorem statement_dispatch_index : ∃ tree : CreateIndex,
    parseRule .createIndex "CREATE UNIQUE INDEX i ON t (a)" 2 = .ok tree ∧
      parseRule .statement "CREATE UNIQUE INDEX i ON t (a)" 3 = .ok (.createIndex tree) ∧
      ∀ (depth : Nat) (k : StatementKind) (tree' : k.rule.Tree),
        parseRule k.rule "CREATE UNIQUE INDEX i ON t (a)" depth = .ok tree' → k = .createIndex := by
  obtain ⟨hsame, hone, -⟩ := statement_dispatch "CREATE UNIQUE INDEX i ON t (a)"
  have hok : (parseRule .createIndex "CREATE UNIQUE INDEX i ON t (a)" 2).isOk = true := by
    decide +kernel
  cases hparse : parseRule .createIndex "CREATE UNIQUE INDEX i ON t (a)" 2 with
  | error error =>
    rw [hparse] at hok
    cases hok
  | ok tree =>
    exact ⟨tree, rfl, (hsame 2 .createIndex tree).2 hparse,
      fun depth k tree' h => hone depth 2 k .createIndex tree' tree h hparse⟩

end SqlGrammar
