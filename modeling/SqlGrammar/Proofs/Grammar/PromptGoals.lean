import SqlGrammar.Proofs.Grammar.Progress
import SqlGrammar.Proofs.Grammar.Quiet
import SqlGrammar.Proofs.Reading.Statement

/-!
# What the goals start with and what may follow them

For every goal of the grammar, what a completion of it starts with as far as others look at it
(`Goal.Enters`), and what may stand behind whatever tree of the goal (`Goal.Leaves`). That all goals
that are parts of statements keep to this, for a number of levels, is `GoalsPrompt`; the productions
are gone through under this assumption, one level up.
-/

set_option autoImplicit false

namespace SqlGrammar

open SqlGrammar.Parser

namespace Grammar

variable {least least' : Nat} {ss : List Symbol}

/-! ## Operands -/

/-- What an operand starts with. A name with a star behind it stands for columns, and is none. -/
structure StartsOperand (ss : List Symbol) : Prop where
  kind : startsExpr (kindAhead ss 0) = true
  allOf : startsAllOf ss = false

/-- Only a name, a point and a star in a row are what `startsAllOf` looks for. -/
theorem startsAllOf_of_not_name (h : (kindAhead ss 0).isIdentifier = false) :
    startsAllOf ss = false := by
  rw [startsAllOf, h, Bool.false_and]

theorem startsAllOf_of_ne_dot (h : kindAhead ss 1 ≠ .operator .dot) : startsAllOf ss = false := by
  rw [startsAllOf, terminalsAhead, Bool.eq_false_iff.2 (mt Terminal.accepts_iff.1 h),
    Bool.false_and, Bool.and_false]

theorem startsAllOf_of_ne_star (h : kindAhead ss 2 ≠ .operator .star) : startsAllOf ss = false := by
  have hstar : Terminal.accepts Operator.star (kindAhead ss 2) = false :=
    Bool.eq_false_iff.2 (mt Terminal.accepts_iff.1 h)
  rw [startsAllOf, terminalsAhead, terminalsAhead, hstar, Bool.false_and, Bool.and_false,
    Bool.and_false]

/-- What may stand behind whatever operand: no operator that a part of it would take, nothing that
makes its last name a qualifier or a function, and no escape. -/
structure EndsOperand (least : Nat) (ss : List Symbol) : Prop where
  operator : ∀ q, infixAhead ss = some q → q < min least negationPower
  dot : kindAhead ss 0 ≠ .operator .dot
  call : kindAhead ss 0 ≠ .operator .leftParen
  escape : kindAhead ss 0 ≠ .keyword .ESCAPE

/-- What ends an operand ends one of which more is demanded, up to `negationPower`. -/
theorem EndsOperand.mono (h : EndsOperand least ss) (hle : min least negationPower ≤ least') :
    EndsOperand least' ss where
  operator q hq := by
    have := h.operator q hq
    omega
  dot := h.dot
  call := h.call
  escape := h.escape

/-- What `endsExpr` is no operator at all. -/
theorem EndsOperand.of_endsExpr (h : endsExpr (kindAhead ss 0) = true) : EndsOperand least ss where
  operator q hq := by
    simp only [endsExpr, Bool.and_eq_true, Option.isNone_iff_eq_none] at h
    rw [infixAhead_of_none h.1.1.1] at hq
    cases hq
  dot := TokenKind.ne_of_holds h rfl
  call := TokenKind.ne_of_holds h rfl
  escape := TokenKind.ne_of_holds h rfl

/-! ## Other goals -/

/-- A constraint of a column starts here. A `NOT` that belongs to a reference starts none. -/
structure StartsConstraint (ss : List Symbol) : Prop where
  kind : startsColumnConstraint (kindAhead ss 0) = true
  deferral : terminalsAhead ss 0 [Keyword.NOT, Keyword.DEFERRABLE] = false

/-- The creation of an object of a kind starts here, to judge by the words behind the first. -/
def StartsCreation (object : ObjectKind) (ss : List Symbol) : Prop :=
  createdKind? (kindAhead ss 1) (kindAhead ss 2) = some object

/-- The end of the input, a semicolon or a closing parenthesis. -/
def EndsStatement (ss : List Symbol) : Prop := endsQuery (kindAhead ss 0) = true

theorem endsStatement_nil : EndsStatement [] := rfl

/-- What is entered by a terminal and left at the end of a statement offers the terminal. -/
theorem offers_of_endsStatement {α : Type} {p : Production α} {fit : List Symbol → Prop}
    {t : Terminal} (h : Writable productions p fit (fun _ => EndsStatement))
    (hfit : ∀ ss, fit ss → StartsWith t ss) :
    Offers productions p (StartsWith t) (fun _ => EndsStatement) t :=
  (h.mono hfit fun _ _ => id).offers_first (fun _ => id) fun _ =>
    ⟨[], endsStatement_nil, fun hstart => t.kind_ne_eof hstart.symm⟩

/-- The end of an entry of a table, or of a list of names. -/
def EndsDefinition (ss : List Symbol) : Prop := kindAhead ss 0 ∈ definitionEnds

end Grammar

open Grammar

/-- What a tree of the rule starts with, as far as others look at it. -/
def Rule.Enters : Rule → List Symbol → Prop
  | expr => StartsOperand
  | resultColumn => fun ss =>
    kindAhead ss 0 = .operator .star ∨ startsExpr (kindAhead ss 0) = true
  | literal => fun ss => (Literal.ofKind? (kindAhead ss 0)).isSome = true
  | functionCall => fun ss => kindAhead ss 1 = .operator .leftParen
  | signedNumber => fun ss => startsSignedNumber (kindAhead ss 0) (kindAhead ss 1) = true
  | conflictClause => fun ss => terminalsAhead ss 0 [Keyword.ON, Keyword.CONFLICT] = true
  | columnDefinition => StartsName
  | columnConstraint => StartsConstraint
  | tableConstraint => fun ss => startsTableConstraint (kindAhead ss 0) = true
  | createTable => StartsCreation .table
  | createIndex => StartsCreation .index
  | createView => StartsCreation .view
  | createTrigger => StartsCreation .trigger
  | _ => fun _ => True

/-- What may stand behind whatever tree of the rule. -/
def Rule.Leaves : Rule → List Symbol → Prop
  | expr => EndsOperand 0
  | resultColumn | orderingTerm | tableSource | selectSource => fun ss =>
    endsItem (kindAhead ss 0) = true
  | assignment => fun ss => endsExpr (kindAhead ss 0) = true
  | literal | functionCall | signedNumber | conflictClause => fun _ => True
  | typeName => fun ss =>
    (kindAhead ss 0).isIdentifier = false ∧ kindAhead ss 0 ≠ .operator .leftParen
  | columnConstraint | foreignKey => EndsConstraint
  | columnDefinition | tableConstraint | indexedColumn => EndsDefinition
  | _ => EndsStatement

/-- Whether trees of the rule are parts of statements. There are no joins, and a whole statement
stands in no other. -/
def Rule.isPart : Rule → Bool
  | statement | joinClause => false
  | _ => true

/-- Whether trees of the goal are parts of statements. -/
def Goal.isPart : Goal → Bool
  | rule r => r.isPart
  | operand _ => true

/-- What a tree of the goal starts with, as far as others look at it. -/
def Goal.Enters : Goal → List Symbol → Prop
  | rule r => r.Enters
  | operand _ => StartsOperand

/-- What may stand behind whatever tree of the goal. -/
def Goal.Leaves : Goal → List Symbol → Prop
  | rule r => r.Leaves
  | operand least => EndsOperand least

namespace Grammar

/-- With this number of levels left, all goals that are parts of statements are prompt. -/
def GoalsPrompt (limit room : Nat) : Prop :=
  ∀ g : Goal, g.isPart = true →
    Strict productions limit room (Parser.goal g) g.Enters (fun _ => g.Leaves)

variable {limit room : Nat} {c : Cursor}

/-- The parts of statements are `Strict` by assumption. -/
theorem GoalsPrompt.parse (h : GoalsPrompt limit room) (r : Rule) (hr : r.isPart = true) :
    Strict productions limit room r.parse r.Enters (fun _ => r.Leaves) :=
  h (.rule r) hr

theorem GoalsPrompt.expr (h : GoalsPrompt limit room) :
    Strict productions limit room Rule.expr.parse StartsOperand (fun _ => EndsOperand 0) :=
  h.parse .expr rfl

theorem GoalsPrompt.operand (h : GoalsPrompt limit room) (least : Nat) :
    Strict productions limit room (operandOf least) StartsOperand (fun _ => EndsOperand least) :=
  h (.operand least) rfl

theorem GoalsPrompt.select (h : GoalsPrompt limit room) :
    Strict productions limit room Rule.select.parse (fun _ => True) (fun _ => EndsStatement) :=
  h.parse .select rfl

/-- A goal that is quiet before its first token keeps the kind of that token. -/
theorem GoalsPrompt.sameHead (h : GoalsPrompt limit room) (r : Rule) (hr : r.isPart = true)
    (hquiet : QuietAt productions limit room r.parse c) :
    PromptAt productions limit room r.parse
      (fun ss => r.Enters ss ∧ kindAhead ss 0 = c.kindAt 0) (fun _ => r.Leaves) c :=
  ((h.parse r hr).promptAt c).sameHead hquiet

/-- A rule is a branch of a choice at each of its first words that it offers. -/
theorem GoalsPrompt.branch (h : GoalsPrompt limit room) (r : Rule) (hr : r.isPart = true)
    {α : Type} (f : r.Tree → α) {word : Keyword} {enter : List Symbol → Prop}
    (hword : word ∈ r.firstWords)
    (hoffers : Offers productions (rule r) (StartsWith word) (fun _ => r.Leaves) word)
    (henter : ∀ ss, StartsWith word ss → enter ss) :
    Branch productions limit room (f <$> r.parse) enter (fun _ => r.Leaves) word c where
  offers := by
    have hgoal : Offers productions r.parse (StartsWith word) (fun _ => r.Leaves) word :=
      Completable.goal (g := Goal.rule r) hoffers
    exact Completable.mono (Completable.map f hgoal) henter fun _ _ => id
  promptAt hkind := by
    refine PromptAt.map f ((h.sameHead r hr (quietAt_parse_of_mem hword hkind)).mono
      (fun ss hss => ?_) fun _ _ => id)
    have hstart : StartsWith word ss := hss.2.trans hkind
    exact ⟨henter ss hstart, hstart⟩

end Grammar

end SqlGrammar
