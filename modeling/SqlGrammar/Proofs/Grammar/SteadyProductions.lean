import SqlGrammar.Proofs.Grammar.Steady

/-!
# Every goal is steady

The productions of the grammar one by one, and all goals by induction on the levels left
(`goalsSteady`). In only one place is a word that would add another query told from the end of the
input: a query refuses it (`steady_refuseCompound`).
-/

set_option autoImplicit false

namespace SqlGrammar.Grammar

open SqlGrammar.Parser Keyword

/-! ## Kinds that start something -/

/-- No refused word starts a literal: `Literal.ofKind?` finds one for proper kinds only. -/
theorem isProper_of_literal {kind : TokenKind} {value : Literal}
    (h : Literal.ofKind? kind = some value) : kind.isProper = true :=
  TokenKind.isProper_of_some _ rfl (fun word hword => by cases word <;> first | rfl | cases hword) h

/-- No refused word is a prefix operator of `UnaryOp.ofKind?`. -/
theorem isProper_of_unaryOp {kind : TokenKind} {op : UnaryOp}
    (h : UnaryOp.ofKind? kind = some op) : kind.isProper = true :=
  TokenKind.isProper_of_some _ rfl (fun word hword => by cases word <;> first | rfl | cases hword) h

/-- No refused word is an operator of `InfixForm.ofKind?`. -/
theorem isProper_of_infixForm {kind : TokenKind} {form : InfixForm}
    (h : InfixForm.ofKind? kind = some form) : kind.isProper = true :=
  TokenKind.isProper_of_some _ rfl (fun word hword => by cases word <;> first | rfl | cases hword) h

/-- No refused word names an object of `objectKind?`. -/
theorem isProper_of_objectKind {kind : TokenKind} {object : ObjectKind}
    (h : objectKind? kind = some object) : kind.isProper = true :=
  TokenKind.isProper_of_some _ rfl (fun word hword => by cases word <;> first | rfl | cases hword) h

/-- No refused word names a `ConflictResolution`. -/
theorem isProper_of_resolution {kind : TokenKind} {resolution : ConflictResolution}
    (h : kind.keyword?.bind ConflictResolution.ofKeyword? = some resolution) :
    kind.isProper = true :=
  TokenKind.isProper_of_some (fun kind => kind.keyword?.bind ConflictResolution.ofKeyword?) rfl
    (fun word hword => by cases word <;> first | rfl | cases hword) h

/-- No refused word is a `Token.callee?`: its keywords are those that name a function. -/
theorem isProper_of_callee {t : Token} {name : String} (h : t.callee? = some name) :
    t.kind.isProper = true := by
  unfold Token.callee? at h
  split at h
  · next hkind =>
    rw [hkind]
    rfl
  · next word hkind =>
    rw [hkind]
    cases word <;> first | rfl | cases h
  · cases h

section Productions

variable {limit room : Nat} {c : Cursor}

/-! ## Parts without goals -/

theorem steady_literal : Steady limit room literal c := by
  refine steady_kind ⟨rfl, rfl, rfl, rfl⟩ ?_
  split
  · next value h =>
    exact steady_bind (steady_advance (isProper_of_literal h)) fun _ _ _ => steady_pure value
  · exact steady_unexpected _

/-- A point is of none of the kinds of `TokenKind.Closes`, so that none is found behind a name. -/
theorem steady_columnName : Steady limit room columnName c := by
  refine steady_bind steady_identifier fun first c₁ _ => ?_
  refine steady_accept rfl (fun c₂ => ?_) (steady_pure _)
  refine steady_bind steady_identifier fun second c₃ _ => ?_
  refine steady_accept rfl (fun c₄ => ?_) (steady_pure _)
  exact steady_bind steady_identifier fun _ _ _ => steady_pure _

theorem steady_qualifiedName : Steady limit room qualifiedName c := by
  refine steady_bind steady_identifier fun first c₁ _ => ?_
  refine steady_accept rfl (fun c₂ => ?_) (steady_pure _)
  exact steady_bind steady_identifier fun _ _ _ => steady_pure _

/-- Without `AS`, a name of its own may be the alias. -/
theorem steady_aliasName? : Steady limit room aliasName? c :=
  steady_accept rfl (fun _ => steady_map steady_identifier) steady_identifier?

/-- Both forms of `indexHint?` start with a word, and `NOT` is taken only if `INDEXED` follows. -/
theorem steady_indexHint? : Steady limit room indexHint? c := by
  refine steady_bind (steady_acceptAll [INDEXED, BY] rfl) fun indexed c₁ _ => ?_
  split
  · exact steady_bind steady_identifier fun _ _ _ => steady_pure _
  · refine steady_bind (steady_acceptAll [NOT, INDEXED] rfl) fun notIndexed c₂ _ => ?_
    split
    · exact steady_pure _
    · exact steady_pure _

theorem steady_direction? : Steady limit room direction? c :=
  steady_accept rfl (fun _ => steady_pure _)
    (steady_accept rfl (fun _ => steady_pure _) (steady_pure _))

theorem steady_distinct : Steady limit room distinct c :=
  steady_accept rfl (fun _ => steady_pure _)
    (steady_accept rfl (fun _ => steady_pure _) (steady_pure _))

/-- A query refuses the words that would add another query. -/
theorem run_refuseCompound_of_adds (h : (c.kindAt 0).addsQuery = true) :
    refuseCompound.run productions limit room _ c =
      .failed (c.unsupported "compound SELECT") c := by
  rw [refuseCompound, kind, run_bind_of_done (run_look limit room c 0)]
  split
  · exact run_unsupported limit room c _
  · exact run_unsupported limit room c _
  · exact run_unsupported limit room c _
  · unfold TokenKind.addsQuery at h
    split at h <;> contradiction

/-- Otherwise `refuseCompound` does nothing. -/
theorem run_refuseCompound (h : (c.kindAt 0).addsQuery = false) :
    refuseCompound.run productions limit room _ c = .done () c := by
  rw [refuseCompound, kind, run_bind_of_done (run_look limit room c 0)]
  split
  · next hkind => rw [hkind] at h; cases h
  · next hkind => rw [hkind] at h; cases h
  · next hkind => rw [hkind] at h; cases h
  · exact run_pure limit room c ()

/-- The only production that tells a closing word from the end of the input. -/
theorem steady_refuseCompound : Steady limit room refuseCompound c := by
  intro v c₁ hrun
  cases hadds : (c.kindAt 0).addsQuery with
  | true =>
    rw [run_refuseCompound_of_adds hadds] at hrun
    cases hrun
  | false =>
    rw [run_refuseCompound hadds] at hrun
    cases hrun
    refine ⟨⟨[], rfl, nofun⟩, fun c' s more hs hsymbols => ?_⟩
    cases hadds' : (c'.kindAt 0).addsQuery with
    | false =>
      rw [run_refuseCompound hadds']
      exact .done hsymbols
    | true =>
      rw [run_refuseCompound_of_adds hadds']
      refine .refused hadds' ?_
      -- the word stands behind the tokens ahead, of which there are none
      have hzero : c.remaining = 0 := by
        apply Nat.eq_zero_of_not_pos
        intro hpos
        rw [Cursor.kindAt_behind hsymbols hpos, hadds] at hadds'
        cases hadds'
      rw [← c.length_symbols] at hzero
      rw [hsymbols, List.eq_nil_of_length_eq_zero hzero, List.nil_append]

theorem steady_sign : Steady limit room sign c :=
  steady_accept rfl (fun _ => steady_pure _)
    (steady_accept rfl (fun _ => steady_pure _) (steady_pure _))

theorem steady_signedNumber : Steady limit room signedNumber c := by
  refine steady_bind steady_sign fun sign c₁ _ => ?_
  refine steady_kind ⟨rfl, rfl, rfl, rfl⟩ ?_
  split
  · next text h =>
    exact steady_bind (steady_advance (by rw [h]; rfl)) fun _ _ _ => steady_pure _
  · exact steady_unexpected _

/-- The word is looked up in `ConflictResolution.ofKeyword?`, then taken. -/
theorem steady_conflictResolution : Steady limit room conflictResolution c := by
  refine steady_kind ⟨rfl, rfl, rfl, rfl⟩ ?_
  split
  · next resolution h =>
    exact steady_bind (steady_advance (isProper_of_resolution h)) fun _ _ _ => steady_pure _
  · exact steady_unexpected _

theorem steady_conflictClause : Steady limit room conflictClause c :=
  steady_bind (steady_expectAll [ON, CONFLICT] rfl) fun _ _ _ => steady_conflictResolution

/-- The only action of two optional words is `NO ACTION`; both are taken or neither. -/
theorem steady_referenceAction : Steady limit room referenceAction c := by
  refine steady_accept rfl (fun c₁ => ?_) ?_
  · refine steady_accept rfl (fun _ => steady_pure _) ?_
    exact steady_bind (steady_expect _ rfl) fun _ _ _ => steady_pure _
  · refine steady_accept rfl (fun _ => steady_pure _) ?_
    refine steady_accept rfl (fun _ => steady_pure _) ?_
    refine steady_bind (steady_acceptAll [NO, ACTION] rfl) fun taken c₁ _ => ?_
    split
    · exact steady_pure _
    · exact steady_unexpected _

/-- Each rule is known by its first words: `ON DELETE`, `ON UPDATE` or `MATCH`. -/
theorem steady_referenceRule? : Steady limit room referenceRule? c := by
  refine steady_bind (steady_acceptAll [ON, DELETE] rfl) fun onDelete c₁ _ => ?_
  split
  · exact steady_bind steady_referenceAction fun _ _ _ => steady_pure _
  · refine steady_bind (steady_acceptAll [ON, UPDATE] rfl) fun onUpdate c₂ _ => ?_
    split
    · exact steady_bind steady_referenceAction fun _ _ _ => steady_pure _
    · refine steady_accept rfl (fun c₃ => ?_) (steady_pure _)
      exact steady_bind steady_identifier fun _ _ _ => steady_pure _

theorem steady_initialCheck : Steady limit room initialCheck c :=
  steady_accept rfl (fun _ => steady_pure _)
    (steady_bind (steady_expect _ rfl) fun _ _ _ => steady_pure _)

theorem steady_deferral : Steady limit room deferral c := by
  refine steady_bind (steady_taken rfl) fun negated c₁ _ => ?_
  refine steady_bind (steady_expect _ rfl) fun _ c₂ _ => ?_
  exact steady_bind (steady_behind rfl fun _ => steady_initialCheck) fun _ _ _ => steady_pure _

/-- Both starts of a deferral are looked for, but not taken, before `deferral`. -/
theorem steady_deferral? : Steady limit room deferral? c := by
  refine steady_isAt DEFERRABLE ⟨rfl, rfl, rfl, rfl⟩ ?_
  refine steady_areAhead 0 [NOT, DEFERRABLE] rfl (fun _ h => absurd h (Nat.not_lt_zero _)) ?_
  split
  · exact steady_map steady_deferral
  · exact steady_pure none

theorem steady_identifierList? : Steady limit room identifierList? c := by
  refine steady_isAt _ ⟨rfl, rfl, rfl, rfl⟩ ?_
  split
  · exact steady_identifierList
  · exact steady_pure []

/-- The rules of a `foreignKey` end where `referenceRule?` finds none. -/
theorem steady_foreignKey : Steady limit room foreignKey c := by
  refine steady_bind (steady_expect _ rfl) fun _ c₁ _ => ?_
  refine steady_bind steady_identifier fun table c₂ _ => ?_
  refine steady_bind steady_identifierList? fun columns c₃ _ => ?_
  refine steady_bind (steady_many fun _ => steady_referenceRule?) fun rules c₄ _ => ?_
  exact steady_bind steady_deferral? fun _ _ _ => steady_pure _

theorem steady_indexedColumn : Steady limit room indexedColumn c := by
  refine steady_bind steady_identifier fun name c₁ _ => ?_
  refine steady_bind (steady_behind rfl fun _ => steady_identifier) fun collation c₂ _ => ?_
  exact steady_bind steady_direction? fun _ _ _ => steady_pure _

theorem steady_constraintName? : Steady limit room constraintName? c :=
  steady_behind rfl fun _ => steady_identifier

theorem steady_ifNotExists : Steady limit room ifNotExists c :=
  steady_acceptAll [IF, NOT, EXISTS] rfl

theorem steady_temporary : Steady limit room temporary c :=
  steady_accept rfl (fun _ => steady_pure _) (steady_taken rfl)

/-- The kind of object that `createHead` expects must not be a word that the grammar refuses. -/
theorem steady_createHead (object : Keyword) (h : object.isRefused = false) :
    Steady limit room (createHead object) c := by
  have hobject : (Terminal.keyword object).kind.isProper = true := by
    rw [Terminal.kind, TokenKind.isProper, h]
    rfl
  refine steady_bind (steady_expect _ rfl) fun _ c₁ _ => ?_
  refine steady_bind steady_temporary fun _ c₂ _ => ?_
  refine steady_bind (steady_expect _ hobject) fun _ c₃ _ => ?_
  exact steady_bind steady_ifNotExists fun _ _ _ => steady_pure _

theorem steady_triggerTiming? : Steady limit room triggerTiming? c := by
  refine steady_accept rfl (fun _ => steady_pure _) ?_
  refine steady_accept rfl (fun _ => steady_pure _) ?_
  refine steady_accept rfl (fun c₁ => ?_) (steady_pure _)
  exact steady_bind (steady_expect _ rfl) fun _ _ _ => steady_pure _

/-- Steadiness of `listBehind`, from that of its items. -/
theorem steady_listBehind {α : Type} (ts : List Terminal) (hts : ts.all Terminal.isPlain = true)
    {item : Production α} (hitem : ∀ c, Steady limit room item c) :
    Steady limit room (listBehind ts item) c := by
  refine steady_bind (steady_acceptAll ts hts) fun taken c₁ _ => ?_
  split
  · exact steady_commaSeparated hitem
  · exact steady_pure []

/-- Only an `UPDATE` can have columns behind it. -/
theorem steady_triggerEvent : Steady limit room triggerEvent c := by
  refine steady_kind ⟨rfl, rfl, rfl, rfl⟩ ?_
  split
  · next h => exact steady_bind (steady_advance (by rw [h]; rfl)) fun _ _ _ => steady_pure _
  · next h => exact steady_bind (steady_advance (by rw [h]; rfl)) fun _ _ _ => steady_pure _
  · next h =>
    refine steady_bind (steady_advance (by rw [h]; rfl)) fun _ c₁ _ => ?_
    exact steady_bind (steady_listBehind [OF] rfl fun _ => steady_identifier) fun _ _ _ =>
      steady_pure _
  · exact steady_unexpected _

/-- The kind of object is looked up in `objectKind?`, then taken. -/
theorem steady_drop : Steady limit room drop c := by
  refine steady_bind (steady_expect _ rfl) fun _ c₁ _ => ?_
  refine steady_kind ⟨rfl, rfl, rfl, rfl⟩ ?_
  split
  · next object h =>
    refine steady_bind (steady_advance (isProper_of_objectKind h)) fun _ c₂ _ => ?_
    refine steady_bind (steady_acceptAll [IF, EXISTS] rfl) fun ifExists c₃ _ => ?_
    exact steady_bind steady_qualifiedName fun _ _ _ => steady_pure _
  · exact steady_unexpected _

/-- An `INSERT` has its resolution behind `OR`; `REPLACE` has none. -/
theorem steady_insertVerb : Steady limit room insertVerb c := by
  refine steady_accept rfl (fun _ => steady_pure _) ?_
  refine steady_bind (steady_expect _ rfl) fun _ c₁ _ => ?_
  refine steady_bind (steady_behind rfl fun _ => steady_conflictResolution)
    fun resolution c₂ _ => ?_
  cases resolution with
  | some resolution => exact steady_pure _
  | none => exact steady_pure _

/-- A parenthesis in place of a `tableSource` is refused as a subquery. -/
theorem steady_tableSource : Steady limit room tableSource c := by
  refine steady_isAt _ ⟨rfl, rfl, rfl, rfl⟩ ?_
  split
  · exact steady_unsupported _
  · refine steady_bind steady_qualifiedName fun table c₁ _ => ?_
    refine steady_bind steady_aliasName? fun aliasName c₂ _ => ?_
    exact steady_bind steady_indexHint? fun _ _ _ => steady_pure _

/-- The production `joinClause` finds nothing: it refuses, or fails. -/
theorem steady_joinClause : Steady limit room joinClause c := by
  refine steady_kind ⟨rfl, rfl, rfl, rfl⟩ ?_
  split
  · exact steady_unsupported _
  · exact steady_unexpected _

/-! ## Parts with goals -/

variable (hgoals : ∀ r, r ≤ room → GoalsSteady limit r)
include hgoals

/-- With the levels that are left, a goal is steady by assumption. -/
theorem steady_goal (g : Goal) : Steady limit room (Parser.goal g) c :=
  hgoals room (Nat.le_refl room) g c

theorem steady_parse (r : Rule) : Steady limit room r.parse c := steady_goal hgoals (.rule r)

/-! ## Expressions -/

/-- The goal of an operand, at any demanded power. -/
theorem steady_operandOf (least : Nat) : Steady limit room (operandOf least) c :=
  steady_goal hgoals (.operand least)

theorem steady_exprs : Steady limit room (commaSeparated Rule.expr.parse) c :=
  steady_commaSeparated fun _ => steady_parse hgoals .expr

/-- No argument is parsed before a parenthesis that closes, nor behind a star. -/
theorem steady_callArgs : Steady limit room callArgs c := by
  refine steady_accept rfl (fun _ => steady_pure _) ?_
  refine steady_isAt _ ⟨rfl, rfl, rfl, rfl⟩ ?_
  split
  · exact steady_pure _
  · refine steady_bind (steady_taken rfl) fun distinct c₁ _ => ?_
    exact steady_bind (steady_exprs hgoals) fun _ _ _ => steady_pure _

/-- The name is a `Token.callee?`, which is a proper kind. -/
theorem steady_functionCall : Steady limit room functionCall c := by
  refine steady_callee ?_
  split
  · next name h =>
    have hproper : (c.kindAt 0).isProper = true := by
      rw [c.kindAt_zero]
      exact isProper_of_callee h
    refine steady_bind (steady_advance hproper) fun _ c₁ _ => ?_
    exact steady_bind (steady_parenthesized fun _ => steady_callArgs hgoals) fun _ _ _ =>
      steady_pure _
  · exact steady_unexpected _

theorem steady_castBody : Steady limit room castBody c := by
  refine steady_bind (steady_parse hgoals .expr) fun subject c₁ _ => ?_
  refine steady_bind (steady_expect _ rfl) fun _ c₂ _ => ?_
  exact steady_bind (steady_parse hgoals .typeName) fun _ _ _ => steady_pure _

theorem steady_whenBranch : Steady limit room whenBranch c := by
  refine steady_bind (steady_parse hgoals .expr) fun condition c₁ _ => ?_
  refine steady_bind (steady_expect _ rfl) fun _ c₂ _ => ?_
  exact steady_bind (steady_parse hgoals .expr) fun _ _ _ => steady_pure _

/-- What is behind the operand is the same parser whether there is an operand or not, so it is gone
through once, as `hrest`. -/
theorem steady_caseExpr : Steady limit room caseExpr c := by
  refine steady_bind (steady_expect _ rfl) fun _ c₁ _ => ?_
  refine steady_isAt _ ⟨rfl, rfl, rfl, rfl⟩ ?_
  have hrest : ∀ (operand : Option Expr) c, Steady limit room (do
      expect WHEN
      let first ← whenBranch
      let others ← many (behind? WHEN whenBranch)
      let otherwise ← behind? ELSE Rule.expr.parse
      expect END
      return Expr.caseWhen operand (first :: others) otherwise) c := by
    intro operand c
    refine steady_bind (steady_expect _ rfl) fun _ c₂ _ => ?_
    refine steady_bind (steady_whenBranch hgoals) fun first c₃ _ => ?_
    refine steady_bind (steady_many fun _ => steady_behind rfl fun _ => steady_whenBranch hgoals)
      fun others c₄ _ => ?_
    refine steady_bind (steady_behind rfl fun _ => steady_parse hgoals .expr)
      fun otherwise c₅ _ => ?_
    exact steady_bind (steady_expect _ rfl) fun _ _ _ => steady_pure _
  split
  · exact steady_bind (steady_pure none) fun operand c₂ _ => hrest operand c₂
  · exact steady_bind (steady_map (steady_parse hgoals .expr)) fun operand c₂ _ => hrest operand c₂

omit hgoals in
/-- The word for common tables is looked for, but not taken. -/
theorem steady_startsQuery : Steady limit room startsQuery c := by
  refine steady_isAt _ ⟨rfl, rfl, rfl, rfl⟩ ?_
  split
  · exact steady_pure true
  · exact steady_kind ⟨rfl, rfl, rfl, rfl⟩ (steady_pure _)

/-- The branch of `parenBody` is chosen by `startsQuery`, which is steady. -/
theorem steady_parenBody : Steady limit room parenBody c := by
  refine steady_bind steady_startsQuery fun starts c₁ _ => ?_
  split
  · exact steady_bind (steady_parse hgoals .select) fun _ _ _ => steady_pure _
  · exact steady_bind (steady_parse hgoals .expr) fun _ _ _ => steady_pure _

/-- One case for each kind of token that `primary` looks for; each takes a proper token or has a
goal first. -/
theorem steady_primary : Steady limit room primary c := by
  refine steady_kind ⟨rfl, rfl, rfl, rfl⟩ ?_
  split
  · next value h =>
    exact steady_bind (steady_advance (isProper_of_literal h)) fun _ _ _ => steady_pure _
  · refine steady_isNext _ ⟨rfl, rfl, rfl, rfl⟩ (fun heof => by rw [heof]; rfl) ?_
    split
    · exact steady_bind (steady_parse hgoals .functionCall) fun _ _ _ => steady_pure _
    · split
      · next text h =>
        exact steady_bind (steady_advance (by rw [h]; rfl)) fun _ _ _ => steady_pure _
      · exact steady_columnName
      · next h =>
        exact steady_bind (steady_advance (by rw [h]; rfl)) fun _ _ _ =>
          steady_parenthesized fun _ => steady_castBody hgoals
      · exact steady_caseExpr hgoals
      · next h =>
        refine steady_bind (steady_advance (by rw [h]; rfl)) fun _ c₁ _ => ?_
        exact steady_bind (steady_parenthesized fun _ => steady_parse hgoals .select)
          fun _ _ _ => steady_pure _
      · exact steady_parenthesized fun _ => steady_parenBody hgoals
      · exact steady_unexpected _

/-- Behind a prefix operator there is an operand, without one a `primary`. -/
theorem steady_operandHead : Steady limit room operandHead c := by
  refine steady_kind ⟨rfl, rfl, rfl, rfl⟩ ?_
  split
  · next op h =>
    refine steady_bind (steady_advance (isProper_of_unaryOp h)) fun _ c₁ _ => ?_
    exact steady_bind (steady_operandOf hgoals _) fun _ _ _ => steady_pure _
  · exact steady_primary hgoals

/-- The parenthesis behind an empty set is of none of the kinds of `TokenKind.Closes`. -/
theorem steady_inSet : Steady limit room inSet c := by
  refine steady_bind steady_startsQuery fun starts c₁ _ => ?_
  split
  · exact steady_bind (steady_parse hgoals .select) fun _ _ _ => steady_pure _
  · refine steady_isAt _ ⟨rfl, rfl, rfl, rfl⟩ ?_
    split
    · exact steady_pure _
    · exact steady_bind (steady_exprs hgoals) fun _ _ _ => steady_pure _

/-- One case for each `InfixForm`; behind the operator are operands and parts without goals. -/
theorem steady_infixRest (left : Expr) (negated : Bool) (right : Nat) (form : InfixForm) :
    Steady limit room (infixRest left negated right form) c := by
  have hoperand : ∀ c, Steady limit room (operandOf right) c :=
    fun _ => steady_operandOf hgoals right
  cases form with
  | like op =>
    refine steady_bind (hoperand c) fun pattern c₁ _ => ?_
    exact steady_bind (steady_behind rfl hoperand) fun _ _ _ => steady_pure _
  | is =>
    refine steady_bind (steady_taken rfl) fun isNot c₁ _ => ?_
    refine steady_bind (hoperand c₁) fun value c₂ _ => ?_
    split
    · exact steady_pure _
    · exact steady_pure _
  | isNull => exact steady_pure _
  | notNull => exact steady_pure _
  | within =>
    exact steady_bind (steady_parenthesized fun _ => steady_inSet hgoals) fun _ _ _ =>
      steady_pure _
  | between =>
    refine steady_bind (hoperand c) fun low c₁ _ => ?_
    refine steady_bind (steady_expect _ rfl) fun _ c₂ _ => ?_
    exact steady_bind (hoperand c₂) fun _ _ _ => steady_pure _
  | collate => exact steady_bind steady_identifier fun _ _ _ => steady_pure _
  | binary op => exact steady_bind (hoperand c) fun _ _ _ => steady_pure _

/-- The operator behind an optional `NOT` is a proper kind. -/
theorem steady_infixForm (left : Expr) (right : Nat) :
    Steady limit room (infixForm left right) c := by
  refine steady_bind (steady_taken rfl) fun negated c₁ _ => ?_
  refine steady_kind ⟨rfl, rfl, rfl, rfl⟩ ?_
  split
  · next form h =>
    exact steady_bind (steady_advance (isProper_of_infixForm h)) fun _ _ _ =>
      steady_infixRest hgoals left negated right form
  · exact steady_unexpected _

/-- Whether an operator follows is decided by the next two kinds, the second only if the first is
not the end. -/
theorem steady_extend (least : Nat) (left : Expr) : Steady limit room (extend least left) c := by
  refine steady_kind ⟨rfl, rfl, rfl, rfl⟩ ?_
  refine steady_next ⟨rfl, rfl, rfl, rfl⟩ (fun heof kind => by rw [heof]; rfl) ?_
  split
  · exact steady_bind (steady_infixForm hgoals left _) fun _ _ _ => steady_pure _
  · exact steady_pure none

/-- An `operand` is a head, and then `extend` as often as it finds an operator. -/
theorem steady_operand (least : Nat) : Steady limit room (operand least) c :=
  steady_bind (steady_operandHead hgoals) fun head _ _ =>
    steady_iterate (fun left _ => steady_extend hgoals least left) head

/-! ## Queries -/

/-- The two tokens behind a name are looked at, and taken only if they are a point and a star. -/
theorem steady_resultColumn : Steady limit room resultColumn c := by
  refine steady_accept rfl (fun _ => steady_pure _) ?_
  refine steady_kind ⟨rfl, rfl, rfl, rfl⟩ ?_
  refine steady_areAhead 1 [Operator.dot, Operator.star] rfl (fun m hm heof => ?_) ?_
  · obtain rfl : m = 0 := by omega
    rw [heof]
    rfl
  · split
    · refine steady_bind steady_identifier fun table c₁ _ => ?_
      exact steady_bind (steady_expectAll _ rfl) fun _ _ _ => steady_pure _
    · refine steady_bind (steady_parse hgoals .expr) fun value c₁ _ => ?_
      exact steady_bind steady_aliasName? fun _ _ _ => steady_pure _

theorem steady_orderingTerm : Steady limit room orderingTerm c := by
  refine steady_bind (steady_parse hgoals .expr) fun key c₁ _ => ?_
  exact steady_bind steady_direction? fun _ _ _ => steady_pure _

/-- There is no tree of a join, so that a source is a table. -/
theorem steady_selectSource : Steady limit room selectSource c := by
  refine steady_firstOf (steady_map (steady_parse hgoals .tableSource))
    (fun known v c₁ hrun => ?_) []
  obtain ⟨result, c₂, hattempt, hnext⟩ := exists_of_run_bind hrun
  cases result with
  | ok source =>
    obtain ⟨clause, -⟩ := exists_of_run_bind (run_of_attempt_ok hattempt)
    cases clause
  | error expected =>
    have hfails := (run_unexpected limit room c₂ _).symm.trans hnext
    cases hfails

/-- Behind the sources `JOIN` is looked for in order to refuse it. -/
theorem steady_sources : Steady limit room sources c := by
  refine steady_accept rfl (fun c₁ => ?_) (steady_pure [])
  refine steady_bind (steady_commaSeparated fun _ => steady_parse hgoals .selectSource)
    fun sources c₂ _ => ?_
  refine steady_kind ⟨rfl, rfl, rfl, rfl⟩ ?_
  split
  · exact steady_unsupported _
  · exact steady_pure _

theorem steady_grouping : Steady limit room grouping c := by
  refine steady_bind (steady_acceptAll [GROUP, BY] rfl) fun grouped c₁ _ => ?_
  split
  · refine steady_bind (steady_exprs hgoals) fun groupBy c₂ _ => ?_
    exact steady_bind (steady_behind rfl fun _ => steady_parse hgoals .expr) fun _ _ _ =>
      steady_pure _
  · exact steady_pure _

/-- Behind the first number there may be an offset, after `OFFSET` or after a comma. -/
theorem steady_limitClause : Steady limit room limitClause c := by
  refine steady_bind (steady_parse hgoals .expr) fun first c₁ _ => ?_
  refine steady_accept rfl (fun c₂ => ?_) ?_
  · exact steady_bind (steady_parse hgoals .expr) fun _ _ _ => steady_pure _
  · refine steady_accept rfl (fun c₂ => ?_) (steady_pure _)
    exact steady_bind (steady_parse hgoals .expr) fun _ _ _ => steady_pure _

theorem steady_filter? : Steady limit room filter? c :=
  steady_behind rfl fun _ => steady_parse hgoals .expr

/-- The parts of a `select` in order, with `refuseCompound` behind the groups and at the end. -/
theorem steady_select : Steady limit room select c := by
  refine steady_isAt _ ⟨rfl, rfl, rfl, rfl⟩ ?_
  split
  · exact steady_unsupported _
  · refine steady_bind (steady_expect _ rfl) fun _ c₁ _ => ?_
    refine steady_bind steady_distinct fun distinct c₂ _ => ?_
    refine steady_bind (steady_commaSeparated fun _ => steady_parse hgoals .resultColumn)
      fun columns c₃ _ => ?_
    refine steady_bind (steady_sources hgoals) fun sources c₄ _ => ?_
    refine steady_bind (steady_filter? hgoals) fun filter c₅ _ => ?_
    refine steady_bind (steady_grouping hgoals) fun grouped c₆ _ => ?_
    refine steady_bind steady_refuseCompound fun _ c₇ _ => ?_
    refine steady_bind
      (steady_listBehind [ORDER, BY] rfl fun _ => steady_parse hgoals .orderingTerm)
      fun orderBy c₈ _ => ?_
    refine steady_bind (steady_behind rfl fun _ => steady_limitClause hgoals) fun limit c₉ _ => ?_
    exact steady_bind steady_refuseCompound fun _ _ _ => steady_pure _

/-! ## Data -/

/-- The start of `insertSource` tells default values, rows and a query apart. -/
theorem steady_insertSource : Steady limit room insertSource c := by
  refine steady_bind (steady_acceptAll [DEFAULT, VALUES] rfl) fun defaults c₁ _ => ?_
  split
  · exact steady_pure _
  · refine steady_accept rfl (fun c₂ => ?_) ?_
    · refine steady_bind (steady_commaSeparated fun _ =>
        steady_parenthesized fun _ => steady_exprs hgoals) fun _ _ _ => steady_pure _
    · refine steady_isAt _ ⟨rfl, rfl, rfl, rfl⟩ ?_
      refine steady_isAt _ ⟨rfl, rfl, rfl, rfl⟩ ?_
      split
      · exact steady_bind (steady_parse hgoals .select) fun _ _ _ => steady_pure _
      · exact steady_unexpected _

theorem steady_insert : Steady limit room insert c := by
  refine steady_bind steady_insertVerb fun verb c₁ _ => ?_
  refine steady_bind (steady_expect _ rfl) fun _ c₂ _ => ?_
  refine steady_bind steady_qualifiedName fun table c₃ _ => ?_
  refine steady_bind steady_identifierList? fun columns c₄ _ => ?_
  exact steady_bind (steady_insertSource hgoals) fun _ _ _ => steady_pure _

theorem steady_assignment : Steady limit room assignment c := by
  refine steady_bind steady_identifier fun column c₁ _ => ?_
  refine steady_bind (steady_expect _ rfl) fun _ c₂ _ => ?_
  exact steady_bind (steady_parse hgoals .expr) fun _ _ _ => steady_pure _

theorem steady_update : Steady limit room update c := by
  refine steady_bind (steady_expect _ rfl) fun _ c₁ _ => ?_
  refine steady_bind (steady_behind rfl fun _ => steady_conflictResolution)
    fun orConflict c₂ _ => ?_
  refine steady_bind steady_qualifiedName fun table c₃ _ => ?_
  refine steady_bind (steady_expect _ rfl) fun _ c₄ _ => ?_
  refine steady_bind (steady_commaSeparated fun _ => steady_parse hgoals .assignment)
    fun assignments c₅ _ => ?_
  exact steady_bind (steady_filter? hgoals) fun _ _ _ => steady_pure _

theorem steady_delete : Steady limit room delete c := by
  refine steady_bind (steady_expectAll [DELETE, FROM] rfl) fun _ c₁ _ => ?_
  refine steady_bind steady_qualifiedName fun table c₂ _ => ?_
  exact steady_bind (steady_filter? hgoals) fun _ _ _ => steady_pure _

/-! ## Tables -/

/-- The numbers in parentheses are gone through as `hnumbers`. -/
theorem steady_typeName : Steady limit room typeName c := by
  have hnumbers : ∀ c, Steady limit room typeNumbers c := by
    intro c
    refine steady_bind (steady_parse hgoals .signedNumber) fun length c₁ _ => ?_
    refine steady_bind (steady_behind rfl fun _ => steady_parse hgoals .signedNumber)
      fun scale c₂ _ => ?_
    exact steady_bind (steady_expect _ rfl) fun _ _ _ => steady_pure _
  refine steady_bind steady_identifier fun name c₁ _ => ?_
  refine steady_bind (steady_many fun _ => steady_identifier?) fun _ c₂ _ => ?_
  refine steady_bind (steady_behind rfl hnumbers) fun numbers c₃ _ => ?_
  split
  · exact steady_pure _
  · exact steady_pure _

/-- The words `ON CONFLICT` are looked for, but not taken, before the clause. -/
theorem steady_conflictClause? : Steady limit room conflictClause? c := by
  refine steady_areAhead 0 [ON, CONFLICT] rfl (fun _ h => absurd h (Nat.not_lt_zero _)) ?_
  split
  · exact steady_map (steady_parse hgoals .conflictClause)
  · exact steady_pure none

theorem steady_indexedColumns : Steady limit room indexedColumns c :=
  steady_parenthesized fun _ => steady_commaSeparated fun _ => steady_parse hgoals .indexedColumn

theorem steady_condition : Steady limit room condition c :=
  steady_parenthesized fun _ => steady_parse hgoals .expr

/-- A sign or a number starts a signed number, a parenthesis an expression, and anything else a
literal. -/
theorem steady_defaultValue : Steady limit room defaultValue c := by
  refine steady_kind ⟨rfl, rfl, rfl, rfl⟩ ?_
  refine steady_next ⟨rfl, rfl, rfl, rfl⟩ (fun heof kind => by rw [heof]; rfl) ?_
  split
  · exact steady_bind (steady_parse hgoals .signedNumber) fun _ _ _ => steady_pure _
  · refine steady_isAt _ ⟨rfl, rfl, rfl, rfl⟩ ?_
    split
    · exact steady_bind (steady_parenthesized fun _ => steady_parse hgoals .expr) fun _ _ _ =>
        steady_pure _
    · exact steady_bind (steady_parse hgoals .literal) fun _ _ _ => steady_pure _

/-- One case for each word that `columnRule` knows. -/
theorem steady_columnRule : Steady limit room columnRule c := by
  refine steady_kind ⟨rfl, rfl, rfl, rfl⟩ ?_
  split
  · refine steady_bind (steady_expectAll [PRIMARY, KEY] rfl) fun _ c₁ _ => ?_
    refine steady_bind steady_direction? fun direction c₂ _ => ?_
    refine steady_bind (steady_conflictClause? hgoals) fun onConflict c₃ _ => ?_
    exact steady_bind (steady_taken rfl) fun _ _ _ => steady_pure _
  · refine steady_bind (steady_expectAll [NOT, NULL] rfl) fun _ c₁ _ => ?_
    exact steady_bind (steady_conflictClause? hgoals) fun _ _ _ => steady_pure _
  · next h =>
    refine steady_bind (steady_advance (by rw [h]; rfl)) fun _ c₁ _ => ?_
    exact steady_bind (steady_conflictClause? hgoals) fun _ _ _ => steady_pure _
  · next h =>
    refine steady_bind (steady_advance (by rw [h]; rfl)) fun _ c₁ _ => ?_
    exact steady_bind (steady_condition hgoals) fun _ _ _ => steady_pure _
  · next h =>
    refine steady_bind (steady_advance (by rw [h]; rfl)) fun _ c₁ _ => ?_
    exact steady_bind (steady_defaultValue hgoals) fun _ _ _ => steady_pure _
  · next h =>
    refine steady_bind (steady_advance (by rw [h]; rfl)) fun _ c₁ _ => ?_
    exact steady_bind steady_identifier fun _ _ _ => steady_pure _
  · exact steady_bind (steady_parse hgoals .foreignKey) fun _ _ _ => steady_pure _
  · exact steady_unexpected _

theorem steady_columnConstraint : Steady limit room columnConstraint c :=
  steady_bind steady_constraintName? fun _ _ _ =>
    steady_bind (steady_columnRule hgoals) fun _ _ _ => steady_pure _

/-- Whether there is a type or one more constraint is decided by the kind of the next token. -/
theorem steady_columnDefinition : Steady limit room columnDefinition c := by
  have htype : ∀ c, Steady limit room typeName? c := by
    intro c
    refine steady_kind ⟨rfl, rfl, rfl, rfl⟩ ?_
    split
    · exact steady_map (steady_parse hgoals .typeName)
    · exact steady_pure none
  have hconstraint : ∀ c, Steady limit room columnConstraint? c := by
    intro c
    refine steady_kind ⟨rfl, rfl, rfl, rfl⟩ ?_
    split
    · exact steady_map (steady_parse hgoals .columnConstraint)
    · exact steady_pure none
  refine steady_bind steady_identifier fun name c₁ _ => ?_
  refine steady_bind (htype c₁) fun type c₂ _ => ?_
  exact steady_bind (steady_many hconstraint) fun _ _ _ => steady_pure _

/-- One case for each word that `tableRule` knows. -/
theorem steady_tableRule : Steady limit room tableRule c := by
  refine steady_kind ⟨rfl, rfl, rfl, rfl⟩ ?_
  split
  · refine steady_bind (steady_expectAll [PRIMARY, KEY] rfl) fun _ c₁ _ => ?_
    refine steady_bind (steady_indexedColumns hgoals) fun columns c₂ _ => ?_
    exact steady_bind (steady_conflictClause? hgoals) fun _ _ _ => steady_pure _
  · next h =>
    refine steady_bind (steady_advance (by rw [h]; rfl)) fun _ c₁ _ => ?_
    refine steady_bind (steady_indexedColumns hgoals) fun columns c₂ _ => ?_
    exact steady_bind (steady_conflictClause? hgoals) fun _ _ _ => steady_pure _
  · next h =>
    refine steady_bind (steady_advance (by rw [h]; rfl)) fun _ c₁ _ => ?_
    exact steady_bind (steady_condition hgoals) fun _ _ _ => steady_pure _
  · refine steady_bind (steady_expectAll [FOREIGN, KEY] rfl) fun _ c₁ _ => ?_
    refine steady_bind steady_identifierList fun columns c₂ _ => ?_
    exact steady_bind (steady_parse hgoals .foreignKey) fun _ _ _ => steady_pure _
  · exact steady_unexpected _

theorem steady_tableConstraint : Steady limit room tableConstraint c :=
  steady_bind steady_constraintName? fun _ _ _ =>
    steady_bind (steady_tableRule hgoals) fun _ _ _ => steady_pure _

/-! ## Schemas -/

/-- The comma before a further column is taken only if a name follows it. -/
theorem steady_furtherColumn? : Steady limit room furtherColumn? c := by
  refine steady_isAt _ ⟨rfl, rfl, rfl, rfl⟩ ?_
  refine steady_next ⟨rfl, rfl, rfl, rfl⟩ (fun heof kind => by rw [heof]; rfl) ?_
  split
  · next h =>
    have hcomma : c.kindAt 0 = .operator .comma :=
      Terminal.accepts_iff.1 (Bool.and_eq_true_iff.1 h).1
    exact steady_bind (steady_advance (by rw [hcomma]; rfl)) fun _ _ _ =>
      steady_map (steady_parse hgoals .columnDefinition)
  · exact steady_pure none

/-- A table is made `AS` a query, or of the entries in parentheses. -/
theorem steady_tableBody : Steady limit room tableBody c := by
  refine steady_accept rfl (fun c₁ => ?_) ?_
  · exact steady_bind (steady_parse hgoals .select) fun _ _ _ => steady_pure _
  · have hentries : ∀ c, Steady limit room tableEntries c := by
      intro c
      refine steady_parenthesized fun c₁ => ?_
      refine steady_bind (steady_parse hgoals .columnDefinition) fun first c₂ _ => ?_
      refine steady_bind (steady_many fun _ => steady_furtherColumn? hgoals) fun others c₃ _ => ?_
      exact steady_bind (steady_listBehind [Operator.comma] rfl
        fun _ => steady_parse hgoals .tableConstraint) fun _ _ _ => steady_pure _
    refine steady_bind (hentries c) fun entries c₁ _ => ?_
    exact steady_bind (steady_behind rfl fun _ => steady_expectWord _) fun _ _ _ => steady_pure _

theorem steady_createTable : Steady limit room createTable c := by
  refine steady_bind (steady_createHead TABLE rfl) fun head c₁ _ => ?_
  refine steady_bind steady_qualifiedName fun name c₂ _ => ?_
  exact steady_bind (steady_tableBody hgoals) fun _ _ _ => steady_pure _

theorem steady_createIndex : Steady limit room createIndex c := by
  refine steady_bind (steady_expect _ rfl) fun _ c₁ _ => ?_
  refine steady_bind (steady_taken rfl) fun unique c₂ _ => ?_
  refine steady_bind (steady_expect _ rfl) fun _ c₃ _ => ?_
  refine steady_bind steady_ifNotExists fun ifNotExists c₄ _ => ?_
  refine steady_bind steady_qualifiedName fun name c₅ _ => ?_
  refine steady_bind (steady_expect _ rfl) fun _ c₆ _ => ?_
  refine steady_bind steady_identifier fun table c₇ _ => ?_
  refine steady_bind (steady_indexedColumns hgoals) fun columns c₈ _ => ?_
  exact steady_bind (steady_filter? hgoals) fun _ _ _ => steady_pure _

theorem steady_createView : Steady limit room createView c := by
  refine steady_bind (steady_createHead VIEW rfl) fun head c₁ _ => ?_
  refine steady_bind steady_qualifiedName fun name c₂ _ => ?_
  refine steady_bind steady_identifierList? fun columns c₃ _ => ?_
  refine steady_bind (steady_expect _ rfl) fun _ c₄ _ => ?_
  exact steady_bind (steady_parse hgoals .select) fun _ _ _ => steady_pure _

/-- A step starts with the word of its statement; `WITH` is refused. -/
theorem steady_triggerStep : Steady limit room triggerStep c := by
  refine steady_kind ⟨rfl, rfl, rfl, rfl⟩ ?_
  split
  · exact steady_map (steady_parse hgoals .insert)
  · exact steady_map (steady_parse hgoals .insert)
  · exact steady_map (steady_parse hgoals .update)
  · exact steady_map (steady_parse hgoals .delete)
  · exact steady_map (steady_parse hgoals .select)
  · exact steady_unsupported _
  · exact steady_unexpected _

/-- The semicolon behind a step of a trigger is part of the trigger. -/
theorem steady_closedStep : Steady limit room closedStep c := by
  refine steady_bind (steady_deeper fun r hr => steady_triggerStep fun r' hr' =>
    hgoals r' (by omega)) fun step c₁ _ => ?_
  exact steady_bind (steady_expect _ rfl) fun _ _ _ => steady_pure _

/-- The steps go on until `END`, which `furtherStep?` takes. -/
theorem steady_triggerBody : Steady limit room triggerBody c := by
  have hfurther : ∀ c, Steady limit room furtherStep? c := fun c =>
    steady_accept rfl (fun _ => steady_pure none) (steady_map (steady_closedStep hgoals))
  refine steady_bind (steady_closedStep hgoals) fun first c₁ _ => ?_
  exact steady_bind (steady_many hfurther) fun _ _ _ => steady_pure _

theorem steady_createTrigger : Steady limit room createTrigger c := by
  refine steady_bind (steady_createHead TRIGGER rfl) fun head c₁ _ => ?_
  refine steady_bind steady_qualifiedName fun name c₂ _ => ?_
  refine steady_bind steady_triggerTiming? fun timing c₃ _ => ?_
  refine steady_bind steady_triggerEvent fun event c₄ _ => ?_
  refine steady_bind (steady_expect _ rfl) fun _ c₅ _ => ?_
  refine steady_bind steady_identifier fun table c₆ _ => ?_
  refine steady_bind (steady_acceptAll [FOR, EACH, ROW] rfl) fun forEachRow c₇ _ => ?_
  refine steady_bind (steady_behind rfl fun _ => steady_parse hgoals .expr) fun condition c₈ _ => ?_
  refine steady_bind (steady_expect _ rfl) fun _ c₉ _ => ?_
  exact steady_bind (steady_triggerBody hgoals) fun _ _ _ => steady_pure _

/-- The two changes of a table are told apart by their first word. -/
theorem steady_alter : Steady limit room alter c := by
  refine steady_bind (steady_expectAll [ALTER, TABLE] rfl) fun _ c₁ _ => ?_
  refine steady_bind steady_qualifiedName fun table c₂ _ => ?_
  refine steady_bind ?_ fun _ _ _ => steady_pure _
  refine steady_kind ⟨rfl, rfl, rfl, rfl⟩ ?_
  split
  · refine steady_bind (steady_expectAll [RENAME, TO] rfl) fun _ c₃ _ => ?_
    exact steady_bind steady_identifier fun _ _ _ => steady_pure _
  · next h =>
    refine steady_bind (steady_advance (by rw [h]; rfl)) fun _ c₃ _ => ?_
    refine steady_bind (steady_taken rfl) fun _ c₄ _ => ?_
    exact steady_bind (steady_parse hgoals .columnDefinition) fun _ _ _ => steady_pure _
  · exact steady_unexpected _

/-! ## Statements -/

omit hgoals in
/-- For `createdKind?` a token that closes is like the end. -/
theorem createdKind?_of_closes (next : TokenKind) {kind : TokenKind} (h : kind.Closes) :
    createdKind? next kind = createdKind? next .eof := by
  unfold createdKind?
  split
  · cases h <;> rfl
  · rfl

omit hgoals in
/-- An `unknownCreation` never gives a tree, but takes a modifier before it fails. -/
theorem steady_unknownCreation : Steady limit room unknownCreation c := by
  refine steady_bind (steady_expect _ rfl) fun _ c₁ _ => ?_
  refine steady_kind ⟨rfl, rfl, rfl, rfl⟩ ?_
  split
  · next h =>
    have hproper : (c₁.kindAt 0).isProper = true := by
      unfold modifiesCreation at h
      split at h
      · next hkind => rw [hkind]; rfl
      · next hkind => rw [hkind]; rfl
      · next hkind => rw [hkind]; rfl
      · cases h
    exact steady_bind (steady_advance hproper) fun _ _ _ => steady_unexpected _
  · exact steady_unexpected _

/-- Which object is created is decided by the next two tokens, of which the first is `CREATE`. -/
theorem steady_creation (hfirst : c.kindAt 0 = .keyword .CREATE) :
    Steady limit room creation c := by
  have hne : c.kindAt 0 ≠ .eof := by
    rw [hfirst]
    exact nofun
  refine steady_next ⟨rfl, rfl, rfl, rfl⟩ (fun heof => absurd heof hne) ?_
  refine steady_look 2 (.intro fun kind hkind => ?_) (fun m hm heof kind => ?_) ?_
  · rw [createdKind?_of_closes _ hkind]
  · -- the end does not come before the second token, and behind it no kind is looked at
    obtain _ | _ | m := m
    · exact absurd heof hne
    · rw [heof]
      rfl
    · omega
  · split
    · exact steady_map (steady_parse hgoals .createTable)
    · exact steady_map (steady_parse hgoals .createIndex)
    · exact steady_map (steady_parse hgoals .createView)
    · exact steady_map (steady_parse hgoals .createTrigger)
    · exact steady_unknownCreation

/-- One case for each word that starts a statement. -/
theorem steady_statement : Steady limit room statement c := by
  refine steady_kind ⟨rfl, rfl, rfl, rfl⟩ ?_
  split
  · exact steady_map (steady_parse hgoals .select)
  · exact steady_unsupported _
  · exact steady_map (steady_parse hgoals .insert)
  · exact steady_map (steady_parse hgoals .insert)
  · exact steady_map (steady_parse hgoals .update)
  · exact steady_map (steady_parse hgoals .delete)
  · next h => exact steady_creation hgoals h
  · exact steady_map (steady_parse hgoals .drop)
  · exact steady_map (steady_parse hgoals .alter)
  · exact steady_unexpected _

/-! ## All productions -/

/-- Every production is steady if the goals at the levels left are. -/
theorem steady_productions (g : Goal) : Steady limit room (productions g) c := by
  cases g with
  | operand least => exact steady_operand hgoals least
  | rule r =>
    cases r with
    | statement => exact steady_statement hgoals
    | select => exact steady_select hgoals
    | insert => exact steady_insert hgoals
    | update => exact steady_update hgoals
    | delete => exact steady_delete hgoals
    | createTable => exact steady_createTable hgoals
    | createIndex => exact steady_createIndex hgoals
    | createView => exact steady_createView hgoals
    | createTrigger => exact steady_createTrigger hgoals
    | drop => exact steady_drop
    | alter => exact steady_alter hgoals
    | expr => exact steady_operandOf hgoals 0
    | literal => exact steady_literal
    | functionCall => exact steady_functionCall hgoals
    | resultColumn => exact steady_resultColumn hgoals
    | selectSource => exact steady_selectSource hgoals
    | tableSource => exact steady_tableSource
    | joinClause => exact steady_joinClause
    | orderingTerm => exact steady_orderingTerm hgoals
    | assignment => exact steady_assignment hgoals
    | columnDefinition => exact steady_columnDefinition hgoals
    | columnConstraint => exact steady_columnConstraint hgoals
    | tableConstraint => exact steady_tableConstraint hgoals
    | typeName => exact steady_typeName hgoals
    | signedNumber => exact steady_signedNumber
    | conflictClause => exact steady_conflictClause
    | foreignKey => exact steady_foreignKey
    | indexedColumn => exact steady_indexedColumn

end Productions

/-- However many levels are left, all goals are steady. -/
theorem goalsSteady (limit room : Nat) : GoalsSteady limit room := by
  induction room using Nat.strongRecOn with
  | ind room ih =>
    intro g c
    cases room with
    | zero =>
      refine steady_of_never fun v c₁ hrun => ?_
      cases hrun
    | succ room => exact steady_productions (fun r hr => ih r (Nat.lt_succ_of_le hr)) g

end SqlGrammar.Grammar
