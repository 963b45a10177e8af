import SqlGrammar.Proofs.Grammar.PromptQuery

/-!
# Definitions of tables are prompt

What may follow a constraint is a further constraint, or what ends a definition. A reference goes on
with rules behind `ON`, and with a `NOT` that is told from a further constraint by the word behind
it; both words are looked at together, so that no `NOT` is taken that belongs to something else.
-/

set_option autoImplicit false

namespace SqlGrammar.Grammar

open SqlGrammar.Parser Keyword

variable {limit room : Nat} {c : Cursor} {fit : List Symbol → Prop}

/-! ## Types -/

/-- The text of a number. -/
def numberText? : TokenKind → Option String
  | .number text => some text
  | _ => none

/-- `numberText?` finds the text of numbers only. -/
theorem isSome_numberText? (kind : TokenKind) : (numberText? kind).isSome = kind.isNumber := by
  cases kind <;> rfl

/-- The digits of a number, behind its sign. -/
theorem strict_digits (sign : String) : Strict productions limit room
    (kind >>= fun now => match now with
      | .number text => advance >>= fun _ => pure (SignedNumber.mk (sign ++ text))
      | _ => unexpected ["number"])
    (fun ss => (kindAhead ss 0).isNumber = true) (fun _ _ => True) := by
  refine (strict_chosen numberText? ["number"] (t := .digit)
    (f := fun text => pure (SignedNumber.mk (sign ++ text))) (fun now text h => ?_)
    (fun now h => ?_) (Terminal.forall_named [] [.number] rfl nofun)
    (fun text => (prompt_pure _).anywhere) rfl rfl).mono (fun ss hss => ?_) fun _ _ => id
  · cases now <;> cases h
    rfl
  · cases now <;> first | rfl | cases h
  · rwa [isSome_numberText?] at hss

/-- Behind a sign stands what may also stand without one. -/
def Signed (fit : List Symbol → Prop) (ss : List Symbol) : Prop :=
  fit ss ∨ ∃ s new, ss = s :: new ∧ (s.kind = .operator .minus ∨ s.kind = .operator .plus) ∧ fit new

/-- An optional sign, before what may neither start with a minus nor with a plus. -/
theorem strict_sign_bind {α : Type} {rest : String → Production α} {leave : α → List Symbol → Prop}
    (hrest : ∀ sign, Strict productions limit room (rest sign) fit leave)
    (hminus : ∀ ss, fit ss → kindAhead ss 0 ≠ .operator .minus)
    (hplus : ∀ ss, fit ss → kindAhead ss 0 ≠ .operator .plus) :
    Strict productions limit room (sign >>= rest) (Signed fit) leave where
  writable := by
    obtain ⟨ts, v, hcompletes⟩ := (hrest "").writable
    refine ⟨ts, v, fun tail htail => ?_⟩
    obtain ⟨hin, hread⟩ := hcompletes tail htail
    exact ⟨.inl hin, reads_bind (reads_bind (reads_accept_false (hminus _ hin)) (reads_bind
      (reads_accept_false (hplus _ hin)) (reads_pure "" _))) hread⟩
  promptAt c := by
    refine PromptAt.assoc (promptAt_accept (fun s ss _ hs => ?_) fun _ => ?_)
    · exact (hrest "-").pure_bind.behind fun new hnew => .inr ⟨s, new, rfl, .inl hs, hnew⟩
    · refine PromptAt.assoc (promptAt_accept (fun s ss _ hs => ?_) fun _ => ?_)
      · refine (hrest "+").pure_bind.behind fun new hnew =>
          ⟨.inr ⟨s, new, rfl, .inr hs, hnew⟩, ?_⟩
        rw [kindAhead_cons_zero, hs]
        nofun
      · exact (((hrest "").promptAt c).mono (fun ss hss =>
          ⟨⟨.inl hss, hminus ss hss⟩, hplus ss hss⟩) fun _ _ => id).pure_bind

/-- A sign and `strict_digits`. -/
theorem strict_signedNumber : Strict productions limit room signedNumber
    Rule.signedNumber.Enters (fun _ _ => True) := by
  refine (strict_sign_bind strict_digits (fun ss hss => ?_) fun ss hss => ?_).mono
    (fun ss hss => ?_) fun _ _ => id
  · exact TokenKind.ne_of_holds hss rfl
  · exact TokenKind.ne_of_holds hss rfl
  · change startsSignedNumber (kindAhead ss 0) (kindAhead ss 1) = true
    rcases hss with hss | ⟨s, new, rfl, hs, hnew⟩
    · rw [startsSignedNumber, hss, Bool.true_or]
    · rw [kindAhead_cons_zero, kindAhead_cons_one, startsSignedNumber, hnew]
      rcases hs with hs | hs <;> rw [hs] <;> rfl

section Goals

variable (hgoals : GoalsPrompt limit room)

include hgoals

/-- The second number stands behind a comma, and a parenthesis closes both. -/
theorem strict_typeNumbers : Strict productions limit room typeNumbers
    Rule.signedNumber.Enters (fun _ _ => True) := by
  have hnumber := hgoals.parse .signedNumber rfl
  have hclose (length : SignedNumber) (scale : Option SignedNumber) :
      Prompt productions limit room
        (expect Operator.rightParen >>= fun _ => pure (length, scale))
        (StartsWith Operator.rightParen) (fun _ _ => True) :=
    (strict_expect_bind (prompt_pure (length, scale))).prompt
  have hscale : Prompt productions limit room
      (behind? Operator.comma Rule.signedNumber.parse)
      (fun ss => StartsWith Operator.comma ss ∨ StartsWith Operator.rightParen ss)
      (fun _ => StartsWith Operator.rightParen) :=
    prompt_accept_either (hnumber.map some).leavesAny.prompt (prompt_give fun _ => id)
      fun _ hss => ne_of_startsWith hss (by decide)
  exact strict_bind (fun length => prompt_bind (hclose length) (fun _ _ => id) hscale)
    (fun _ _ _ => trivial) hnumber

/-- The further words of a type are names, so that no name may follow it, nor a parenthesis. -/
theorem strict_typeName : Strict productions limit room typeName (fun _ => True)
    (fun _ => Rule.typeName.Leaves) := by
  have hwords : Prompt productions limit room (many identifier?) Rule.typeName.Leaves
      (fun _ => Rule.typeName.Leaves) :=
    prompt_many_optional (prompt_identifier? fun _ hss => hss.1)
      (fun _ hss => reads_identifier?_none hss.1) suits_loopMoves.identifier
  have hnumbers : Prompt productions limit room (behind? Operator.leftParen typeNumbers)
      Rule.typeName.Leaves (fun _ => Rule.typeName.Leaves) :=
    prompt_behind? rfl (strict_typeNumbers hgoals).prompt (fun _ _ _ => trivial) fun _ hss => hss.2
  refine Strict.mono (strict_bind (fun name => prompt_bind (fun _ => prompt_bind
    (fun numbers => prompt_of_pure ?_) (fun _ _ => id) hnumbers) (fun _ _ => id) hwords)
    (fun _ _ _ => trivial) strict_identifier) (fun _ _ => trivial) fun _ _ => id
  split <;> exact ⟨_, rfl⟩

/-! ## Conflicts -/

omit hgoals in
/-- The words of `ConflictResolution.ofKeyword?` are the terminals that the error names. -/
theorem strict_conflictResolution : Strict productions limit room conflictResolution
    (fun _ => True) (fun _ _ => True) :=
  (strict_chosen (fun now => now.keyword?.bind ConflictResolution.ofKeyword?)
    ["ROLLBACK", "ABORT", "FAIL", "IGNORE", "REPLACE"] (fun _ _ h => by rw [h])
    (fun _ h => by rw [h])
    (Terminal.forall_named [ROLLBACK, ABORT, FAIL, IGNORE, REPLACE] [] rfl (by decide))
    (fun resolution => (prompt_pure resolution).anywhere) rfl
    (show (Filler.terminal ABORT).symbol.kind.keyword?.bind ConflictResolution.ofKeyword? =
      some .abort from rfl)).prompt.anywhere

omit hgoals in
theorem strict_conflictClause : Strict productions limit room conflictClause
    (fun ss => terminalsAhead ss 0 [ON, CONFLICT] = true) (fun _ _ => True) :=
  strict_bind (fun _ => strict_conflictResolution.prompt) (fun _ _ _ => trivial)
    (strict_expectAll _)

/-- No `ON` may follow that belongs to something else. -/
theorem prompt_conflictClause?
    (hne : ∀ ss, fit ss → kindAhead ss 0 ≠ .keyword .ON) :
    Prompt productions limit room conflictClause? fit (fun _ => fit) :=
  prompt_areAhead rfl ((hgoals.parse .conflictClause rfl).map some).leavesAny
    (prompt_give fun _ => id) fun ss hss => terminalsAhead_of_ne (hne ss hss)

/-! ## References -/

/-- An action of a reference starts here. -/
def StartsAction (ss : List Symbol) : Prop :=
  kindAhead ss 0 ∈ [TokenKind.keyword .SET, .keyword .CASCADE, .keyword .RESTRICT] ∨
    terminalsAhead ss 0 [NO, ACTION] = true

omit hgoals in
/-- Behind `SET` stands `NULL` or `DEFAULT`. -/
theorem strict_setAction : Strict productions limit room
    (accept NULL >>= fun null => if null then pure ReferenceAction.setNull
      else expect DEFAULT >>= fun _ => pure .setDefault)
    (fun _ => True) (fun _ _ => True) := by
  have hset : Prompt productions limit room
      (accept NULL >>= fun null => if null then pure ReferenceAction.setNull
        else expect DEFAULT >>= fun _ => pure .setDefault)
      (StartsWith DEFAULT) (fun _ _ => True) :=
    prompt_accept rfl (prompt_pure _) (strict_expect_bind (prompt_pure _)).prompt
      fun _ hss => ne_of_startsWith hss (by decide)
  exact hset.anywhere

omit hgoals in
/-- Each word that is named where no action starts can start one. -/
theorem offers_referenceAction {t : Terminal}
    (ht : t ∈ Terminal.named ["SET", "CASCADE", "RESTRICT", "NO ACTION"]) :
    Offers productions referenceAction (fun _ => True) (fun _ _ => True) t := by
  have hmem := Terminal.mem_of_named [SET, CASCADE, RESTRICT] [.noAction] rfl ht
  simp only [List.mem_cons, List.not_mem_nil, or_false] at hmem
  have hset : Strict productions 0 0 _ _ _ := strict_setAction
  rcases hmem with rfl | rfl | rfl
  · exact hset.writable.offers (fun _ _ _ _ hs hread => reads_bind (reads_accept_true hs) hread)
      fun _ _ _ _ => trivial
  · exact (writable_pure ReferenceAction.cascade).offers
      (fun _ _ _ _ hs hread => reads_bind (reads_accept_false (ne_of_startsWith hs (by decide)))
        (reads_bind (reads_accept_true hs) hread)) fun _ _ _ _ => trivial
  · exact (writable_pure ReferenceAction.restrict).offers
      (fun _ _ _ _ hs hread => reads_bind (reads_accept_false (ne_of_startsWith hs (by decide)))
        (reads_bind (reads_accept_false (ne_of_startsWith hs (by decide)))
          (reads_bind (reads_accept_true hs) hread))) fun _ _ _ _ => trivial

omit hgoals in
/-- Where no action starts, the error names `NO ACTION` as one terminal. -/
theorem run_referenceAction_of_not (h : ¬ StartsAction c.symbols) :
    referenceAction.run productions limit room _ c =
      .failed (c.unexpected ["SET", "CASCADE", "RESTRICT", "NO ACTION"]) c := by
  rw [StartsAction, ← c.kindAt_eq, not_or] at h
  have hne {word : Keyword}
      (hword : TokenKind.keyword word ∈ [TokenKind.keyword .SET, .keyword .CASCADE,
        .keyword .RESTRICT]) : c.kindAt 0 ≠ (Terminal.keyword word).kind := by
    intro heq
    rw [heq] at h
    exact h.1 hword
  rw [referenceAction, run_bind_of_done (run_accept_of_ne (hne (by decide))),
    if_neg Bool.false_ne_true, run_bind_of_done (run_accept_of_ne (hne (by decide))),
    if_neg Bool.false_ne_true, run_bind_of_done (run_accept_of_ne (hne (by decide))),
    if_neg Bool.false_ne_true, run_bind_of_done (run_acceptAll_of_false (Bool.eq_false_iff.2 h.2)),
    if_neg Bool.false_ne_true]
  exact run_unexpected limit room c _

omit hgoals in
theorem strict_referenceAction : Strict productions limit room referenceAction
    (fun _ => True) (fun _ _ => True) where
  writable := (offers_referenceAction (t := CASCADE) (Terminal.mem_named.2 (by decide))).writable
  promptAt c := by
    by_cases hstart : StartsAction c.symbols
    · have hgive (action : ReferenceAction) : Strict productions limit room (pure action)
          (fun _ => True) (fun _ _ => True) := (prompt_pure action).anywhere
      refine promptAt_accept (fun s ss _ _ => strict_setAction.behind fun _ _ => trivial)
        fun hset => ?_
      refine promptAt_accept (fun s ss _ hs => (hgive .cascade).behind fun _ _ =>
        ⟨trivial, ne_of_startsWith hs (by decide)⟩) fun hcascade => ?_
      refine promptAt_accept (fun s ss _ hs => (hgive .restrict).behind fun _ _ =>
        ⟨⟨trivial, ne_of_startsWith hs (by decide)⟩, ne_of_startsWith hs (by decide)⟩)
        fun hrestrict => ?_
      refine promptAt_acceptAll (fun taken c' _ hkinds => ?_) fun hahead => ?_
      · have hno (new : List Symbol) : StartsWith NO (taken ++ new) :=
          startsWith_of_terminalsAhead (terminalsAhead_of_kinds new hkinds)
        have henter (new : List Symbol) (_ : True) :
            ((True ∧ kindAhead (taken ++ new) 0 ≠ .keyword .SET) ∧
              kindAhead (taken ++ new) 0 ≠ .keyword .CASCADE) ∧
                kindAhead (taken ++ new) 0 ≠ .keyword .RESTRICT :=
          ⟨⟨⟨trivial, ne_of_startsWith (hno new) (by decide)⟩,
            ne_of_startsWith (hno new) (by decide)⟩, ne_of_startsWith (hno new) (by decide)⟩
        exact ⟨(hgive .noAction).writable.mono henter fun _ _ => id,
          ((hgive .noAction).promptAt c').mono henter fun _ _ => id⟩
      · -- an action starts here, but none of them does
        rcases hstart with hword | hno
        · rw [← c.kindAt_eq] at hword
          simp only [List.mem_cons, List.not_mem_nil, or_false] at hword
          rcases hword with h | h | h
          · exact absurd h hset
          · exact absurd h hcascade
          · exact absurd h hrestrict
        · rw [hahead] at hno
          cases hno
    · exact promptAt_of_failed (run_referenceAction_of_not hstart) fun t ht _ =>
        offers_referenceAction ht

omit hgoals in
/-- The words of a rule are `ON` and `MATCH`, which must not follow. -/
theorem prompt_referenceRule? (hon : ∀ ss, fit ss → kindAhead ss 0 ≠ .keyword .ON)
    (hmatch : ∀ ss, fit ss → kindAhead ss 0 ≠ .keyword .MATCH) :
    Prompt productions limit room referenceRule? fit (fun _ => fit) := by
  have haction (f : ReferenceAction → ReferenceRule) : Prompt productions limit room
      (referenceAction >>= fun action => pure (some (f action))) (fun _ => True) (fun _ => fit) :=
    (strict_referenceAction.map fun action => some (f action)).leavesAny.prompt
  have hmatching : Prompt productions limit room
      (accept MATCH >>= fun there =>
        if there then identifier >>= fun name => pure (some (ReferenceRule.matching name))
        else pure none)
      fit (fun _ => fit) :=
    prompt_accept rfl
      (strict_identifier.map fun name => some (ReferenceRule.matching name)).leavesAny.prompt
      (prompt_give fun _ => id) hmatch
  exact prompt_acceptAll rfl (haction .onDelete)
    (prompt_acceptAll rfl (haction .onUpdate) hmatching fun ss hss =>
      terminalsAhead_of_ne (hon ss hss)) fun ss hss => terminalsAhead_of_ne (hon ss hss)

omit hgoals in
theorem strict_initialCheck : Strict productions limit room initialCheck (fun _ => True)
    (fun _ _ => True) := by
  have hdeferred : Prompt productions limit room (pure InitialCheck.deferred) (fun _ => True)
      (fun _ _ => True) := prompt_give fun _ => id
  exact (prompt_accept rfl hdeferred (strict_expect_bind (t := IMMEDIATE)
    (prompt_pure InitialCheck.immediate)).prompt
    fun _ hss => ne_of_startsWith hss (by decide)).anywhere

/-- What says whether the check of a reference may wait. -/
def StartsDeferral (ss : List Symbol) : Prop :=
  StartsWith DEFERRABLE ss ∨ terminalsAhead ss 0 [NOT, DEFERRABLE] = true

omit hgoals in
/-- The word `INITIALLY` must not follow. -/
theorem prompt_initially? (hne : ∀ ss, fit ss → kindAhead ss 0 ≠ .keyword .INITIALLY) :
    Prompt productions limit room (behind? INITIALLY initialCheck) fit (fun _ => fit) :=
  prompt_behind? rfl strict_initialCheck.prompt (fun _ _ _ => trivial) hne

omit hgoals in
/-- A deferral is prompt where one starts, as both its words are ahead there. -/
theorem promptAt_deferral (h : StartsDeferral c.symbols)
    (hne : ∀ ss, fit ss → kindAhead ss 0 ≠ .keyword .INITIALLY) :
    PromptAt productions limit room deferral (fun ss => StartsDeferral ss ∧ LooksLike c.symbols ss)
      (fun _ => fit) c := by
  have hrest (negated : Bool) : Strict productions limit room
      (expect DEFERRABLE >>= fun _ => Deferral.mk negated <$> behind? INITIALLY initialCheck)
      (StartsWith DEFERRABLE) (fun _ => fit) :=
    strict_expect_bind ((prompt_initially? hne).map _)
  have hahead (s : Symbol) (new : List Symbol) (hs : s.kind = .keyword .NOT)
      (hnew : StartsWith DEFERRABLE new) :
      terminalsAhead (s :: new) 0 [NOT, DEFERRABLE] = true :=
    terminalsAhead_cons_of_kind hs hnew.terminalsAhead
  refine promptAt_accept (fun s ss hsymbols hs => ?_) fun hnot => ?_
  · refine (hrest true).behind fun new hnew => ?_
    have hold : terminalsAhead c.symbols 0 [NOT, DEFERRABLE] = true := by
      refine h.resolve_left fun hfirst => ?_
      rw [hsymbols, StartsWith, kindAhead_cons_zero, hs] at hfirst
      cases hfirst
    exact ⟨.inr (hahead s new hs hnew),
      looksLike_of_terminalsAhead hold (hahead s new hs hnew) (Nat.le_refl 1)⟩
  · have hkind : kindAhead c.symbols 0 = .keyword .DEFERRABLE := by
      refine h.resolve_right fun hboth => hnot ?_
      rw [c.kindAt_eq]
      exact startsWith_of_terminalsAhead hboth
    refine ((hrest false).promptAt c).mono (fun ss hss => ⟨⟨.inl hss, ?_⟩, ?_⟩) fun _ _ => id
    · exact looksLike_of_kind (hss.trans hkind.symm) (by rw [hkind]; rfl)
    · exact ne_of_startsWith hss (by decide)

omit hgoals in
/-- What `deferral?` looks for is `StartsDeferral`. -/
theorem startsDeferral_iff {ss : List Symbol} :
    (Terminal.accepts DEFERRABLE (kindAhead ss 0) || terminalsAhead ss 0 [NOT, DEFERRABLE]) = true ↔
      StartsDeferral ss := by
  rw [Bool.or_eq_true, Terminal.accepts_iff]
  rfl

omit hgoals in
/-- A reference goes on with a `NOT` only if its deferral is meant. -/
theorem prompt_deferral? (hdeferral : ∀ ss, fit ss → ¬ StartsDeferral ss)
    (hne : ∀ ss, fit ss → kindAhead ss 0 ≠ .keyword .INITIALLY) :
    Prompt productions limit room deferral? fit (fun _ => fit) := by
  have hnone {ss : List Symbol} (h : ¬ StartsDeferral ss) : Reads deferral? ss none ss := by
    refine reads_bind (reads_isAt _ ss) (reads_bind (reads_areAhead ss _ 0) ?_)
    rw [← startsDeferral_iff, Bool.not_eq_true] at h
    rw [h]
    exact reads_pure none ss
  have hsome {ss rest : List Symbol} {v : Option Deferral} (h : StartsDeferral ss)
      (hread : Reads (some <$> deferral) ss v rest) : Reads deferral? ss v rest := by
    refine reads_bind (reads_isAt _ ss) (reads_bind (reads_areAhead ss _ 0) ?_)
    rw [startsDeferral_iff.2 h]
    exact hread
  have hrun (c : Cursor) : deferral?.run productions limit room _ c =
      (if Terminal.accepts DEFERRABLE (c.kindAt 0) || terminalsAhead c.symbols 0 [NOT, DEFERRABLE]
        then some <$> deferral else pure none : Production (Option Deferral)).run productions limit
        room _ c := by
    rw [deferral?, run_bind_of_done (run_isAt _), run_bind_of_done (run_areAhead _ 0)]
  refine ⟨⟨[], none, fun tail htail => ⟨htail, hnone (hdeferral tail htail)⟩⟩, fun c => ?_⟩
  by_cases hc : StartsDeferral c.symbols
  · have hsame := hrun c
    rw [c.kindAt_eq, startsDeferral_iff.2 hc] at hsame
    have hprompt : PromptAt productions limit room (some <$> deferral)
        (fun ss => StartsDeferral ss ∧ LooksLike c.symbols ss) (fun _ => fit) c :=
      (promptAt_deferral hc hne).map some
    exact promptAt_step (List.nil_append c.symbols).symm hsame
      (fun ss v rest hss => hsome hss.1) (fun ss hss => .inr hss.2) hprompt
      fun hnil => absurd rfl hnil
  · have hsame := hrun c
    have hfalse := hc
    rw [← startsDeferral_iff, Bool.not_eq_true] at hfalse
    rw [c.kindAt_eq, hfalse] at hsame
    refine promptAt_of_run_done (hsame.trans (run_pure limit room c none))
      (List.nil_append _).symm fun tail htail => ⟨htail, hnone ?_⟩
    rcases htail with htail | hlooks
    · exact hdeferral tail htail
    · have hboth : terminalsAhead c.symbols 0 [NOT, DEFERRABLE] = false :=
        Bool.eq_false_iff.2 fun h => hc (.inr h)
      have hstill : terminalsAhead tail 0 [NOT, DEFERRABLE] = false :=
        hlooks.terminalsAhead_false (Nat.le_refl 1) hboth
      rintro (hstart | hnot)
      · exact hc (.inl (hlooks.kind.symm.trans hstart))
      · exact absurd (hstill.symm.trans hnot) Bool.false_ne_true

/-! ## Keys -/

omit hgoals in
/-- The names in parentheses are left out unless one opens. -/
theorem prompt_identifierList? (hne : ∀ ss, fit ss → kindAhead ss 0 ≠ .operator .leftParen) :
    Prompt productions limit room identifierList? fit (fun _ => fit) :=
  prompt_isAt rfl (strict_identifierList (loopMoves_behind _ _)).leavesAny
    (prompt_give fun _ => id) hne

omit hgoals in
/-- What ends a constraint starts no deferral: a `NOT` there has no `DEFERRABLE` behind it. -/
theorem EndsConstraint.not_startsDeferral {ss : List Symbol} (h : EndsConstraint ss) :
    ¬ StartsDeferral ss := by
  rintro (hstart | hnot)
  · exact h.ne rfl hstart
  · rw [h.deferral] at hnot
    cases hnot

omit hgoals in
/-- The target, the rules and the deferral of a reference, each ended by `EndsConstraint`. -/
theorem strict_foreignKey : Strict productions limit room foreignKey
    (StartsWith REFERENCES) (fun _ => EndsConstraint) := by
  have hcolumns : Prompt productions limit room identifierList? EndsConstraint
      (fun _ => EndsConstraint) := prompt_identifierList? fun _ hss => hss.ne rfl
  have hrules : Prompt productions limit room (many referenceRule?) EndsConstraint
      (fun _ => EndsConstraint) :=
    prompt_many_optional (prompt_referenceRule? (fun _ hss => hss.ne rfl) fun _ hss => hss.ne rfl)
      (fun _ hss => reads_referenceRule?_none (hss.ne rfl) (hss.ne rfl))
      suits_loopMoves.referenceRule
  have hdeferral : Prompt productions limit room deferral? EndsConstraint
      (fun _ => EndsConstraint) :=
    prompt_deferral? (fun _ => EndsConstraint.not_startsDeferral) fun _ hss => hss.ne rfl
  exact strict_expect_bind (strict_bind (fun table => prompt_bind (fun columns =>
    prompt_bind (fun rules => hdeferral.map (ForeignKey.mk table columns rules)) (fun _ _ => id)
      hrules) (fun _ _ => id) hcolumns) (fun _ _ _ => trivial) strict_identifier).prompt

omit hgoals in
/-- What holds of all kinds of `definitionEnds` holds of the kind ahead. -/
theorem EndsDefinition.holds {ss : List Symbol} {p : TokenKind → Bool} (h : EndsDefinition ss)
    (hp : definitionEnds.all p = true) : p (kindAhead ss 0) = true :=
  holds_of_definitionEnds h hp

omit hgoals in
theorem EndsDefinition.ne {ss : List Symbol} {kind : TokenKind} (h : EndsDefinition ss)
    (hkind : kind ∉ definitionEnds) : kindAhead ss 0 ≠ kind := by
  intro heq
  rw [EndsDefinition, heq] at h
  exact hkind h

omit hgoals in
/-- A terminal of `definitionEnds` ahead ends a definition. -/
theorem endsDefinition_of_startsWith {t : Terminal} {ss : List Symbol} (h : StartsWith t ss)
    (ht : t.kind ∈ definitionEnds) : EndsDefinition ss := by
  rwa [EndsDefinition, h]

omit hgoals in
/-- What ends a definition is neither `COLLATE` nor a direction. -/
theorem strict_indexedColumn : Strict productions limit room indexedColumn (fun _ => True)
    (fun _ => EndsDefinition) := by
  have hcollation : Prompt productions limit room (behind? COLLATE identifier) EndsDefinition
      (fun _ => EndsDefinition) :=
    prompt_behind? rfl strict_identifier.prompt (fun _ _ _ => trivial) fun _ hss =>
      hss.ne (by decide)
  have hdirection : Prompt productions limit room direction? EndsDefinition
      (fun _ => EndsDefinition) :=
    prompt_direction? (fun _ hss => hss.ne (by decide)) fun _ hss => hss.ne (by decide)
  exact (strict_bind (fun name => prompt_bind (fun collation =>
    hdirection.map (IndexedColumn.mk name collation)) (fun _ _ => id) hcollation)
    (fun _ _ _ => trivial) strict_identifier).mono (fun _ _ => trivial) fun _ _ => id

theorem strict_indexedColumns : Strict productions limit room indexedColumns
    (StartsWith Operator.leftParen) (fun _ _ => True) := by
  have hends {t : Terminal} (ht : t.kind ∈ definitionEnds) (ss : List Symbol)
      (hss : StartsWith t ss) : EndsDefinition ss := endsDefinition_of_startsWith hss ht
  exact strict_parenthesized (strict_commaSeparated (hgoals.parse .indexedColumn rfl)
    (fun _ => hends (by decide)) (fun _ => hends (by decide))
    (fun _ hss => ne_of_startsWith hss (by decide)) (loopMoves_behind _ _)).prompt

/-! ## Conditions and defaults -/

theorem strict_condition : Strict productions limit room condition
    (StartsWith Operator.leftParen) (fun _ _ => True) :=
  strict_parenthesized (strict_exprBefore hgoals rfl).prompt

omit hgoals in
/-- A literal starts no signed number, or it is a number itself. -/
theorem startsSignedNumber_of_literal {now : TokenKind} (next : TokenKind)
    (h : (Literal.ofKind? now).isSome = true) : startsSignedNumber now next = now.isNumber := by
  cases now with
  | operator sign => cases h
  | keyword word => rfl
  | _ => simp [startsSignedNumber]

/-- A default is a signed number, an expression in parentheses or a literal. -/
theorem strict_defaultValue : Strict productions limit room defaultValue (fun _ => True)
    (fun _ _ => True) := by
  have hsigned := (hgoals.parse .signedNumber rfl).map DefaultValue.signed
  have hparen := (strict_condition hgoals).map DefaultValue.expr
  refine ⟨?_, fun c => ?_⟩
  · obtain ⟨ts, v, hcompletes⟩ := hparen.writable
    refine ⟨ts, v, fun tail htail => ⟨trivial, ?_⟩⟩
    obtain ⟨hopen, hread⟩ := hcompletes tail htail
    refine reads_bind (reads_look 0 _) (reads_bind (reads_look 1 _) ?_)
    rw [hopen]
    refine reads_bind (reads_isAt _ _) ?_
    rw [hopen]
    exact hread
  · refine promptAt_kind (promptAt_look 1 ?_)
    cases hstart : startsSignedNumber (c.kindAt 0) (c.kindAt 1) with
    | true =>
      refine PromptAt.map DefaultValue.signed ((hgoals.sameHead .signedNumber rfl
        (quietAt_goal (g := Goal.rule .signedNumber) fun _ => quietAt_signedNumber)).mono
        (fun ss hss => ⟨⟨trivial, hss.2⟩, ?_⟩) fun _ _ => id)
      have hnumber : startsSignedNumber (kindAhead ss 0) (kindAhead ss 1) = true := hss.1
      rw [hss.2] at hnumber
      rw [hnumber]
    | false =>
      refine promptAt_isAt _ ?_
      cases hopen : Terminal.accepts Operator.leftParen (c.kindAt 0) with
      | true =>
        have hkind := Terminal.accepts_iff.1 hopen
        refine (hparen.promptAt c).mono (fun ss hss => ⟨⟨⟨trivial, hss.trans hkind.symm⟩, ?_⟩, ?_⟩)
          fun _ _ => id
        · rw [hkind]
          rfl
        · exact Terminal.accepts_iff.2 hss
      | false =>
        refine PromptAt.map DefaultValue.literal ((hgoals.sameHead .literal rfl
          (quietAt_goal (g := Goal.rule .literal) fun _ => quietAt_literal)).mono
          (fun ss hss => ⟨⟨⟨trivial, hss.2⟩, ?_⟩, by rw [hss.2, hopen]⟩) fun _ _ => id)
        have hliteral : (Literal.ofKind? (kindAhead ss 0)).isSome = true := hss.1
        rw [hss.2] at hliteral
        rw [startsSignedNumber_of_literal _ hliteral] at hstart ⊢
        rw [hstart]

/-! ## Constraints of columns -/

/-- A constraint of a column starts here, and gives itself no name. -/
structure StartsColumnRule (ss : List Symbol) : Prop extends StartsConstraint ss where
  unnamed : kindAhead ss 0 ≠ .keyword .CONSTRAINT

omit hgoals in
/-- Apart from `CONSTRAINT` and `NOT`, a word that starts a column constraint starts its rule. -/
theorem StartsColumnRule.of_keyword {ss : List Symbol} {word : Keyword}
    (h : kindAhead ss 0 = .keyword word) (hstart : startsColumnConstraint (.keyword word) = true)
    (hname : word ≠ .CONSTRAINT) (hnot : word ≠ .NOT) : StartsColumnRule ss where
  kind := by rwa [h]
  deferral := terminalsAhead_of_ne fun heq => hnot (TokenKind.keyword.inj (h.symm.trans heq))
  unnamed heq := hname (TokenKind.keyword.inj (h.symm.trans heq))

/-- What may follow the words that a constraint starts with. -/
theorem prompt_endsConstraint {f : Option ConflictResolution → ColumnRule} :
    Prompt productions limit room
      (conflictClause? >>= fun onConflict => pure (f onConflict)) EndsConstraint
      (fun _ => EndsConstraint) :=
  (prompt_conflictClause? hgoals fun _ hss => hss.ne rfl).map f

/-- What is behind `PRIMARY KEY` may be left out part by part. -/
theorem strict_primaryKey : Strict productions limit room
    (do
      expectAll [PRIMARY, KEY]
      let direction ← direction?
      let onConflict ← conflictClause?
      return ColumnRule.primaryKey direction onConflict (← accept AUTOINCREMENT))
    (fun ss => terminalsAhead ss 0 [PRIMARY, KEY] = true) (fun _ => EndsConstraint) := by
  have hdirection : Prompt productions limit room direction? EndsConstraint
      (fun _ => EndsConstraint) :=
    prompt_direction? (fun _ hss => hss.ne rfl) fun _ hss => hss.ne rfl
  have hconflict : Prompt productions limit room conflictClause? EndsConstraint
      (fun _ => EndsConstraint) := prompt_conflictClause? hgoals fun _ hss => hss.ne rfl
  have hauto (direction : Option SortDirection) (onConflict : Option ConflictResolution) :
      Prompt productions limit room
        (accept AUTOINCREMENT >>= fun set =>
          pure (ColumnRule.primaryKey direction onConflict set))
        EndsConstraint (fun _ => EndsConstraint) :=
    prompt_accept (f := fun set => pure (ColumnRule.primaryKey direction onConflict set)) rfl
      (prompt_give fun _ => id) (prompt_give fun _ => id) fun _ hss => hss.ne rfl
  exact strict_bind (fun _ => prompt_bind (fun direction => prompt_bind (hauto direction)
    (fun _ _ => id) hconflict) (fun _ _ => id) hdirection) (fun _ _ _ => trivial)
    (strict_expectAll _)

omit hgoals in
theorem EndsDefinition.endsConstraint {ss : List Symbol} (h : EndsDefinition ss) :
    EndsConstraint ss := .of_definitionEnds h

omit hgoals in
theorem endsDefinition_nil : EndsDefinition [] := by
  rw [EndsDefinition, kindAhead_nil]
  decide

omit hgoals in
theorem endsConstraint_nil : EndsConstraint [] := endsDefinition_nil.endsConstraint

/-- One case for each word that starts a rule of a column. -/
theorem strict_columnRule : Strict productions limit room columnRule StartsColumnRule
    (fun _ => EndsConstraint) := by
  have hleave (word : Keyword) : ∀ _ : ColumnRule, ∃ tail, EndsConstraint tail ∧
      ¬ StartsWith word tail := fun _ => ⟨[], endsConstraint_nil, not_startsWith_nil word⟩
  have hunique := prompt_endsConstraint hgoals (f := ColumnRule.unique)
  have hnull : Strict productions limit room
      (expectAll [NOT, NULL] >>= fun _ => conflictClause? >>= fun onConflict =>
        pure (ColumnRule.notNull onConflict))
      (fun ss => terminalsAhead ss 0 [NOT, NULL] = true) (fun _ => EndsConstraint) :=
    strict_bind (fun _ => prompt_endsConstraint hgoals) (fun _ _ _ => trivial)
      (strict_expectAll _)
  have hforeign : Strict productions limit room foreignKey (StartsWith REFERENCES)
      (fun _ => EndsConstraint) := strict_foreignKey
  -- a word of its own tells each constraint from the others
  have hword {word : Keyword} (hstart : startsColumnConstraint (.keyword word) = true)
      (hname : word ≠ .CONSTRAINT) (hnot : word ≠ .NOT) (ss : List Symbol)
      (hss : StartsWith word ss) : StartsColumnRule ss := .of_keyword hss hstart hname hnot
  refine strict_branches ["PRIMARY", "NOT", "UNIQUE", "CHECK", "DEFAULT", "COLLATE", "REFERENCES"]
    [PRIMARY, NOT, UNIQUE, CHECK, DEFAULT, COLLATE, REFERENCES] rfl
    (fun now hnow => ?_) (t := UNIQUE) (by decide) fun c t ht => ?_
  · split
    all_goals first
      | exact .inl rfl
      | simp [Terminal.kind] at hnow
  · simp only [List.mem_cons, List.not_mem_nil, or_false] at ht
    rcases ht with rfl | rfl | rfl | rfl | rfl | rfl | rfl
    · exact (strict_primaryKey hgoals).branch (fun ss hss =>
        have hstart := startsWith_of_terminalsAhead hss
        ⟨hword rfl (by decide) (by decide) ss hstart, hstart⟩) (hleave PRIMARY)
    · refine hnull.branch (fun ss hss => ?_) (hleave NOT)
      have hnot : kindAhead ss 0 = .keyword .NOT := startsWith_of_terminalsAhead hss
      have hnext : kindAhead ss 1 = .keyword .NULL := kindAhead_of_terminalsAhead hss 1 (by decide)
      exact ⟨⟨⟨by rw [hnot]; rfl, terminalsAhead_of_ne_next (by rw [hnext]; decide)⟩,
        by rw [hnot]; decide⟩, hnot⟩
    · exact hunique.anywhere.branchBehind (hword rfl (by decide) (by decide))
    · exact ((strict_condition hgoals).map ColumnRule.check).leavesAny.prompt.anywhere.branchBehind
        (hword rfl (by decide) (by decide))
    · exact ((strict_defaultValue hgoals).map ColumnRule.default).leavesAny.branchBehind
        (hword rfl (by decide) (by decide))
    · exact (strict_identifier.map ColumnRule.collate).leavesAny.prompt.anywhere.branchBehind
        (hword rfl (by decide) (by decide))
    · exact hgoals.branch .foreignKey rfl ColumnRule.foreignKey (by decide)
        (hforeign.writable.offers_first (fun _ => id) fun _ =>
          ⟨[], endsConstraint_nil, not_startsWith_nil _⟩)
        (hword rfl (by decide) (by decide))

theorem strict_columnConstraint : Strict productions limit room columnConstraint StartsConstraint
    (fun _ => EndsConstraint) := by
  have hrule (name : Option String) := (strict_columnRule hgoals).map (ColumnConstraint.mk name)
  refine (strict_behind?_bind (t := CONSTRAINT) strict_identifier.prompt hrule
    (fun _ _ _ => trivial) fun _ hss => hss.unnamed).mono (fun ss hss => ?_) fun _ _ => id
  rcases hss with hname | hrule
  · exact ⟨by rw [hname]; rfl, terminalsAhead_of_ne (ne_of_startsWith hname (by decide))⟩
  · exact hrule.toStartsConstraint

/-! ## Columns -/

/-- Constraints up to the end of the definition. -/
theorem prompt_columnConstraints : Prompt productions limit room (many columnConstraint?)
    EndsConstraint (fun _ => EndsDefinition) := by
  have hnone (ss : List Symbol) (h : EndsDefinition ss) :
      startsColumnConstraint (kindAhead ss 0) = false := by
    have hstart := h.holds (p := fun kind => !startsColumnConstraint kind) rfl
    rwa [Bool.not_eq_true'] at hstart
  refine prompt_many (fun c => promptAt_look 0 ?_) ⟨[], fun tail htail =>
    ⟨htail.endsConstraint, reads_columnConstraint?_none htail⟩⟩ suits_loopMoves.columnConstraint
  cases hstart : startsColumnConstraint (c.kindAt 0) with
  | true =>
    refine (((hgoals.parse .columnConstraint rfl).map some).promptAt c).mono
      (fun ss hss => ⟨.inl ⟨?_, hss.deferral⟩, by rw [hss.kind]⟩) fun o ss hss => ?_
    · rw [Grammar.endsConstraint, hss.kind, Bool.true_or]
    · cases o with
      | none => exact EndsDefinition.endsConstraint hss
      | some constraint => exact hss
  | false =>
    refine promptAt_pure fun tail htail => ⟨htail.mono fun _ => EndsDefinition.endsConstraint, ?_⟩
    rw [htail.kindAt (p := fun kind => startsColumnConstraint kind = false) (hnone tail) hstart]

omit hgoals in
/-- What ends a constraint is no name. -/
theorem EndsConstraint.not_name {ss : List Symbol} (h : EndsConstraint ss) :
    (kindAhead ss 0).isIdentifier = false := by
  refine Bool.eq_false_iff.2 fun hname => ?_
  obtain ⟨own, hown⟩ := exists_name_of_isIdentifier hname
  exact h.ne rfl hown

/-- A type is there if a name is, and none follows it. -/
theorem prompt_typeName? : Prompt productions limit room typeName? EndsConstraint
    (fun _ => EndsConstraint) := by
  refine ⟨⟨[], none, fun tail htail => ⟨htail, reads_bind (reads_kind tail) ?_⟩⟩, fun c =>
    promptAt_look 0 ?_⟩
  · rw [htail.not_name]
    exact reads_pure none tail
  cases hname : (c.kindAt 0).isIdentifier with
  | true =>
    refine PromptAt.map some ((hgoals.sameHead .typeName rfl
      (quietAt_goal (g := Goal.rule .typeName) fun _ => quietAt_typeName)).mono
      (fun ss hss => ⟨.inr (looksLike_of_kind (c.kindAt_eq 0 ▸ hss.2) ?_), by rw [hss.2, hname]⟩)
      fun _ ss hss => ⟨hss.not_name, hss.ne rfl⟩)
    obtain ⟨own, hown⟩ := exists_name_of_isIdentifier hname
    rw [← c.kindAt_eq, hown]
    rfl
  | false =>
    refine promptAt_pure fun tail htail => ⟨htail, ?_⟩
    rw [htail.kindAt (p := fun kind => kind.isIdentifier = false) EndsConstraint.not_name hname]

/-- A name, the type, and the constraints as a loop. -/
theorem strict_columnDefinition : Strict productions limit room columnDefinition StartsName
    (fun _ => EndsDefinition) :=
  strict_bind (fun name => prompt_bind (fun type =>
    (prompt_columnConstraints hgoals).map (ColumnDefinition.mk name type))
    (fun _ _ => id) (prompt_typeName? hgoals)) (fun _ _ _ => trivial) strict_identifier

/-! ## Constraints of tables -/

/-- The columns of a key, and what is done about a conflict with it. -/
theorem strict_key (key : KeyKind) : Strict productions limit room
    (indexedColumns >>= fun columns => TableRule.key key columns <$> conflictClause?)
    (StartsWith Operator.leftParen) (fun _ => EndsDefinition) := by
  have hconflict : Prompt productions limit room conflictClause? EndsDefinition
      (fun _ => EndsDefinition) := prompt_conflictClause? hgoals fun _ hss => hss.ne (by decide)
  exact strict_bind (fun columns => hconflict.map (TableRule.key key columns))
    (fun _ _ _ => trivial) (strict_indexedColumns hgoals)

/-- A constraint of a table starts here, and gives itself no name. -/
structure StartsTableRule (ss : List Symbol) : Prop where
  kind : startsTableConstraint (kindAhead ss 0) = true
  unnamed : kindAhead ss 0 ≠ .keyword .CONSTRAINT

omit hgoals in
/-- Apart from `CONSTRAINT`, a word that starts a table constraint starts its rule. -/
theorem StartsTableRule.of_keyword {ss : List Symbol} {word : Keyword}
    (h : kindAhead ss 0 = .keyword word) (hstart : startsTableConstraint (.keyword word) = true)
    (hname : word ≠ .CONSTRAINT) : StartsTableRule ss where
  kind := by rwa [h]
  unnamed heq := hname (TokenKind.keyword.inj (h.symm.trans heq))

/-- One case for each word that starts a rule of a table. -/
theorem strict_tableRule : Strict productions limit room tableRule StartsTableRule
    (fun _ => EndsDefinition) := by
  have hleave (word : Keyword) : ∀ _ : TableRule, ∃ tail, EndsDefinition tail ∧
      ¬ StartsWith word tail := fun _ => ⟨[], endsDefinition_nil, not_startsWith_nil word⟩
  have hprimary : Strict productions limit room
      (expectAll [PRIMARY, KEY] >>= fun _ => indexedColumns >>= fun columns =>
        TableRule.key .primaryKey columns <$> conflictClause?)
      (fun ss => terminalsAhead ss 0 [PRIMARY, KEY] = true) (fun _ => EndsDefinition) :=
    strict_bind (fun _ => (strict_key hgoals .primaryKey).prompt) (fun _ _ _ => trivial)
      (strict_expectAll _)
  have hreference (columns : List String) : Prompt productions limit room
      (TableRule.foreignKey columns <$> Rule.foreignKey.parse) (fun _ => True)
      (fun _ => EndsDefinition) :=
    (((hgoals.parse .foreignKey rfl).mono (fun _ => id) fun _ _ =>
      EndsDefinition.endsConstraint).map (TableRule.foreignKey columns)).prompt
  have hforeign : Strict productions limit room
      (expectAll [FOREIGN, KEY] >>= fun _ => identifierList >>= fun columns =>
        TableRule.foreignKey columns <$> Rule.foreignKey.parse)
      (fun ss => terminalsAhead ss 0 [FOREIGN, KEY] = true) (fun _ => EndsDefinition) :=
    strict_bind (fun _ => prompt_bind hreference (fun _ _ _ => trivial)
      (strict_identifierList (loopMoves_behind _ _)).prompt) (fun _ _ _ => trivial)
      (strict_expectAll _)
  have hwords {word : Keyword} {ts : List Terminal}
      (hstart : startsTableConstraint (.keyword word) = true) (hname : word ≠ .CONSTRAINT)
      (ss : List Symbol) (hss : terminalsAhead ss 0 (word :: ts) = true) :
      StartsTableRule ss ∧ StartsWith word ss :=
    have hfirst := startsWith_of_terminalsAhead hss
    ⟨.of_keyword hfirst hstart hname, hfirst⟩
  refine strict_branches ["PRIMARY", "UNIQUE", "CHECK", "FOREIGN"] [PRIMARY, UNIQUE, CHECK, FOREIGN]
    rfl (fun now hnow => ?_) (t := UNIQUE) (by decide) fun c t ht => ?_
  · split
    all_goals first
      | exact .inl rfl
      | simp [Terminal.kind] at hnow
  · simp only [List.mem_cons, List.not_mem_nil, or_false] at ht
    rcases ht with rfl | rfl | rfl | rfl
    · exact hprimary.branch (hwords rfl (by decide)) (hleave PRIMARY)
    · exact (strict_key hgoals .unique).prompt.anywhere.branchBehind
        fun _ hss => .of_keyword hss rfl (by decide)
    · exact ((strict_condition hgoals).map TableRule.check).leavesAny.prompt.anywhere.branchBehind
        fun _ hss => .of_keyword hss rfl (by decide)
    · exact hforeign.branch (hwords rfl (by decide)) (hleave FOREIGN)

theorem strict_tableConstraint : Strict productions limit room tableConstraint
    Rule.tableConstraint.Enters (fun _ => EndsDefinition) := by
  have hrule (name : Option String) := (strict_tableRule hgoals).map (TableConstraint.mk name)
  refine (strict_behind?_bind (t := CONSTRAINT) strict_identifier.prompt hrule
    (fun _ _ _ => trivial) fun _ hss => hss.unnamed).mono (fun ss hss => ?_) fun _ _ => id
  rcases hss with hname | hrule
  · change startsTableConstraint (kindAhead ss 0) = true
    rw [hname]
    rfl
  · exact hrule.kind

end Goals

end SqlGrammar.Grammar
