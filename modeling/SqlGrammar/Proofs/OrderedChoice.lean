import SqlGrammar.Proofs.Commitment

/-!
# Ordered choice

A choice is made in the order of its alternatives, and it is final: the first alternative that does
not decline decides, whatever stands behind it, and if all decline, all that they expected was
expected (`Action.ordered_choice`). This holds of any actions that never go back and that report
their errors where they stop, not only of those that are described by parsers.
-/

set_option autoImplicit false

namespace SqlGrammar

variable {α : Type} {c : Cursor}

/-! ## Choices among actions -/

/-- The first of the actions that does not fail before it has taken a token. If all of them fail
so, everything that they expected was expected. -/
def Action.firstOf (known : List String) : List (Action α) → Action α
  | [], c => .failed (c.unexpected known) c
  | action :: actions, c =>
    match Action.attempt action c with
    | .done (.ok value) c' => .done value c'
    | .done (.error expected) c' => firstOf (Parser.mergeExpected known expected) actions c'
    | .failed error c' => .failed error c'

/-- A choice among parsers is a choice among what they do. -/
theorem Parser.run_firstOf {G : Type} {Tree : G → Type} (P : Productions Tree) (limit room : Nat)
    (known : List String) (ps : List (Parser Tree α)) :
    (firstOf known ps).run P limit room α =
      Action.firstOf known (ps.map fun p => p.run P limit room α) := by
  induction ps generalizing known with
  | nil =>
    funext c
    exact run_unexpected limit room c known
  | cons p ps ih =>
    funext c
    rw [List.map_cons, Action.firstOf, firstOf]
    have hattempt := run_attempt (P := P) limit room c p
    cases h : Action.attempt (p.run P limit room α) c with
    | failed error c' =>
      rw [h] at hattempt
      exact run_bind_of_failed hattempt
    | done result c' =>
      rw [h] at hattempt
      rw [run_bind_of_done hattempt]
      cases result with
      | ok value => exact run_pure limit room c' value
      | error expected => exact congrFun (ih _) c'

/-! ## What was expected -/

/-- What was expected in a reply; nothing, unless it is an unexpected token. -/
def Reply.expected : Reply α → List String
  | .done _ _ => []
  | .failed error _ => error.expected

namespace Parser

theorem mergeExpected_append (known more others : List String) :
    mergeExpected known (more ++ others) = mergeExpected (mergeExpected known more) others :=
  List.foldl_append

theorem mergeExpected_singleton (known : List String) (item : String) :
    mergeExpected known.eraseDups [item] = (known ++ [item]).eraseDups := by
  rw [List.eraseDups_append]
  by_cases h : item ∈ known
  · have hcontains : known.eraseDups.contains item = true :=
      List.contains_iff_mem.2 (List.mem_eraseDups.2 h)
    have hremoved : [item].removeAll known = [] := by simp [List.removeAll, h]
    rw [hremoved, List.eraseDups_nil, List.append_nil]
    exact if_pos hcontains
  · have hcontains : ¬ known.eraseDups.contains item = true := fun hmem =>
      h (List.mem_eraseDups.1 (List.contains_iff_mem.1 hmem))
    have hremoved : [item].removeAll known = [item] := by simp [List.removeAll, h]
    rw [hremoved]
    exact if_neg hcontains

/-- Entries are merged in order, each at the place where it comes first. -/
theorem mergeExpected_eraseDups (known more : List String) :
    mergeExpected known.eraseDups more = (known ++ more).eraseDups := by
  induction more generalizing known with
  | nil => rw [List.append_nil]; rfl
  | cons item more ih =>
    rw [← List.singleton_append, mergeExpected_append, mergeExpected_singleton, ih,
      List.append_assoc]

theorem mergeExpected_nil (more : List String) : mergeExpected [] more = more.eraseDups :=
  mergeExpected_eraseDups [] more

end Parser

/-! ## Actions that decline -/

/-- The reply came about behind a cursor, and its error, if it has one, at the token at which it
came about. -/
def Reply.ReportedFrom (c : Cursor) : Reply α → Prop
  | .done _ c' => c.LeadsTo c'
  | .failed error c' => c.LeadsTo c' ∧ error.span.start = c'.current.span.start

/-- What parsers do is reported where they stop. -/
theorem Reply.LocatedFrom.reportedFrom {reply : Reply α} (h : reply.LocatedFrom c) :
    reply.ReportedFrom c := by
  cases reply with
  | done value c' => exact h
  | failed error c' =>
    obtain ⟨hlead, cause, rfl⟩ := h
    exact ⟨hlead, by cases cause <;> rfl⟩

namespace Action

variable {action : Action α}

/-- The action fails because of an unexpected token, and has taken none. -/
def Declines (action : Action α) (c : Cursor) : Prop :=
  ∃ error, action c = .failed error c ∧ error.IsUnexpected

theorem attempt_of_declines (hreport : (action c).ReportedFrom c) (h : action.Declines c) :
    attempt action c = .done (.error (action c).expected) c := by
  obtain ⟨error, hfail, expected, found, span, rfl⟩ := h
  rw [hfail] at hreport ⊢
  exact attempt_of_mismatch hfail (beq_iff_eq.2 hreport.2)

/-- Among tokens in order, the offset of an error tells whether the action has declined. -/
theorem isMismatchAt_of_not_declines (hordered : c.Ordered)
    (hreport : (action c).ReportedFrom c) (h : ¬ action.Declines c) {error : ParseError}
    {c' : Cursor} (hfail : action c = .failed error c') :
    error.isMismatchAt c.current.span.start = false := by
  rw [hfail] at hreport
  obtain ⟨hlead, hspan⟩ := hreport
  rw [Bool.eq_false_iff]
  intro hmismatch
  cases error with
  | unexpected expected found span =>
    have hstart : c'.current.span.start = c.current.span.start :=
      hspan.symm.trans (beq_iff_eq.1 hmismatch)
    obtain rfl := (hordered.start_eq_iff hlead).1 hstart
    exact h ⟨_, hfail, _, _, _, rfl⟩
  | _ => cases hmismatch

/-! ## Choices in order -/

theorem firstOf_of_declines (hreport : (action c).ReportedFrom c) (h : action.Declines c)
    (known : List String) (actions : List (Action α)) :
    firstOf known (action :: actions) c =
      firstOf (Parser.mergeExpected known (action c).expected) actions c := by
  rw [firstOf, attempt_of_declines hreport h]

theorem firstOf_of_not_declines (hordered : c.Ordered) (hreport : (action c).ReportedFrom c)
    (h : ¬ action.Declines c) (known : List String) (actions : List (Action α)) :
    firstOf known (action :: actions) c = action c := by
  cases hreply : action c with
  | done value c' => simp only [firstOf, attempt, hreply]
  | failed error c' =>
    have hmismatch := isMismatchAt_of_not_declines hordered hreport h hreply
    rw [firstOf, attempt_of_committed hreply hmismatch]

/-- Behind actions that decline, a choice goes on from where it started, with all that they
expected. -/
theorem firstOf_append {before : List (Action α)}
    (hreport : ∀ b ∈ before, (b c).ReportedFrom c) (h : ∀ b ∈ before, b.Declines c)
    (known : List String) (actions : List (Action α)) :
    firstOf known (before ++ actions) c =
      firstOf (Parser.mergeExpected known (before.flatMap fun b => (b c).expected)) actions c := by
  induction before generalizing known with
  | nil => rfl
  | cons b before ih =>
    simp only [List.mem_cons, forall_eq_or_imp] at hreport h
    rw [List.cons_append, firstOf_of_declines hreport.1 h.1, ih hreport.2 h.2, List.flatMap_cons,
      Parser.mergeExpected_append]

/-- Among the tokens of a text, `firstOf` replies what the first action replies that does not
decline (`Action.Declines`), and no action behind that one makes a difference. If all actions
decline, the token at the start is unexpected, and what was expected there is what they expected, in
order and without repetitions. `Parser.firstOf` is `firstOf` of what its parsers do. -/
theorem ordered_choice {text : String} {start : Cursor} (hstart : Cursor.ofText text = .ok start)
    (hc : start.LeadsTo c) (actions : List (Action α))
    (hreport : ∀ action ∈ actions, (action c).ReportedFrom c) :
    (∀ before action behind, actions = before ++ action :: behind →
        (∀ b ∈ before, b.Declines c) → ¬ action.Declines c →
          ∀ others, firstOf [] (before ++ action :: others) c = action c) ∧
      ((∀ action ∈ actions, action.Declines c) →
        firstOf [] actions c =
          .failed (c.unexpected (actions.flatMap fun action => (action c).expected).eraseDups) c) ∧
      ∀ (G : Type) (Tree : G → Type) (P : Productions Tree) (limit room : Nat)
        (ps : List (Parser Tree α)), (Parser.firstOf [] ps).run P limit room α =
          firstOf [] (ps.map fun p => p.run P limit room α) := by
  have hordered : c.Ordered := (Cursor.ordered_ofText hstart).of_leadsTo hc
  refine ⟨?_, fun hdecline => ?_, fun _ _ P limit room ps => Parser.run_firstOf P limit room [] ps⟩
  · rintro before action behind rfl hbefore haction others
    have hmem : action ∈ before ++ action :: behind :=
      List.mem_append_right before List.mem_cons_self
    rw [firstOf_append (fun b hb => hreport b (List.mem_append_left _ hb)) hbefore,
      firstOf_of_not_declines hordered (hreport action hmem) haction]
  · have hall := firstOf_append hreport hdecline [] []
    rw [List.append_nil, Parser.mergeExpected_nil] at hall
    exact hall

/-- What is done with words that are taken one after the other. -/
def takeWords (words : List Keyword) : Action Unit :=
  (Parser.expectAll (words.map Terminal.keyword)).run Grammar.productions 200 7 Unit

/-- A choice between `RENAME TO`, `ADD COLUMN` and a bare `ADD`. -/
def alterations : List (Action Unit) := [[.RENAME, .TO], [.ADD, .COLUMN], [.ADD]].map takeWords

theorem reportedFrom_alterations (c : Cursor) :
    ∀ action ∈ alterations, (action c).ReportedFrom c := by
  intro action haction
  obtain ⟨words, -, rfl⟩ := List.mem_map.1 haction
  exact (Parser.run_located 200 7 _ c).reportedFrom

/-- The cursor at the name in `ADD x`. -/
def atAddedName : Cursor := ⟨[⟨.identifier "x", "x", ⟨4, 5⟩⟩], .eof 5, rfl⟩

/-- The cursor at the start of `ADD x`. -/
def atAddition : Cursor := { atAddedName with
  ahead := ⟨.keyword .ADD, "ADD", ⟨0, 3⟩⟩ :: atAddedName.ahead }

/-- The cursor at the start of `DROP`. -/
def atRemoval : Cursor := ⟨[⟨.keyword .DROP, "DROP", ⟨0, 4⟩⟩], .eof 4, rfl⟩

/-- The second alternative has taken a token when it fails, so that the third one, which would not
fail, is not tried. Where all decline, the word that two of them expect is expected once. -/
theorem ordered_choice_alterations :
    firstOf [] alterations atAddition = .failed (atAddedName.unexpected ["COLUMN"]) atAddedName ∧
      takeWords [.ADD] atAddition = .done () atAddedName ∧
      firstOf [] alterations atRemoval =
        .failed (atRemoval.unexpected ["RENAME", "ADD"]) atRemoval := by
  have haddition : Cursor.ofText "ADD x" = .ok atAddition := Lexer.ok_of_toOption (by decide)
  have hremoval : Cursor.ofText "DROP" = .ok atRemoval := Lexer.ok_of_toOption (by decide)
  have hcommitted : takeWords [.ADD, .COLUMN] atAddition =
      .failed (atAddedName.unexpected ["COLUMN"]) atAddedName := by decide
  refine ⟨?_, by decide, ?_⟩
  · obtain ⟨hfirst, -⟩ :=
      ordered_choice haddition (.refl _) alterations (reportedFrom_alterations _)
    refine (hfirst [takeWords [.RENAME, .TO]] _ _ rfl ?_ ?_ [takeWords [.ADD]]).trans hcommitted
    · rintro b hb
      obtain rfl := List.mem_singleton.1 hb
      exact ⟨atAddition.unexpected ["RENAME"], by decide, _, _, _, rfl⟩
    · rintro ⟨error, hfail, -⟩
      exact absurd (Reply.failed.inj (hcommitted.symm.trans hfail)).2 (by decide)
  · obtain ⟨-, hall, -⟩ :=
      ordered_choice hremoval (.refl _) alterations (reportedFrom_alterations _)
    refine (hall fun action haction => ?_).trans (by decide)
    obtain ⟨words, hwords, rfl⟩ := List.mem_map.1 haction
    have hdeclines : ∀ words ∈ [[Keyword.RENAME, .TO], [.ADD, .COLUMN], [.ADD]],
        takeWords words atRemoval =
          .failed (atRemoval.unexpected [(words.headD .ADD).text]) atRemoval := by decide
    exact ⟨_, hdeclines words hwords, _, _, _, rfl⟩

end Action

end SqlGrammar
