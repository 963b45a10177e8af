import SqlGrammar.Proofs.Grammar.PromptStatement

/-!
# Whole statements are prompt

What a statement with the end of the input behind it has taken when it meets an unexpected token can
be completed, in some way and with each terminal that the error names but those that are refused
there (`exists_completable_whole`). Refused are the words that the grammar knows only in order to
refuse them, and the objects that a word behind `CREATE` does not suit.
-/

set_option autoImplicit false

namespace SqlGrammar

open SqlGrammar.Parser Grammar

/-! ## The end of the input -/

namespace Parser

section End

variable {G : Type} {Tree : G → Type} {P : Productions Tree} {limit room : Nat}
  {enter : List Symbol → Prop} {f : TokenKind → Parser Tree Unit}

/-- The end of the input and nothing else, as far as its kind tells. -/
theorem promptAt_atEnd (c : Cursor) (heof : f .eof = pure ())
    (hother : ∀ now, now ≠ .eof → f now = unexpected ["end of input"])
    (henter : ∀ ss, kindAhead ss 0 = .eof → enter ss) :
    PromptAt P limit room (kind >>= f) enter (fun _ ss => ss = []) c := by
  refine promptAt_kind ?_
  by_cases hend : c.kindAt 0 = .eof
  · rw [hend, heof]
    refine promptAt_pure fun tail htail => ?_
    have hkind : kindAhead tail 0 = .eof :=
      htail.kindAt (p := (· = .eof)) (fun hnil => by rw [hnil, kindAhead_nil]) hend
    exact ⟨henter tail hkind, hkind⟩
  · rw [hother _ hend]
    exact promptAt_unexpected (Terminal.named_description .endOfInput)

/-- The end of the input, with a semicolon before it or without. -/
theorem strict_expectEnd : Strict P limit room expectEnd EndsStatement (fun _ ss => ss = []) where
  writable := by
    refine ⟨[], (), fun tail htail => ?_⟩
    subst htail
    exact ⟨rfl, reads_expectEnd⟩
  promptAt c := by
    have hends {s : Symbol} (h : s.kind = .operator .semicolon) (ss : List Symbol) :
        EndsStatement (s :: ss) := by
      change endsQuery s.kind = true
      rw [h]
      rfl
    refine promptAt_accept (fun s ss _ hs => ⟨⟨[], (), fun tail htail => ?_⟩, ?_⟩) fun _ => ?_
    · subst htail
      exact ⟨hends hs [], reads_bind (reads_kind []) (reads_pure () [])⟩
    · refine promptAt_atEnd c.advance rfl (fun now hne => ?_) fun new _ => hends hs new
      cases now <;> first | rfl | exact absurd rfl hne
    · refine promptAt_atEnd c rfl (fun now hne => ?_) fun ss hss => ?_
      · cases now <;> first | rfl | exact absurd rfl hne
      · rw [EndsStatement, hss]
        exact ⟨rfl, by decide⟩

end End

end Parser

/-! ## What is refused -/

/-- Terminals that are never accepted behind tokens of these kinds, though an error may name them
there. -/
inductive RefusedBehind : List TokenKind → Terminal → Prop
  | everywhere (before : List TokenKind) {t : Terminal} (h : t.isRefused = true) :
      RefusedBehind before t
  | object {word : Keyword} {object : ObjectKind}
      (hmodifies : modifiesCreation (.keyword word) = true) (hunfit : object.admits word = false) :
      RefusedBehind [.keyword .CREATE, .keyword word] object.keyword

/-- What has to be possible behind tokens of these kinds, where terminals are named: to go on in
some way, and to go on with each of the terminals that is not refused. -/
inductive Possible (before : List TokenKind) (expected : List String) : List Filler → Prop
  | something : Possible before expected []
  | named {t : Terminal} (h : t ∈ Terminal.named expected) (haccepted : ¬ RefusedBehind before t) :
      Possible before expected [.terminal t]

theorem Possible.demanded {used : List Symbol} {expected : List String} {next : List Filler}
    (h : Possible (used.map Symbol.kind) expected next) :
    Demanded used expected next ∨ used = [] ∧ next = [] := by
  cases h with
  | something =>
    by_cases hnil : used = []
    · exact .inr ⟨hnil, rfl⟩
    · exact .inl (.something hnil)
  | named hmem haccepted =>
    refine .inl (.named hmem ?_)
    exact Bool.eq_false_iff.2 fun hrefused => haccepted (.everywhere _ hrefused)

namespace Grammar

variable {limit room : Nat} {c c' : Cursor}

/-! ## Statements -/

theorem writable_statement :
    Writable productions statement (fun _ => True) (fun _ => EndsStatement) :=
  (Offers.choose (offers_creation (goalsPrompt 0 0))).writable

/-- A statement at any level, if it is not the creation of an object of no known kind. -/
theorem promptAt_statementGoal (hknown : ¬ OpensUnknown c) :
    PromptAt productions limit room Rule.statement.parse (fun _ => True) (fun _ => EndsStatement)
      c := by
  cases room with
  | zero =>
    have hrun : Rule.statement.parse.run productions limit 0 _ c = .failed (c.tooDeep limit) c :=
      rfl
    exact promptAt_of_nameless hrun rfl
  | succ room =>
    exact promptAt_step (List.nil_append c.symbols).symm (run_goal limit room c _)
      (fun _ _ _ _ => reads_goal) (fun _ => id) (promptAt_statement (goalsPrompt limit room) hknown)
      fun hne => absurd rfl hne

/-! ## Creations of no known object -/

theorem run_statement_of_opensUnknown (h : OpensUnknown c) :
    statement.run productions limit room _ c =
      .failed ((unknownObject c).unexpected ["TABLE", "INDEX", "VIEW", "TRIGGER"])
        (unknownObject c) := by
  obtain ⟨hcreate, hnone⟩ := h
  rw [statement, kind, run_bind_of_done (run_look limit room c 0), hcreate]
  change creation.run productions limit room _ c = _
  rw [run_creation, hnone]
  exact run_unknownCreation hcreate

/-- The words that are named where no known object stands are those for the objects. -/
theorem exists_object_of_named :
    ∀ t ∈ Terminal.named ["TABLE", "INDEX", "VIEW", "TRIGGER"], ∃ object : ObjectKind,
      t = Terminal.keyword object.keyword := by
  intro t ht
  have hmem := Terminal.mem_of_named ([ObjectKind.table, .index, .view, .trigger].map
    fun object => Terminal.keyword object.keyword) [] rfl ht
  obtain ⟨object, -, rfl⟩ := List.mem_map.1 hmem
  exact ⟨object, rfl⟩

/-- What a creation of no known object has taken can be completed with each object that is not
refused. -/
theorem exists_completable_of_opensUnknown (limit room : Nat) (h : OpensUnknown c) :
    ∃ used, c.symbols = used ++ (unknownObject c).symbols ∧
      ∀ next, Possible (used.map Symbol.kind) ["TABLE", "INDEX", "VIEW", "TRIGGER"] next →
        Completable productions statement (fun _ => True) (fun _ => EndsStatement) used next := by
  obtain ⟨hcreate, hnone⟩ := h
  obtain ⟨used, hused, hkinds⟩ := exists_taken_unknownObject hcreate
  refine ⟨used, hused, fun next hnext => ?_⟩
  obtain ⟨s, before, rfl, hs⟩ : ∃ s before, used = s :: before ∧ s.kind = .keyword .CREATE := by
    cases used with
    | nil => split at hkinds <;> cases hkinds
    | cons s before =>
      refine ⟨s, before, rfl, ?_⟩
      split at hkinds <;> exact (List.cons.inj hkinds).1
  have hcomplete (object : ObjectKind) (hadmitted : Admitted c object)
      (hnext : Demanded (s :: before) [object.keyword.text] next) :
      Completable productions statement (fun _ => True) (fun _ => EndsStatement) (s :: before)
        next := by
    obtain ⟨more, tree, hcompletes⟩ := completable_creation (goalsPrompt limit room)
      (fun below _ => goalsPrompt limit below) hcreate hnone hadmitted hused hnext
    refine ⟨more, tree, fun tail htail => ⟨trivial, reads_bind (reads_kind _) ?_⟩⟩
    rw [List.cons_append, List.cons_append, kindAhead_cons_zero, hs]
    exact (hcompletes tail htail).2
  cases hnext with
  | something =>
    -- some object is suited by every word
    by_cases hunique : c.kindAt 1 = .keyword .UNIQUE
    · refine hcomplete .index (fun word hword _ => ?_) (.something nofun)
      rw [hunique] at hword
      cases hword
      rfl
    · refine hcomplete .table (fun word hword hmodifies => ?_) (.something nofun)
      cases word with
      | UNIQUE => exact absurd hword hunique
      | TEMP => rfl
      | TEMPORARY => rfl
      | _ => cases hmodifies
  | @named t hmem haccepted =>
    obtain ⟨object, rfl⟩ := exists_object_of_named t hmem
    refine hcomplete object (fun word hword hmodifies => ?_)
      (.named (Terminal.mem_named_text.2 rfl) ?_)
    · -- an object that the word does not suit is refused
      rw [hword, if_pos hmodifies] at hkinds
      rw [hkinds] at haccepted
      cases hunfit : object.admits word with
      | true => rfl
      | false => exact absurd (.object hmodifies hunfit) haccepted
    · cases object <;> rfl

/-! ## The whole text -/

theorem prompt_end (tree : Statement) : Prompt productions limit room
    (expectEnd >>= fun _ => pure tree) EndsStatement (fun _ ss => ss = []) :=
  prompt_bind (fun _ => prompt_give fun _ => id) (fun _ _ => id) strict_expectEnd.prompt

theorem writable_whole :
    Writable productions (whole .statement) (fun _ => True) (fun _ ss => ss = []) := by
  have hend (tree : Statement) : Prompt productions 0 0 _ _ _ := prompt_end tree
  exact Writable.bind hend (fun _ _ => id)
    (Writable.goal (g := Goal.rule .statement) writable_statement)

/-- What a statement with the end behind it has taken before an unexpected token can be completed,
also with each terminal that the error names there and that is not refused. -/
theorem exists_completable_whole {expected : List String} {found : TokenKind} {span : Span}
    (hfail : (whole .statement).run productions limit room _ c =
      .failed (.unexpected expected found span) c') :
    ∃ used, c.symbols = used ++ c'.symbols ∧
      ∀ next, Possible (used.map Symbol.kind) expected next →
        Completable productions (whole .statement) (fun _ => True) (fun _ ss => ss = []) used
          next := by
  by_cases hunknown : OpensUnknown c
  · cases room with
    | zero =>
      have hdeep : (whole .statement).run productions limit 0 _ c = .failed (c.tooDeep limit) c :=
        rfl
      rw [hdeep] at hfail
      cases hfail
    | succ room =>
      have hrun : Rule.statement.parse.run productions limit (room + 1) _ c = _ :=
        (run_goal limit room c _).trans (run_statement_of_opensUnknown hunknown)
      rw [whole, run_bind_of_failed hrun] at hfail
      cases hfail
      obtain ⟨used, hused, hmore⟩ := exists_completable_of_opensUnknown limit room hunknown
      refine ⟨used, hused, fun next hnext => ?_⟩
      have hstatement : Completable productions Rule.statement.parse (fun _ => True)
          (fun _ => EndsStatement) used next :=
        Completable.goal (g := Goal.rule .statement) (hmore next hnext)
      have hend (tree : Statement) : Prompt productions limit room _ _ _ := prompt_end tree
      exact hstatement.bind fun tree => (hend tree).writable
  · have hwhole : PromptAt productions limit room (whole .statement) (fun _ => True)
        (fun _ ss => ss = []) c :=
      promptAt_bind' prompt_end (fun _ _ => id) (promptAt_statementGoal hunknown)
    obtain ⟨used, hused, hmore⟩ := hwhole.failed _ _ _ _ hfail
    refine ⟨used, hused, fun next hnext => ?_⟩
    rcases hnext.demanded with hdemanded | ⟨rfl, rfl⟩
    · exact hmore next hdemanded
    · exact writable_whole.completable

end Grammar

end SqlGrammar
