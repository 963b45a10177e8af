import SqlGrammar.Proofs.Parser.Prompt
import SqlGrammar.Proofs.Parser.Quiet

/-!
# Promptness of the forms of parsers

The rules for names, goals, clauses that may be left out, and repetitions. What may be left out is
entered and left by the same symbols (`fit`): a completion never makes use of it. A repetition is
entered by what its rounds are left by.
-/

set_option autoImplicit false

namespace SqlGrammar.Parser

variable {G : Type} {Tree : G → Type} {α β γ σ : Type} {P : Productions Tree} {limit room : Nat}
  {c : Cursor}

/-! ## Parsers that do the same -/

section SameRun

variable {p q : Parser Tree α} {enter : List Symbol → Prop} {leave : α → List Symbol → Prop}

/-- The parsers do the same wherever they are run. -/
def SameRun (P : Productions Tree) (p q : Parser Tree α) : Prop :=
  ∀ limit room c, p.run P limit room α c = q.run P limit room α c

theorem SameRun.symm (h : SameRun P p q) : SameRun P q p :=
  fun limit room c => (h limit room c).symm

theorem SameRun.bind (h : SameRun P p q) (f : α → Parser Tree β) :
    SameRun P (p >>= f) (q >>= f) := by
  intro limit room c
  cases hq : q.run P limit room α c with
  | done v c' => rw [run_bind_of_done hq, run_bind_of_done ((h limit room c).trans hq)]
  | failed error c' => rw [run_bind_of_failed hq, run_bind_of_failed ((h limit room c).trans hq)]

theorem sameRun_bind_assoc (p : Parser Tree α) (g : α → Parser Tree β) (f : β → Parser Tree γ) :
    SameRun P ((p >>= g) >>= f) (p >>= fun v => g v >>= f) := by
  intro limit room c
  cases hp : p.run P limit room α c with
  | failed error c₁ =>
    rw [run_bind_of_failed hp, run_bind_of_failed (run_bind_of_failed hp)]
  | done v c₁ =>
    rw [run_bind_of_done hp]
    cases hg : (g v).run P limit room β c₁ with
    | failed error c₂ =>
      rw [run_bind_of_failed hg, run_bind_of_failed ((run_bind_of_done hp).trans hg)]
    | done w c₂ => rw [run_bind_of_done hg, run_bind_of_done ((run_bind_of_done hp).trans hg)]

theorem sameRun_pure_bind (v : α) (f : α → Parser Tree β) : SameRun P (pure v >>= f) (f v) :=
  fun limit room c => run_bind_of_done (run_pure limit room c v)

theorem SameRun.reads {v : α} {input rest : List Symbol} (h : SameRun P p q)
    (hq : Reads P q input v rest) : Reads P p input v rest := by
  obtain ⟨need, hq⟩ := hq
  refine ⟨need, fun limit room hroom c hc => ?_⟩
  rw [h limit room c]
  exact hq limit room hroom c hc

theorem SameRun.writable (h : SameRun P p q) (hq : Writable P q enter leave) :
    Writable P p enter leave := by
  obtain ⟨ts, v, hcompletes⟩ := hq
  exact ⟨ts, v, fun tail htail => ⟨(hcompletes tail htail).1, h.reads (hcompletes tail htail).2⟩⟩

theorem SameRun.promptAt (h : SameRun P p q) (hq : PromptAt P limit room q enter leave c) :
    PromptAt P limit room p enter leave c :=
  promptAt_step (List.nil_append c.symbols).symm (h limit room c) (fun _ _ _ _ => h.reads)
    (fun _ => id) hq fun hne => absurd rfl hne

theorem PromptAt.assoc {p : Parser Tree α} {g : α → Parser Tree β} {f : β → Parser Tree γ}
    {leave : γ → List Symbol → Prop}
    (h : PromptAt P limit room (p >>= fun v => g v >>= f) enter leave c) :
    PromptAt P limit room ((p >>= g) >>= f) enter leave c :=
  (sameRun_bind_assoc p g f).promptAt h

theorem PromptAt.pure_bind {v : α} {f : α → Parser Tree β} {leave : β → List Symbol → Prop}
    (h : PromptAt P limit room (f v) enter leave c) :
    PromptAt P limit room (pure v >>= f) enter leave c :=
  (sameRun_pure_bind v f).promptAt h

theorem Strict.pure_bind {v : α} {f : α → Parser Tree β} {leave : β → List Symbol → Prop}
    (h : Strict P limit room (f v) enter leave) :
    Strict P limit room (pure v >>= f) enter leave :=
  ⟨(sameRun_pure_bind v f).writable h.writable, fun c => (h.promptAt c).pure_bind⟩

end SameRun

/-! ## Values and levels -/

section Values

variable {p : Parser Tree α} {enter : List Symbol → Prop} {leave : β → List Symbol → Prop}

theorem PromptAt.map (f : α → β) (h : PromptAt P limit room p enter (fun v => leave (f v)) c) :
    PromptAt P limit room (f <$> p) enter leave c :=
  promptAt_bind' (fun v => prompt_pure (f v)) (fun _ _ => id) h

theorem Prompt.map {fit : List Symbol → Prop} (f : α → β)
    (h : Prompt P limit room p enter (fun _ => fit)) :
    Prompt P limit room (f <$> p) enter (fun _ => fit) :=
  prompt_bind (fun v => prompt_pure (f v)) (fun _ _ => id) h

theorem Strict.map {fit : List Symbol → Prop} (f : α → β)
    (h : Strict P limit room p enter (fun _ => fit)) :
    Strict P limit room (f <$> p) enter (fun _ => fit) :=
  strict_bind (fun v => prompt_pure (f v)) (fun _ _ => id) h

theorem Completable.map {fit : List Symbol → Prop} {used : List Symbol} {next : List Filler}
    (f : α → β) (h : Completable P p enter (fun _ => fit) used next) :
    Completable P (f <$> p) enter (fun _ => fit) used next := by
  have hpure (v : α) : Writable P (pure (f v)) fit (fun _ => fit) := writable_pure (f v)
  exact h.bind hpure

/-- A parser that is quiet before its first token keeps the kind of that token. -/
theorem PromptAt.sameHead {leave : α → List Symbol → Prop}
    (h : PromptAt P limit room p enter leave c) (hquiet : QuietAt P limit room p c) :
    PromptAt P limit room p
      (fun ss => enter ss ∧ kindAhead ss 0 = c.kindAt 0) leave c := by
  have hne : ∀ {used : List Symbol} {c' : Cursor},
      c.symbols = used ++ c'.symbols → c'.remaining < c.remaining → used ≠ [] := by
    rintro _ c' hused hlt rfl
    rw [← c.length_symbols, ← c'.length_symbols, hused, List.nil_append] at hlt
    exact Nat.lt_irrefl _ hlt
  have hkeeps : ∀ {used rest more : List Symbol} {fit : List Symbol → Prop} {v : α},
      c.symbols = used ++ rest → used ≠ [] → Completes P p enter fit (used ++ more) v →
        Completes P p (fun ss => enter ss ∧ kindAhead ss 0 = c.kindAt 0) fit (used ++ more) v := by
    intro used rest more fit v hused hne hcompletes tail htail
    obtain ⟨hin, hread⟩ := hcompletes tail htail
    cases used with
    | nil => exact absurd rfl hne
    | cons s used => exact ⟨⟨hin, by rw [c.kindAt_eq, hused]; rfl⟩, hread⟩
  constructor
  · intro v c' hrun
    obtain ⟨used, hused, hcompletes⟩ := h.done v c' hrun
    rw [← List.append_nil used] at hcompletes
    have hsame := hkeeps hused (hne hused (hquiet.done v c' hrun)) hcompletes
    rw [List.append_nil] at hsame
    exact ⟨used, hused, hsame⟩
  · intro expected found span c' hrun
    obtain ⟨used, hused, hmore⟩ := h.failed expected found span c' hrun
    refine ⟨used, hused, fun next hnext => ?_⟩
    -- what is demanded is demanded behind some symbol
    have hsome : used ≠ [] := by
      cases hnext with
      | something hne => exact hne
      | named hmem _ =>
        rcases hquiet.failed _ _ _ _ hrun with hlt | hnone
        · exact hne hused hlt
        · rw [hnone] at hmem
          cases hmem
    obtain ⟨more, v, hcompletes⟩ := hmore next hnext
    exact ⟨more, v, hkeeps hused hsome hcompletes⟩

variable {g : G} {fit : List Symbol → Prop} {leaveG : Tree g → List Symbol → Prop}

theorem Writable.goal (h : Writable P (P g) fit leaveG) :
    Writable P (goal g) fit leaveG := by
  obtain ⟨ts, v, hcompletes⟩ := h
  exact ⟨ts, v, fun tail htail =>
    ⟨(hcompletes tail htail).1, reads_goal (hcompletes tail htail).2⟩⟩

theorem Completable.goal {used : List Symbol} {next : List Filler}
    (h : Completable P (P g) fit leaveG used next) :
    Completable P (goal g) fit leaveG used next := by
  obtain ⟨more, v, h⟩ := h
  exact ⟨more, v, fun tail htail =>
    ⟨(h tail htail).1, reads_goal (h tail htail).2⟩⟩

/-- Without a level left a goal fails where it starts, but not for an unexpected token. -/
theorem strict_goal_zero (h : Writable P (P g) fit leaveG) :
    Strict P limit 0 (goal g) fit leaveG :=
  have hrun (c : Cursor) : (goal g).run P limit 0 _ c = .failed (c.tooDeep limit) c := rfl
  ⟨h.goal, fun c => promptAt_of_nameless (hrun c) rfl⟩

theorem strict_goal_succ (h : Strict P limit room (P g) fit leaveG) :
    Strict P limit (room + 1) (goal g) fit leaveG :=
  ⟨h.writable.goal, fun c => promptAt_step (List.nil_append c.symbols).symm
    (run_goal limit room c g) (fun _ _ _ _ => reads_goal) (fun _ => id) (h.promptAt c)
    fun hne => absurd rfl hne⟩

/-- The same holds of whatever is done a level deeper. -/
theorem strict_deeper_zero {leave : α → List Symbol → Prop} (h : Writable P p enter leave) :
    Strict P limit 0 (deeper p) enter leave := by
  have hrun (c : Cursor) : (deeper p).run P limit 0 _ c = .failed (c.tooDeep limit) c := rfl
  obtain ⟨ts, v, hcompletes⟩ := h
  exact ⟨⟨ts, v, fun tail htail =>
    ⟨(hcompletes tail htail).1, reads_deeper (hcompletes tail htail).2⟩⟩,
    fun c => promptAt_of_nameless (hrun c) rfl⟩

theorem strict_deeper_succ {leave : α → List Symbol → Prop}
    (h : Strict P limit room p enter leave) : Strict P limit (room + 1) (deeper p) enter leave := by
  obtain ⟨ts, v, hcompletes⟩ := h.writable
  exact ⟨⟨ts, v, fun tail htail =>
    ⟨(hcompletes tail htail).1, reads_deeper (hcompletes tail htail).2⟩⟩,
    fun c => promptAt_step (List.nil_append c.symbols).symm (run_deeper limit room c p)
      (fun _ _ _ _ => reads_deeper) (fun _ => id) (h.promptAt c) fun hne => absurd rfl hne⟩

end Values

/-! ## Names -/

section Names

variable {p : Parser Tree α} {enter fit : List Symbol → Prop} {leave : α → List Symbol → Prop}

theorem exists_name_of_isIdentifier {kind : TokenKind} (h : kind.isIdentifier = true) :
    ∃ own, kind = .identifier own := by
  cases kind with
  | identifier own => exact ⟨own, rfl⟩
  | _ => cases h

section Kind

variable {s : Symbol} {own : String}

theorem reads_identifier?_of_kind (h : s.kind = .identifier own) (ss : List Symbol) :
    Reads P identifier? (s :: ss) (some own) ss := by
  refine reads_bind (reads_kind (s :: ss)) ?_
  rw [kindAhead_cons_zero, h]
  exact reads_bind (reads_advance (by rw [h]; nofun)) (reads_pure _ _)

theorem reads_identifier_of_kind (h : s.kind = .identifier own) (ss : List Symbol) :
    Reads P identifier (s :: ss) own ss :=
  reads_bind (reads_identifier?_of_kind h ss) (reads_pure own ss)

theorem run_identifier?_of_kind (h : c.kindAt 0 = .identifier own) :
    (identifier? : Parser Tree _).run P limit room _ c = .done (some own) c.advance := by
  rw [identifier?, kind, run_bind_of_done (run_look limit room c 0), h]
  exact (run_bind_of_done (run_advance limit room c)).trans (run_pure limit room _ _)

theorem run_identifier_of_kind (h : c.kindAt 0 = .identifier own) :
    (identifier : Parser Tree _).run P limit room _ c = .done own c.advance :=
  (run_bind_of_done (run_identifier?_of_kind h)).trans (run_pure limit room _ own)

theorem run_identifier?_of_not (h : (c.kindAt 0).isIdentifier = false) :
    (identifier? : Parser Tree _).run P limit room _ c = .done none c := by
  rw [identifier?, kind, run_bind_of_done (run_look limit room c 0)]
  cases hkind : c.kindAt 0 with
  | identifier own =>
    rw [hkind] at h
    cases h
  | _ => exact run_pure limit room c none

theorem run_identifier_of_not (h : (c.kindAt 0).isIdentifier = false) :
    (identifier : Parser Tree _).run P limit room _ c =
      .failed (c.unexpected ["identifier"]) c :=
  (run_bind_of_done (run_identifier?_of_not h)).trans (run_unexpected limit room c _)

end Kind

/-- A name that has to be there. -/
theorem strict_identifier : Strict P limit room identifier StartsName (fun _ _ => True) where
  writable := ⟨[.name "a"], "a", fun tail _ => ⟨rfl, reads_identifier "a" tail⟩⟩
  promptAt c := by
    cases hname : (c.kindAt 0).isIdentifier with
    | true =>
      obtain ⟨own, hkind⟩ := exists_name_of_isIdentifier hname
      obtain ⟨s, ss, hsymbols, hs⟩ := exists_symbols_of_kindAt hkind nofun
      refine promptAt_of_run_done (run_identifier_of_kind hkind)
        (symbols_eq_singleton_append hsymbols (by rw [hs]; nofun))
        fun tail _ => ⟨?_, reads_identifier_of_kind hs tail⟩
      change s.kind.isIdentifier = true
      rw [hs]
      rfl
    | false =>
      exact promptAt_of_mismatch (run_identifier_of_not hname)
        (Terminal.named_description .identifier)

/-- A name that may be left out. -/
theorem prompt_identifier? (hne : ∀ ss, fit ss → (kindAhead ss 0).isIdentifier = false) :
    Prompt P limit room identifier? fit (fun _ => fit) where
  writable := ⟨[], none, fun tail htail => ⟨htail, reads_identifier?_none (hne tail htail)⟩⟩
  promptAt c := by
    cases hname : (c.kindAt 0).isIdentifier with
    | true =>
      obtain ⟨own, hkind⟩ := exists_name_of_isIdentifier hname
      obtain ⟨s, ss, hsymbols, hs⟩ := exists_symbols_of_kindAt hkind nofun
      refine promptAt_of_run_done (run_identifier?_of_kind hkind)
        (symbols_eq_singleton_append hsymbols (by rw [hs]; nofun))
        fun tail _ => ⟨?_, reads_identifier?_of_kind hs tail⟩
      rw [hsymbols]
      exact .inr (looksLike_cons (by rw [hs]; rfl))
    | false =>
      refine promptAt_of_run_done (run_identifier?_of_not hname) (List.nil_append _).symm
        fun tail htail => ⟨htail, reads_identifier?_none ?_⟩
      exact htail.kindAt (p := fun kind => kind.isIdentifier = false) (hne tail) hname

/-- A name that spells a word, which is no terminal. -/
theorem strict_expectWord {word : String} (hword : Terminal.named [word] = []) :
    Strict P limit room (expectWord word) StartsName (fun _ _ => True) where
  writable := ⟨[.name word], (), fun tail _ => ⟨rfl, reads_expectWord rfl tail⟩⟩
  promptAt c := by
    refine promptAt_kind ?_
    cases hkind : c.kindAt 0 with
    | identifier own =>
      dsimp only
      cases hsame : Text.upper own == Text.upper word with
      | true =>
        obtain ⟨s, ss, hsymbols, hs⟩ := exists_symbols_of_kindAt hkind nofun
        refine promptAt_of_run_done (run_advance limit room c)
          (symbols_eq_singleton_append hsymbols (by rw [hs]; nofun))
          fun tail _ => ⟨⟨?_, hs⟩, reads_advance (by rw [hs]; nofun)⟩
        change s.kind.isIdentifier = true
        rw [hs]
        rfl
      | false => exact promptAt_unexpected hword
    | _ => exact promptAt_unexpected hword

end Names

/-! ## Choices by what is there -/

section Choice

variable {p q : Parser Tree β} {enter fit : List Symbol → Prop} {leave : β → List Symbol → Prop}

theorem Writable.offers_advance {t : Terminal} (h : Writable P q fit leave)
    (henter : ∀ s ss, s.kind = t.kind → fit ss → enter (s :: ss)) :
    Offers P (advance >>= fun _ => q) enter leave t :=
  h.offers (fun _ _ _ _ hs hread => reads_bind (reads_advance (hs ▸ t.kind_ne_eof)) hread) henter

/-- What is offered where the terminal is found is offered by the choice. -/
theorem Offers.choose {choice : TokenKind → Parser Tree β} {t : Terminal}
    (h : Offers P (choice t.kind) enter leave t) : Offers P (kind >>= choice) enter leave t := by
  obtain ⟨more, v, hcompletes⟩ := h
  refine ⟨more, v, fun tail htail => ?_⟩
  obtain ⟨hin, hread⟩ := hcompletes tail htail
  refine ⟨hin, reads_bind (reads_kind _) ?_⟩
  change Reads P (choice t.symbol.kind) _ v tail
  rw [t.symbol_kind]
  exact hread

/-- A choice in which nothing is taken fails where it starts. -/
theorem promptAt_of_choice {choice : TokenKind → Parser Tree β} {expected : List String}
    (hchoice : choice (c.kindAt 0) = unexpected expected)
    (hoffers : ∀ t ∈ Terminal.named expected, Offers P (choice t.kind) enter leave t) :
    PromptAt P limit room (kind >>= choice) enter leave c := by
  have hrun : (kind >>= choice).run P limit room _ c = .failed (c.unexpected expected) c := by
    rw [kind, run_bind_of_done (run_look limit room c 0), hchoice]
    exact run_unexpected limit room c expected
  exact promptAt_of_failed hrun fun t ht _ => (hoffers t ht).choose

/-- What can only be entered by the terminal offers it. -/
theorem Writable.offers_first {t : Terminal} (h : Writable P p enter leave)
    (henter : ∀ ss, enter ss → StartsWith t ss)
    (hleave : ∀ v, ∃ tail, leave v tail ∧ ¬ StartsWith t tail) : Offers P p enter leave t := by
  obtain ⟨ts, v, hcompletes⟩ := h
  obtain ⟨tail, htail, hne⟩ := hleave v
  have hstart := henter _ (hcompletes tail htail).1
  cases ts with
  | nil => exact absurd hstart hne
  | cons first more =>
    have hkind : first.symbol.kind = t.kind := hstart
    have hfirst : first = .terminal t := by
      cases first with
      | terminal u =>
        rw [Filler.symbol, u.symbol_kind] at hkind
        cases t <;> cases u <;> cases hkind <;> rfl
      | name own => cases t <;> cases hkind
      | digit => cases t <;> cases hkind
    subst hfirst
    exact ⟨more, v, hcompletes⟩

/-- A branch of a choice, at a cursor: the parser offers the terminal, and is prompt where it is. -/
structure Branch (P : Productions Tree) (limit room : Nat) (p : Parser Tree β)
    (enter : List Symbol → Prop) (leave : β → List Symbol → Prop) (t : Terminal) (c : Cursor) :
    Prop where
  offers : Offers P p enter leave t
  promptAt : c.kindAt 0 = t.kind →
    PromptAt P limit room p (fun ss => enter ss ∧ StartsWith t ss) leave c

/-- A branch that starts with the terminal by itself. -/
theorem Strict.branch {t : Terminal} (h : Strict P limit room p fit leave)
    (hfit : ∀ ss, fit ss → enter ss ∧ StartsWith t ss)
    (hleave : ∀ v, ∃ tail, leave v tail ∧ ¬ StartsWith t tail) :
    Branch P limit room p enter leave t c where
  offers := ((h.writable.mono hfit fun _ _ => id).offers_first (fun _ hss => hss.2) hleave).mono
    (fun _ hss => hss.1) fun _ _ => id
  promptAt _ := (h.promptAt c).mono hfit fun _ _ => id

/-- A branch that takes the terminal as it is. -/
theorem Strict.branchBehind {t : Terminal} (h : Strict P limit room q (fun _ => True) leave)
    (henter : ∀ ss, StartsWith t ss → enter ss) :
    Branch P limit room (advance >>= fun _ => q) enter leave t c where
  offers := h.writable.offers_advance fun _ _ hs _ => henter _ hs
  promptAt hkind := by
    have hstart (ss : List Symbol) (hss : kindAhead ss 0 = c.kindAt 0) : StartsWith t ss :=
      hss.trans hkind
    exact (promptAt_advance_same (hkind ▸ t.kind_ne_eof) h fun ss hss =>
      henter ss (hstart ss hss)).mono (fun ss hss => ⟨hss.1, hstart ss hss.2⟩) fun _ _ => id

section Branches

variable {choice : TokenKind → Parser Tree β} (expected : List String) (ts : List Terminal)
  (hexpected : expected = ts.map Terminal.text)
  (hother : ∀ now, (∀ t ∈ ts, now ≠ t.kind) →
    choice now = unexpected expected ∨ ∃ construct, choice now = unsupported construct)

include hexpected hother

/-- A choice among branches. All that are named where none is taken are among them; what else stands
there may also be refused for what it is. -/
theorem promptAt_branches
    (hbranch : ∀ t ∈ ts, Branch P limit room (choice t.kind) enter leave t c) :
    PromptAt P limit room (kind >>= choice) enter leave c := by
  by_cases hsome : ∃ t ∈ ts, c.kindAt 0 = t.kind
  · obtain ⟨t, ht, hkind⟩ := hsome
    refine promptAt_kind ?_
    rw [hkind]
    exact (hbranch t ht).promptAt hkind
  · have hnone : ∀ t ∈ ts, c.kindAt 0 ≠ t.kind := fun t ht hkind => hsome ⟨t, ht, hkind⟩
    rcases hother _ hnone with hchoice | ⟨construct, hchoice⟩
    · refine promptAt_of_choice hchoice fun t ht => (hbranch t ?_).offers
      refine Terminal.mem_of_named ts [] ?_ ht
      rw [hexpected, List.map_nil, List.append_nil]
    · refine promptAt_kind ?_
      rw [hchoice]
      exact promptAt_unsupported construct

theorem strict_branches {t : Terminal} (ht : t ∈ ts)
    (hbranch : ∀ c, ∀ t ∈ ts, Branch P limit room (choice t.kind) enter leave t c) :
    Strict P limit room (kind >>= choice) enter leave where
  writable := (hbranch ⟨[], .eof 0, rfl⟩ t ht).offers.choose.writable
  promptAt c := promptAt_branches expected ts hexpected hother (hbranch c)

end Branches

/-- A choice by the symbol that is there, which is taken. All terminals that are named where none is
found are found. -/
theorem strict_chosen (find : TokenKind → Option α) (expected : List String)
    {f : α → Parser Tree β} {choice : TokenKind → Parser Tree β}
    (hsome : ∀ kind v, find kind = some v → choice kind = advance >>= fun _ => f v)
    (hnone : ∀ kind, find kind = none → choice kind = unexpected expected)
    (hnamed : ∀ t ∈ Terminal.named expected, (find t.kind).isSome = true)
    (hf : ∀ v, Strict P limit room (f v) (fun _ => True) leave) (heof : find .eof = none)
    {t : Filler} {v : α} (ht : find t.symbol.kind = some v) :
    Strict P limit room (kind >>= choice) (fun ss => (find (kindAhead ss 0)).isSome = true)
      leave where
  writable := by
    obtain ⟨ts, w, hcompletes⟩ := (hf v).writable
    refine ⟨t :: ts, w, fun tail htail => ?_⟩
    have hne : t.symbol.kind ≠ .eof := by
      intro hkind
      rw [hkind, heof] at ht
      cases ht
    refine ⟨congrArg Option.isSome ht, reads_bind (reads_kind _) ?_⟩
    rw [List.map_cons, List.cons_append, kindAhead_cons_zero, hsome _ v ht]
    exact reads_bind (reads_advance hne) (hcompletes tail htail).2
  promptAt c := by
    cases hfind : find (c.kindAt 0) with
    | none =>
      refine promptAt_of_choice (hnone _ hfind) fun t ht => ?_
      have hsome' := hnamed t ht
      obtain ⟨v, hv⟩ := Option.isSome_iff_exists.1 hsome'
      rw [hsome _ v hv]
      refine (hf v).writable.offers_advance fun s ss hs _ => ?_
      rw [kindAhead_cons_zero, hs]
      exact hsome'
    | some v =>
      have hne : c.kindAt 0 ≠ .eof := by
        intro hkind
        rw [hkind, heof] at hfind
        cases hfind
      refine promptAt_kind ?_
      rw [hsome _ v hfind]
      refine promptAt_advance_same hne (hf v) fun ss hss => ?_
      rw [hss, hfind]
      rfl

/-- What starts with a terminal of its own may be left out. -/
theorem prompt_isAt {t : Terminal} (hreach : t.kind.reach = 0)
    (hp : Strict P limit room p (StartsWith t) leave) (hq : Prompt P limit room q fit leave)
    (hne : ∀ ss, fit ss → kindAhead ss 0 ≠ t.kind) :
    Prompt P limit room (isAt t >>= fun there => if there then p else q) fit leave where
  writable := by
    obtain ⟨ts, v, hcompletes⟩ := hq.writable
    refine ⟨ts, v, fun tail htail => ?_⟩
    obtain ⟨hin, hread⟩ := hcompletes tail htail
    exact ⟨hin, reads_bind (reads_isAt_false (hne _ hin)) hread⟩
  promptAt c := by
    refine promptAt_isAt t ?_
    cases hat : t.accepts (c.kindAt 0) with
    | true =>
      have hkind : kindAhead c.symbols 0 = t.kind := c.kindAt_eq 0 ▸ Terminal.accepts_iff.1 hat
      refine (hp.promptAt c).mono (fun ss hss => ?_) fun _ _ => id
      exact ⟨.inr (looksLike_of_kind (hss.trans hkind.symm) (hkind ▸ hreach)),
        Terminal.accepts_iff.2 hss⟩
    | false =>
      refine (hq.promptAt c).mono (fun ss hss => ⟨hss, ?_⟩) fun _ _ => id
      rw [Bool.eq_false_iff, ne_eq, Terminal.accepts_iff] at hat ⊢
      exact hss.kindAt (p := (· ≠ t.kind)) (hne ss) hat

/-- What starts with terminals of its own may be left out. -/
theorem prompt_areAhead {t : Terminal} {ts : List Terminal} (hreach : t.kind.reach = ts.length)
    (hp : Strict P limit room p (fun ss => terminalsAhead ss 0 (t :: ts) = true) leave)
    (hq : Prompt P limit room q fit leave)
    (hne : ∀ ss, fit ss → terminalsAhead ss 0 (t :: ts) = false) :
    Prompt P limit room (areAhead 0 (t :: ts) >>= fun there => if there then p else q) fit
      leave where
  writable := by
    obtain ⟨ts', v, hcompletes⟩ := hq.writable
    refine ⟨ts', v, fun tail htail => ?_⟩
    obtain ⟨hin, hread⟩ := hcompletes tail htail
    refine ⟨hin, reads_bind (reads_areAhead _ _ 0) ?_⟩
    rw [hne _ hin]
    exact hread
  promptAt c := by
    refine promptAt_areAhead 0 (t :: ts) ?_
    cases hahead : terminalsAhead c.symbols 0 (t :: ts) with
    | true =>
      exact (hp.promptAt c).mono (fun ss hss =>
        ⟨.inr (looksLike_of_terminalsAhead hahead hss (Nat.le_of_eq hreach)), hss⟩) fun _ _ => id
    | false =>
      refine (hq.promptAt c).mono (fun ss hss => ⟨hss, ?_⟩) fun _ _ => id
      rcases hss with hss | hss
      · exact hne ss hss
      · exact hss.terminalsAhead_false (Nat.le_of_eq hreach.symm) hahead

end Choice

/-! ## Several terminals at once -/

section Terminals

variable {ts : List Terminal} {ss taken : List Symbol}

theorem terminalsAhead_of_kinds (ss : List Symbol) :
    ∀ {ts : List Terminal} {taken : List Symbol},
      taken.map Symbol.kind = ts.map Terminal.kind → terminalsAhead (taken ++ ss) 0 ts = true := by
  intro ts
  induction ts with
  | nil => exact fun _ => rfl
  | cons t ts ih =>
    intro taken h
    obtain ⟨s, taken, rfl, hs, htaken⟩ := List.map_eq_cons_iff.1 h
    rw [List.cons_append, terminalsAhead, terminalsAhead_cons_succ, ih htaken, Bool.and_true]
    exact Terminal.accepts_iff.2 hs

theorem reads_advanceBy_of_kinds (ss : List Symbol) :
    ∀ {ts : List Terminal} {taken : List Symbol},
      taken.map Symbol.kind = ts.map Terminal.kind →
        Reads P (advanceBy ts.length) (taken ++ ss) () ss := by
  intro ts
  induction ts with
  | nil =>
    intro taken h
    rw [List.map_eq_nil_iff.1 h]
    exact reads_pure () ss
  | cons t ts ih =>
    intro taken h
    obtain ⟨s, taken, rfl, hs, htaken⟩ := List.map_eq_cons_iff.1 h
    exact reads_bind (reads_advance (hs ▸ t.kind_ne_eof)) (ih htaken)

theorem reads_acceptAll_of_kinds (h : taken.map Symbol.kind = ts.map Terminal.kind) :
    Reads P (acceptAll ts) (taken ++ ss) true ss := by
  refine reads_bind (reads_areAhead _ ts 0) ?_
  rw [terminalsAhead_of_kinds ss h]
  exact reads_bind (reads_advanceBy_of_kinds ss h) (reads_pure true ss)

/-- The terminals ahead are the first symbols, and all of them are taken. -/
theorem exists_taken (P : Productions Tree) (limit room : Nat) :
    ∀ {ts : List Terminal} {c : Cursor}, terminalsAhead c.symbols 0 ts = true →
      ∃ taken c', c.symbols = taken ++ c'.symbols ∧
        taken.map Symbol.kind = ts.map Terminal.kind ∧
          (advanceBy ts.length : Parser Tree _).run P limit room _ c = .done () c' := by
  intro ts
  induction ts with
  | nil => exact fun {c} _ => ⟨[], c, rfl, rfl, run_pure limit room c ()⟩
  | cons t ts ih =>
    intro c h
    rw [terminalsAhead, Bool.and_eq_true, Terminal.accepts_iff, ← c.kindAt_eq] at h
    obtain ⟨s, ss, hsymbols, hs⟩ := exists_symbols_of_kindAt h.1 t.kind_ne_eof
    have hadvance : c.advance.symbols = ss :=
      Cursor.symbols_advance hsymbols (hs ▸ t.kind_ne_eof)
    have hahead : terminalsAhead c.advance.symbols 0 ts = true := by
      rw [hadvance, ← terminalsAhead_cons_succ s, ← hsymbols]
      exact h.2
    obtain ⟨taken, c', htaken, hkinds, hrun⟩ := ih hahead
    refine ⟨s :: taken, c', ?_, ?_, (run_bind_of_done (run_advance limit room c)).trans hrun⟩
    · rw [hsymbols, ← hadvance, htaken, List.cons_append]
    · rw [List.map_cons, List.map_cons, hs, hkinds]

variable {q : Parser Tree β} {f : Bool → Parser Tree β} {enter fit : List Symbol → Prop}
  {leave : β → List Symbol → Prop} {t : Terminal}

/-- Terminals that may all be there are taken, or they are not all there. -/
theorem promptAt_acceptAll
    (htrue : ∀ taken c', c.symbols = taken ++ c'.symbols →
      taken.map Symbol.kind = ts.map Terminal.kind →
        Writable P (f true) (fun new => enter (taken ++ new)) leave ∧
          PromptAt P limit room (f true) (fun new => enter (taken ++ new)) leave c')
    (hfalse : terminalsAhead c.symbols 0 ts = false → PromptAt P limit room (f false)
      (fun ss => enter ss ∧ terminalsAhead ss 0 ts = false) leave c) :
    PromptAt P limit room (acceptAll ts >>= f) enter leave c := by
  cases hahead : terminalsAhead c.symbols 0 ts with
  | true =>
    obtain ⟨taken, c', htaken, hkinds, hadvance⟩ := exists_taken P limit room hahead
    have hrun : (acceptAll ts : Parser Tree _).run P limit room _ c = .done true c' := by
      rw [acceptAll, run_bind_of_done (run_areAhead ts 0), hahead]
      exact (run_bind_of_done hadvance).trans (run_pure limit room c' true)
    obtain ⟨hwritable, hprompt⟩ := htrue taken c' htaken hkinds
    exact promptAt_step htaken (run_bind_of_done hrun)
      (fun ss v rest _ hread => reads_bind (reads_acceptAll_of_kinds hkinds) hread)
      (fun _ => id) hprompt fun _ => hwritable
  | false =>
    exact promptAt_step (List.nil_append c.symbols).symm
      (run_bind_of_done (run_acceptAll_of_false hahead))
      (fun ss v rest hss hread => reads_bind (reads_acceptAll_false hss.2) hread)
      (fun _ hss => hss.1) (hfalse hahead) fun hne => absurd rfl hne

theorem looksLike_append {old new : List Symbol}
    (h : taken.map Symbol.kind = (t :: ts).map Terminal.kind) (hreach : t.kind.reach ≤ ts.length) :
    LooksLike (taken ++ old) (taken ++ new) := by
  intro n hn
  have hlength := congrArg List.length h
  rw [List.length_map, List.length_map, List.length_cons] at hlength
  have hfirst : kindAhead (taken ++ old) 0 = t.kind := by
    obtain ⟨s, taken, rfl, hs, -⟩ := List.map_eq_cons_iff.1 h
    exact hs
  rw [hfirst] at hn
  rw [kindAhead, kindAhead, List.getElem?_append_left (by omega),
    List.getElem?_append_left (by omega)]

/-- The terminals are looked at together, and none behind them. -/
theorem prompt_acceptAll (hreach : t.kind.reach = ts.length)
    (htrue : Prompt P limit room (f true) enter leave)
    (hfalse : Prompt P limit room (f false) fit leave)
    (hne : ∀ ss, fit ss → terminalsAhead ss 0 (t :: ts) = false) :
    Prompt P limit room (acceptAll (t :: ts) >>= f) fit leave where
  writable := by
    obtain ⟨ts', v, hcompletes⟩ := hfalse.writable
    refine ⟨ts', v, fun tail htail => ?_⟩
    obtain ⟨hin, hread⟩ := hcompletes tail htail
    exact ⟨hin, reads_bind (reads_acceptAll_false (hne _ hin)) hread⟩
  promptAt c := by
    refine promptAt_acceptAll (fun taken c' htaken hkinds => ?_) fun hahead => ?_
    · have henter : ∀ new, Replaces fit c.symbols (taken ++ new) := by
        intro new
        rw [htaken]
        exact .inr (looksLike_append hkinds (Nat.le_of_eq hreach))
      exact ⟨htrue.writable.mono (fun new _ => henter new) fun _ _ => id,
        (htrue.promptAt c').mono (fun new _ => henter new) fun _ _ => id⟩
    · refine (hfalse.promptAt c).mono (fun ss hss => ⟨hss, ?_⟩) fun _ _ => id
      rcases hss with hss | hss
      · exact hne ss hss
      · exact hss.terminalsAhead_false (Nat.le_of_eq hreach.symm) hahead

/-- Where anything may stand, the terminals may be taken whatever is looked at elsewhere. -/
theorem strict_acceptAll (htrue : Strict P limit room (f true) enter leave)
    (hfalse : Strict P limit room (f false) fit leave)
    (hne : ∀ ss, fit ss → terminalsAhead ss 0 ts = false) :
    Strict P limit room (acceptAll ts >>= f) (fun _ => True) leave where
  writable := by
    obtain ⟨ts', v, hcompletes⟩ := hfalse.writable
    refine ⟨ts', v, fun tail htail => ⟨trivial, ?_⟩⟩
    obtain ⟨hin, hread⟩ := hcompletes tail htail
    exact reads_bind (reads_acceptAll_false (hne _ hin)) hread
  promptAt c := promptAt_acceptAll
    (fun taken c' _ _ => ⟨htrue.writable.mono (fun _ _ => trivial) fun _ _ => id,
      (htrue.promptAt c').mono (fun _ _ => trivial) fun _ _ => id⟩)
    fun _ => (hfalse.promptAt c).mono (fun ss hss => ⟨trivial, hne ss hss⟩) fun _ _ => id

end Terminals

/-! ## What may be left out -/

section Optional

variable {p : Parser Tree α} {enter fit : List Symbol → Prop} {leave : α → List Symbol → Prop}
  {t : Terminal}

/-- A clause that may be left out. What stands behind the clause may stand in its place. -/
theorem prompt_behind? (hreach : t.kind.reach = 0) (hp : Prompt P limit room p enter leave)
    (hfit : ∀ v ss, fit ss → leave v ss) (hne : ∀ ss, fit ss → kindAhead ss 0 ≠ t.kind) :
    Prompt P limit room (behind? t p) fit (fun _ => fit) := by
  have hsome (v : α) : Prompt P limit room (pure (some v)) fit (fun _ => fit) :=
    prompt_give fun _ => id
  exact prompt_accept hreach (prompt_bind hsome hfit hp) (prompt_give fun _ => id) hne

/-- A clause before something else that starts with symbols of its own. -/
theorem strict_behind?_bind {f : Option α → Parser Tree β} {leaveP : α → List Symbol → Prop}
    {leave : β → List Symbol → Prop} (hp : Prompt P limit room p enter leaveP)
    (hf : ∀ o, Strict P limit room (f o) fit leave) (hfit : ∀ v ss, fit ss → leaveP v ss)
    (hne : ∀ ss, fit ss → kindAhead ss 0 ≠ t.kind) :
    Strict P limit room (behind? t p >>= f) (fun ss => StartsWith t ss ∨ fit ss) leave where
  writable := by
    obtain ⟨ts, v, hcompletes⟩ := (hf none).writable
    refine ⟨ts, v, fun tail htail => ?_⟩
    obtain ⟨hin, hread⟩ := hcompletes tail htail
    exact ⟨.inr hin, reads_bind (reads_behind_none (hne _ hin)) hread⟩
  promptAt c := by
    refine PromptAt.assoc (promptAt_accept (fun s ss hsymbols hs => ?_) fun _ => ?_)
    · have hsome : Prompt P limit room ((p >>= fun v => pure (some v)) >>= f) enter leave :=
        prompt_bind (fun o => (hf o).prompt) (fun o ss => id)
          (prompt_bind (fun v => prompt_pure (some v)) hfit hp)
      exact hsome.behind hsymbols (hs ▸ t.kind_ne_eof) fun _ _ => .inl hs
    · exact (((hf none).promptAt c).mono (fun ss hss => ⟨.inr hss, hne ss hss⟩)
        fun _ _ => id).pure_bind

end Optional

/-! ## Repetition -/

/-- What a round of a repetition is left by: another round, or what stands behind them all. -/
def leaveRound (round stop : List Symbol → Prop) : Option σ → List Symbol → Prop
  | some _ => round
  | none => stop

section Repetition

variable {round stop : List Symbol → Prop}

section Rounds

variable {step : σ → Parser Tree (Option σ)} {s s' v : σ} {enter next last : List Symbol → Prop}
  {used ss : List Symbol} {c c' : Cursor}

/-- What completes the last round completes `iterate`. -/
theorem Completes.iterate_stop (h : Completes P (step s) enter last ss none) :
    Completes P (iterate step s) enter last ss s := by
  intro tail htail
  obtain ⟨hin, hread⟩ := h tail htail
  exact ⟨hin, reads_iterate_stop hread⟩

/-- What completes a round that takes symbols is followed by what completes the other rounds. -/
theorem Completes.iterate_step (hfirst : Completes P (step s) enter next used (some s'))
    (hne : used ≠ []) (hmore : Completes P (iterate step s') next last ss v) :
    Completes P (iterate step s) enter last (used ++ ss) v := by
  intro tail htail
  obtain ⟨hnext, hreadMore⟩ := hmore tail htail
  obtain ⟨hin, hread⟩ := hfirst (ss ++ tail) hnext
  have hlt : (ss ++ tail).length < (used ++ (ss ++ tail)).length := by
    have hpos := List.length_pos_iff.2 hne
    have hlength := @List.length_append _ used (ss ++ tail)
    omega
  rw [List.append_assoc]
  exact ⟨hin, reads_iterate_step hread hlt hreadMore⟩

/-- Where a round may start, the rounds can be ended. -/
theorem writable_iterate
    (hstop : ∀ s, ∃ ts : List Filler, Completes P (step s) round stop (ts.map Filler.symbol) none)
    (s : σ) : Writable P (iterate step s) round (fun _ => stop) := by
  obtain ⟨ts, hcompletes⟩ := hstop s
  exact ⟨ts, s, hcompletes.iterate_stop⟩

/-- What completes a round that fails completes `iterate`, by itself if it makes the round the last
one, and with an end of the rounds behind it otherwise. -/
theorem Completable.iterate {next : List Filler} {expected : List String}
    (hends : ∀ s, Writable P (iterate step s) round (fun _ => stop))
    (hdemand : Demanded used expected next)
    (h : Completable P (step s) enter (leaveRound round stop) used next) :
    Completable P (iterate step s) enter (fun _ => stop) used next := by
  obtain ⟨more, o, hcompletes⟩ := h
  cases o with
  | none => exact ⟨more, s, hcompletes.iterate_stop⟩
  | some s' =>
    have hne : used ++ (next ++ more).map Filler.symbol ≠ [] := by
      cases hdemand <;> simp [*]
    obtain ⟨ts, v, hlast⟩ := hends s'
    refine ⟨more ++ ts, v, ?_⟩
    rw [← List.append_assoc next, List.map_append, ← List.append_assoc]
    exact hcompletes.iterate_step hne hlast

/-- A first round that fails: `iterate` fails there too. -/
theorem promptAt_iterate_of_failed {error : ParseError}
    (hends : ∀ s, Writable P (iterate step s) round (fun _ => stop))
    (hstep : PromptAt P limit room (step s) enter (leaveRound round stop) c)
    (hrun : (step s).run P limit room _ c = .failed error c') :
    PromptAt P limit room (iterate step s) enter (fun _ => stop) c where
  done v c₁ hdone := by
    rw [run_iterate_of_failed hrun] at hdone
    cases hdone
  failed expected found span c₁ hfailed := by
    rw [run_iterate_of_failed hrun] at hfailed
    cases hfailed
    obtain ⟨used, hused, hmore⟩ := hstep.failed expected found span c' hrun
    exact ⟨used, hused, fun next hdemand => (hmore next hdemand).iterate hends hdemand⟩

/-- A first round that gives nothing is the last. -/
theorem promptAt_iterate_of_none
    (hstep : PromptAt P limit room (step s) enter (leaveRound round stop) c)
    (hrun : (step s).run P limit room _ c = .done none c') :
    PromptAt P limit room (iterate step s) enter (fun _ => stop) c := by
  obtain ⟨used, hused, hcompletes⟩ := hstep.done none c' hrun
  have hlast : Completes P (step s) enter (Replaces stop c'.symbols) used none := hcompletes
  exact promptAt_of_run_done (run_iterate_of_none hrun) hused hlast.iterate_stop

/-- A first round that gives a value has taken symbols, and the other rounds go on behind them. -/
theorem promptAt_iterate_of_some
    (hends : ∀ s, Writable P (iterate step s) round (fun _ => stop))
    (hstep : PromptAt P limit room (step s) enter (leaveRound round stop) c)
    (hrun : (step s).run P limit room _ c = .done (some s') c')
    (hlt : c'.remaining < c.remaining)
    (hnext : PromptAt P limit room (iterate step s') (Replaces round c'.symbols) (fun _ => stop)
      c') :
    PromptAt P limit room (iterate step s) enter (fun _ => stop) c := by
  obtain ⟨used, hused, hcompletes⟩ := hstep.done (some s') c' hrun
  have hne : used ≠ [] := by
    rintro rfl
    rw [← c.length_symbols, ← c'.length_symbols, hused, List.nil_append] at hlt
    exact absurd hlt (Nat.lt_irrefl _)
  constructor
  · intro v c₁ hdone
    rw [run_iterate_of_some hrun hlt] at hdone
    obtain ⟨used', hused', hcompletes'⟩ := hnext.done v c₁ hdone
    exact ⟨used ++ used', by rw [hused, hused', List.append_assoc],
      hcompletes.iterate_step hne hcompletes'⟩
  · intro expected found span c₁ hfailed
    rw [run_iterate_of_some hrun hlt] at hfailed
    obtain ⟨used', hused', hmore⟩ := hnext.failed expected found span c₁ hfailed
    refine ⟨used ++ used', by rw [hused, hused', List.append_assoc], fun next hdemand => ?_⟩
    rcases hdemand.append with hdemand | ⟨rfl, rfl, -⟩
    · obtain ⟨more, v, hlast⟩ := hmore next hdemand
      refine ⟨more, v, ?_⟩
      rw [List.append_assoc]
      exact hcompletes.iterate_step hne hlast
    · -- nothing is demanded behind the round itself, which an end of the rounds completes
      obtain ⟨ts, v, hlast⟩ := hends s'
      rw [List.append_nil]
      exact ⟨ts, v, (hcompletes.mono (fun _ => id) fun _ => .inl).iterate_step hne hlast⟩

end Rounds

/-- Prompt rounds are prompt together, if each that is not the last one takes a token. -/
theorem prompt_iterate {step : σ → Parser Tree (Option σ)}
    (hstep : ∀ s c, PromptAt P limit room (step s) (Replaces round c.symbols)
      (leaveRound round stop) c)
    (hstop : ∀ s, ∃ ts : List Filler, Completes P (step s) round stop (ts.map Filler.symbol) none)
    (hmoves : LoopMoves P σ step) (s : σ) :
    Prompt P limit room (iterate step s) round (fun _ => stop) := by
  have hends := writable_iterate hstop
  refine ⟨hends s, fun c => ?_⟩
  -- by the number of symbols ahead of the round
  induction hn : c.remaining using Nat.strongRecOn generalizing s c with
  | ind n ih =>
    subst hn
    cases hrun : (step s).run P limit room _ c with
    | failed error c' => exact promptAt_iterate_of_failed hends (hstep s c) hrun
    | done o c' =>
      cases o with
      | none => exact promptAt_iterate_of_none (hstep s c) hrun
      | some s' =>
        have hlt := hmoves limit room s s' c c' hrun
        exact promptAt_iterate_of_some hends (hstep s c) hrun hlt (ih c'.remaining hlt s' c' rfl)

variable {p : Parser Tree (Option α)} {item : Parser Tree α} {enter fit : List Symbol → Prop}
  {leave : α → List Symbol → Prop}

theorem prompt_many
    (hp : ∀ c, PromptAt P limit room p (Replaces round c.symbols) (leaveRound round stop) c)
    (hstop : ∃ ts : List Filler, Completes P p round stop (ts.map Filler.symbol) none)
    (hmoves : LoopMoves P (List α) (collecting p)) :
    Prompt P limit room (many p) round (fun _ => stop) := by
  refine prompt_iterate (fun found c => ?_) (fun found => ?_) hmoves []
  · have hround (o : Option α) : Prompt P limit room
        (match o with
          | some x => pure (some (found ++ [x]))
          | none => pure none : Parser Tree (Option (List α)))
        (leaveRound round stop o) (leaveRound round stop) := by
      cases o with
      | none => exact prompt_give fun _ => id
      | some x => exact prompt_give fun _ => id
    exact promptAt_bind' hround (fun _ _ => id) (hp c)
  · obtain ⟨ts, hcompletes⟩ := hstop
    refine ⟨ts, fun tail htail => ?_⟩
    obtain ⟨hin, hread⟩ := hcompletes tail htail
    exact ⟨hin, reads_bind hread (reads_pure none tail)⟩

/-- A repetition of what may be left out. -/
theorem prompt_many_optional (hp : Prompt P limit room p fit (fun _ => fit))
    (hstop : ∀ ss, fit ss → Reads P p ss none ss)
    (hmoves : LoopMoves P (List α) (collecting p)) :
    Prompt P limit room (many p) fit (fun _ => fit) := by
  refine prompt_many (fun c => (hp.promptAt c).mono (fun _ => id) fun o ss hss => ?_)
    ⟨[], fun tail htail => ⟨htail, hstop tail htail⟩⟩ hmoves
  cases o with
  | none => exact hss
  | some x => exact hss

/-- Items with commas between them. An item is left by a comma, or by what ends the list. -/
theorem strict_commaSeparated (hitem : Strict P limit room item enter leave)
    (hcomma : ∀ v ss, StartsWith Operator.comma ss → leave v ss)
    (hfit : ∀ v ss, fit ss → leave v ss)
    (hne : ∀ ss, fit ss → ¬ StartsWith Operator.comma ss)
    (hmoves : LoopMoves P (List α) (collecting (behind? Operator.comma item))) :
    Strict P limit room (commaSeparated item) enter (fun _ => fit) := by
  have hmany : Prompt P limit room (many (behind? Operator.comma item))
      (fun ss => StartsWith Operator.comma ss ∨ fit ss) (fun _ => fit) := by
    have hround : Prompt P limit room (item >>= fun v => pure (some v)) enter
        (leaveRound (fun ss => StartsWith Operator.comma ss ∨ fit ss) fit) :=
      prompt_bind (fun v => prompt_pure (some v))
        (fun v ss hss => hss.elim (hcomma v ss) (hfit v ss)) hitem.prompt
    have hitem? : Prompt P limit room (behind? Operator.comma item)
        (fun ss => StartsWith Operator.comma ss ∨ fit ss)
        (leaveRound (fun ss => StartsWith Operator.comma ss ∨ fit ss) fit) :=
      prompt_accept_either hround (prompt_give fun _ => id) hne
    exact prompt_many hitem?.promptAt
      ⟨[], fun tail htail => ⟨.inr htail, reads_behind_none (hne tail htail)⟩⟩ hmoves
  exact strict_bind
    (fun v => prompt_bind (fun others => prompt_pure (v :: others)) (fun _ _ => id) hmany)
    (fun v ss hss => hss.elim (hcomma v ss) (hfit v ss)) hitem

theorem strict_parenthesized {p : Parser Tree α}
    (hp : Prompt P limit room p enter fun _ => StartsWith Operator.rightParen) :
    Strict P limit room (parenthesized p) (StartsWith Operator.leftParen) (fun _ _ => True) := by
  have hclose (v : α) : Prompt P limit room (expect Operator.rightParen >>= fun _ => pure v)
      (StartsWith Operator.rightParen) (fun _ _ => True) :=
    (strict_bind (fun _ => prompt_pure v) (fun _ _ _ => trivial)
      (strict_expect Operator.rightParen)).prompt
  exact strict_expect_bind (prompt_bind hclose (fun _ _ => id) hp)

theorem strict_identifierList
    (hmoves : LoopMoves P (List String) (collecting (behind? Operator.comma identifier))) :
    Strict P limit room identifierList (StartsWith Operator.leftParen) (fun _ _ => True) := by
  refine strict_parenthesized (strict_commaSeparated strict_identifier (fun _ _ _ => trivial)
    (fun _ _ _ => trivial) (fun ss hss hcomma => ?_) hmoves).prompt
  rw [StartsWith, hcomma] at hss
  cases hss

end Repetition

end SqlGrammar.Parser
