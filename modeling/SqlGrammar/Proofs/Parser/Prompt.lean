import SqlGrammar.Proofs.Parser.Combinators
import SqlGrammar.Proofs.Parser.Expected
import SqlGrammar.Proofs.Parser.Throughout

/-!
# Errors that are neither late nor wrong

A parser is prompt if it never reads on behind the place where something is wrong, and if it names
there only what it would accept: whatever it has taken when it fails can be completed, and so it can
with each terminal behind it that the error names. Where the parser gives a value, the tokens behind
may be exchanged for others as long as they may follow that value.

What may follow is a matter of what stands there (`leave`) or of what stood there before: symbols
that look like the old ones (`LooksLike`) are as good as those. In turn a parser that is to stand
behind another one has to say what it may start with (`enter`). The rules below follow the forms of
parsers; what a parser may leave must be what the next one may enter.
-/

set_option autoImplicit false

namespace SqlGrammar

/-! ## Symbols in the place of others -/

/-- How many of the symbols behind one of this kind are looked at together with it. -/
def TokenKind.reach : TokenKind → Nat
  | .keyword .IF | .keyword .FOR => 2
  | .keyword .NOT | .keyword .ON | .keyword .GROUP | .keyword .ORDER | .keyword .INDEXED
  | .keyword .DEFAULT | .keyword .NO | .operator .comma => 1
  | _ => 0

namespace Parser

/-- The new symbols start as the old ones do, as far as anyone looks. -/
def LooksLike (old new : List Symbol) : Prop :=
  ∀ n, n ≤ (kindAhead old 0).reach → kindAhead new n = kindAhead old n

/-- The new symbols may take the place of the old ones: they are fit for it, or look like them. -/
def Replaces (fit : List Symbol → Prop) (old new : List Symbol) : Prop :=
  fit new ∨ LooksLike old new

section Replaces

variable {fit fit' : List Symbol → Prop} {old new ss : List Symbol} {s : Symbol}

theorem LooksLike.kind (h : LooksLike old new) : kindAhead new 0 = kindAhead old 0 :=
  h 0 (Nat.zero_le _)

theorem LooksLike.refl (ss : List Symbol) : LooksLike ss ss := fun _ _ => rfl

theorem looksLike_of_kind (h : kindAhead new 0 = kindAhead old 0)
    (hreach : (kindAhead old 0).reach = 0) : LooksLike old new := by
  intro n hn
  rw [hreach, Nat.le_zero] at hn
  rw [hn]
  exact h

theorem looksLike_cons (hs : s.kind.reach = 0) : LooksLike (s :: old) (s :: new) :=
  looksLike_of_kind rfl hs

/-- A symbol of longer reach must be followed by one of the same kind. -/
theorem looksLike_cons_of_next (hs : s.kind.reach ≤ 1) (h : kindAhead new 0 = kindAhead old 0) :
    LooksLike (s :: old) (s :: new) := by
  intro n hn
  rw [kindAhead_cons_zero] at hn
  cases n with
  | zero => rfl
  | succ n =>
    obtain rfl : n = 0 := by omega
    exact h

theorem Replaces.mono (h : Replaces fit old new) (himp : ∀ ss, fit ss → fit' ss) :
    Replaces fit' old new :=
  h.imp (himp new) id

/-- What holds of the kind of all that is fit, and of the old kind, holds of whatever `Replaces` the
old symbols. -/
theorem Replaces.kind {p : TokenKind → Prop} (h : Replaces fit old new)
    (hfit : fit new → p (kindAhead new 0)) (hold : p (kindAhead old 0)) : p (kindAhead new 0) := by
  rcases h with h | h
  · exact hfit h
  · rw [h.kind]
    exact hold

theorem Replaces.kindAt {c : Cursor} {p : TokenKind → Prop} (h : Replaces fit c.symbols new)
    (hfit : fit new → p (kindAhead new 0)) (hold : p (c.kindAt 0)) : p (kindAhead new 0) :=
  h.kind hfit (c.kindAt_eq 0 ▸ hold)

theorem terminalsAhead_congr {ts : List Terminal} :
    ∀ {m : Nat}, (∀ n, n < ts.length → kindAhead new (m + n) = kindAhead old (m + n)) →
      terminalsAhead new m ts = terminalsAhead old m ts := by
  induction ts with
  | nil => exact fun _ => rfl
  | cons t ts ih =>
    intro m h
    have hfirst : kindAhead new m = kindAhead old m := h 0 (Nat.succ_pos _)
    rw [terminalsAhead, terminalsAhead, hfirst]
    refine congrArg _ (ih fun n hn => ?_)
    have hnext := h (n + 1) (Nat.succ_lt_succ hn)
    rwa [← Nat.add_assoc, Nat.add_right_comm] at hnext

theorem kindAhead_of_terminalsAhead {ts : List Terminal} :
    ∀ {m : Nat}, terminalsAhead ss m ts = true →
      ∀ n (h : n < ts.length), kindAhead ss (m + n) = ts[n].kind := by
  induction ts with
  | nil => exact fun _ n h => absurd h (Nat.not_lt_zero n)
  | cons t ts ih =>
    intro m hall n hn
    rw [terminalsAhead, Bool.and_eq_true] at hall
    cases n with
    | zero => exact Terminal.accepts_iff.1 hall.1
    | succ n =>
      have hnext := ih hall.2 n (Nat.lt_of_succ_lt_succ hn)
      rwa [Nat.add_right_comm, Nat.add_assoc] at hnext

theorem terminalsAhead_cons_of_kind {t : Terminal} {ts : List Terminal} (hs : s.kind = t.kind)
    (h : terminalsAhead ss 0 ts = true) : terminalsAhead (s :: ss) 0 (t :: ts) = true := by
  rw [terminalsAhead, terminalsAhead_cons_succ, h, Bool.and_true]
  exact Terminal.accepts_iff.2 hs

/-- Both start with the same terminals, which are all that the `reach` of the first covers. -/
theorem looksLike_of_terminalsAhead {t : Terminal} {ts : List Terminal}
    (hold : terminalsAhead old 0 (t :: ts) = true) (hnew : terminalsAhead new 0 (t :: ts) = true)
    (hreach : t.kind.reach ≤ ts.length) : LooksLike old new := by
  intro n hn
  have hall := kindAhead_of_terminalsAhead hold
  have hfirst : kindAhead old 0 = t.kind := hall 0 (Nat.succ_pos _)
  rw [hfirst] at hn
  have hlt : n < (t :: ts).length := Nat.lt_succ_of_le (Nat.le_trans hn hreach)
  have hsame := (kindAhead_of_terminalsAhead hnew n hlt).trans (hall n hlt).symm
  rwa [Nat.zero_add] at hsame

/-- Terminals that are not ahead do not come to be ahead by symbols that are `LooksLike` the old
ones, if the `reach` of the first goes as far as the last. -/
theorem LooksLike.terminalsAhead_false {t : Terminal} {ts : List Terminal} (h : LooksLike old new)
    (hreach : ts.length ≤ t.kind.reach) (hfalse : terminalsAhead old 0 (t :: ts) = false) :
    terminalsAhead new 0 (t :: ts) = false := by
  rw [Bool.eq_false_iff]
  intro htrue
  have hall := kindAhead_of_terminalsAhead htrue
  have hkind : kindAhead old 0 = t.kind := h.kind ▸ hall 0 (Nat.succ_pos _)
  have hsame : terminalsAhead new 0 (t :: ts) = terminalsAhead old 0 (t :: ts) := by
    refine terminalsAhead_congr fun n hn => h _ ?_
    rw [hkind, Nat.zero_add]
    exact Nat.le_trans (Nat.le_of_lt_succ hn) hreach
  rw [hsame, hfalse] at htrue
  cases htrue

end Replaces

/-! ## What completions are made of -/

end Parser

/-- What a completion is made of: terminals, names and a digit. -/
inductive Filler where
  | terminal (t : Terminal)
  | name (own : String)
  | digit

/-- The symbol that is filled in. -/
def Filler.symbol : Filler → Symbol
  | terminal t => t.symbol
  | name own => .name own
  | digit => .leaf (.number "1")

namespace Parser

/-- The terminal stands ahead. -/
def StartsWith (t : Terminal) (ss : List Symbol) : Prop := kindAhead ss 0 = t.kind

theorem not_startsWith_nil (t : Terminal) : ¬ StartsWith t [] :=
  fun h => t.kind_ne_eof (h.symm.trans (kindAhead_nil 0))

theorem startsWith_of_terminalsAhead {t : Terminal} {ts : List Terminal} {ss : List Symbol}
    (h : terminalsAhead ss 0 (t :: ts) = true) : StartsWith t ss :=
  kindAhead_of_terminalsAhead h 0 (Nat.succ_pos _)

theorem StartsWith.terminalsAhead {t : Terminal} {ss : List Symbol} (h : StartsWith t ss) :
    terminalsAhead ss 0 [t] = true := by
  rw [Parser.terminalsAhead, Parser.terminalsAhead, Bool.and_true]
  exact Terminal.accepts_iff.2 h

/-- A name stands ahead. -/
def StartsName (ss : List Symbol) : Prop := (kindAhead ss 0).isIdentifier = true

/-! ## Completing -/

variable {G : Type} {Tree : G → Type} {α β σ : Type} {P : Productions Tree}

/-- Before anything that it may leave, the symbols are what the parser reads as the value, and it
may enter there. -/
def Completes (P : Productions Tree) (p : Parser Tree α) (enter leave : List Symbol → Prop)
    (ss : List Symbol) (v : α) : Prop :=
  ∀ tail, leave tail → enter (ss ++ tail) ∧ Reads P p (ss ++ tail) v tail

/-- There are tokens that the parser reads. -/
def Writable (P : Productions Tree) (p : Parser Tree α) (enter : List Symbol → Prop)
    (leave : α → List Symbol → Prop) : Prop :=
  ∃ (ts : List Filler) (v : α), Completes P p enter (leave v) (ts.map Filler.symbol) v

/-- Behind these symbols the parser can read what is filled in next, and something behind it. -/
def Completable (P : Productions Tree) (p : Parser Tree α) (enter : List Symbol → Prop)
    (leave : α → List Symbol → Prop) (used : List Symbol) (next : List Filler) : Prop :=
  ∃ (more : List Filler) (v : α),
    Completes P p enter (leave v) (used ++ (next ++ more).map Filler.symbol) v

/-- There are tokens that the parser reads which start with the terminal. -/
def Offers (P : Productions Tree) (p : Parser Tree α) (enter : List Symbol → Prop)
    (leave : α → List Symbol → Prop) (t : Terminal) : Prop :=
  Completable P p enter leave [] [.terminal t]

section Completes

variable {p : Parser Tree α} {f : α → Parser Tree β}
  {enter enter' mid leave leave' : List Symbol → Prop}
  {leaveP : α → List Symbol → Prop} {leaveF : β → List Symbol → Prop}
  {ss ss' used used' : List Symbol} {next : List Filler} {v : α} {w : β} {t : Terminal}

theorem Completes.mono (h : Completes P p enter leave ss v) (henter : ∀ ss, enter ss → enter' ss)
    (hleave : ∀ ss, leave' ss → leave ss) : Completes P p enter' leave' ss v := by
  intro tail htail
  obtain ⟨hin, hread⟩ := h tail (hleave tail htail)
  exact ⟨henter _ hin, hread⟩

theorem completes_pure (v : α) : Completes P (pure v) leave leave [] v :=
  fun tail htail => ⟨htail, reads_pure v tail⟩

theorem completes_bind (hp : Completes P p enter mid ss v)
    (hf : Completes P (f v) mid leave ss' w) :
    Completes P (p >>= f) enter leave (ss ++ ss') w := by
  intro tail htail
  obtain ⟨hmid, hreadF⟩ := hf tail htail
  obtain ⟨hin, hreadP⟩ := hp (ss' ++ tail) hmid
  rw [List.append_assoc]
  exact ⟨hin, reads_bind hreadP hreadF⟩

theorem Writable.mono {leaveP' : α → List Symbol → Prop} (h : Writable P p enter leaveP)
    (henter : ∀ ss, enter ss → enter' ss) (hleave : ∀ v ss, leaveP' v ss → leaveP v ss) :
    Writable P p enter' leaveP' := by
  obtain ⟨ts, v, h⟩ := h
  exact ⟨ts, v, h.mono henter (hleave v)⟩

theorem writable_pure {leave : α → List Symbol → Prop} (v : α) :
    Writable P (pure v) (leave v) leave :=
  ⟨[], v, completes_pure v⟩

theorem Completes.writable_bind {ts : List Filler}
    (hp : Completes P p enter mid (ts.map Filler.symbol) v) (hf : Writable P (f v) mid leaveF) :
    Writable P (p >>= f) enter leaveF := by
  obtain ⟨ts', w, hf⟩ := hf
  refine ⟨ts ++ ts', w, ?_⟩
  rw [List.map_append]
  exact completes_bind hp hf

theorem Writable.completable (h : Writable P p enter leaveP) :
    Completable P p enter leaveP [] [] := h

theorem Completable.mono {leaveP' : α → List Symbol → Prop}
    (h : Completable P p enter leaveP used next) (henter : ∀ ss, enter ss → enter' ss)
    (hleave : ∀ v ss, leaveP' v ss → leaveP v ss) :
    Completable P p enter' leaveP' used next := by
  obtain ⟨more, v, h⟩ := h
  exact ⟨more, v, h.mono henter (hleave v)⟩

/-- What another parser reads can be completed to the same, wherever this one does as the other. -/
theorem Completable.of_reads {p' : Parser Tree α} (h : Completable P p enter leaveP used next)
    (hreads : ∀ ss v rest, enter ss → Reads P p ss v rest → enter' ss ∧ Reads P p' ss v rest) :
    Completable P p' enter' leaveP used next := by
  obtain ⟨more, v, hcompletes⟩ := h
  refine ⟨more, v, fun tail htail => ?_⟩
  obtain ⟨hin, hread⟩ := hcompletes tail htail
  exact hreads _ _ _ hin hread

/-- Behind what completes the first parser, tokens of the second are filled in, which `Writable`
gives. -/
theorem Completable.bind (hp : Completable P p enter leaveP used next)
    (hf : ∀ v, Writable P (f v) (leaveP v) leaveF) :
    Completable P (p >>= f) enter leaveF used next := by
  obtain ⟨more, v, hcompletes⟩ := hp
  obtain ⟨ts, w, hlast⟩ := hf v
  refine ⟨more ++ ts, w, ?_⟩
  rw [← List.append_assoc next, List.map_append, ← List.append_assoc]
  exact completes_bind hcompletes hlast

theorem Completes.completable_bind (hp : Completes P p enter mid used v)
    (hf : Completable P (f v) mid leaveF used' next) :
    Completable P (p >>= f) enter leaveF (used ++ used') next := by
  obtain ⟨more, w, hcompletes⟩ := hf
  refine ⟨more, w, ?_⟩
  rw [List.append_assoc]
  exact completes_bind hp hcompletes

/-- What `Offers` a terminal can be read, by that terminal first. -/
theorem Offers.writable (h : Offers P p enter leaveP t) : Writable P p enter leaveP := by
  obtain ⟨more, v, hcompletes⟩ := h
  rw [List.nil_append] at hcompletes
  exact ⟨[.terminal t] ++ more, v, hcompletes⟩

end Completes

/-! ## Prompt parsers -/

/-- What has to be possible behind the symbols that a parser has taken when it fails: to go on in
some way, if there are any, and to go on with each terminal that the error names, unless it is
refused everywhere. -/
inductive Demanded (used : List Symbol) (expected : List String) : List Filler → Prop
  | something (h : used ≠ []) : Demanded used expected []
  | named {t : Terminal} (h : t ∈ Terminal.named expected) (haccepted : t.isRefused = false) :
      Demanded used expected [.terminal t]

/-- What is demanded behind all symbols is demanded behind the last of them, unless there are none
of these. -/
theorem Demanded.append {used used' : List Symbol} {expected : List String} {next : List Filler}
    (h : Demanded (used ++ used') expected next) :
    Demanded used' expected next ∨ (next = [] ∧ used' = [] ∧ used ≠ []) := by
  cases h with
  | something hne =>
    by_cases hnil : used' = []
    · subst hnil
      rw [List.append_nil] at hne
      exact .inr ⟨rfl, rfl, hne⟩
    · exact .inl (.something hnil)
  | named hmem haccepted => exact .inl (.named hmem haccepted)

/-- At a cursor, the parser is prompt: what it takes for a value is taken as well before anything
else that it may leave, and what it has taken before it fails can be completed, also with whatever
terminal the error names. If it has taken nothing, then it need not go on without one. -/
structure PromptAt (P : Productions Tree) (limit room : Nat) (p : Parser Tree α)
    (enter : List Symbol → Prop) (leave : α → List Symbol → Prop) (c : Cursor) : Prop where
  done : ∀ v c', p.run P limit room α c = .done v c' →
    ∃ used, c.symbols = used ++ c'.symbols ∧
      Completes P p enter (Replaces (leave v) c'.symbols) used v
  failed : ∀ expected found span c',
    p.run P limit room α c = .failed (.unexpected expected found span) c' →
    ∃ used, c.symbols = used ++ c'.symbols ∧
      ∀ next, Demanded used expected next → Completable P p enter leave used next

/-- The parser is prompt at every cursor, and there are tokens that it reads. -/
structure Prompt (P : Productions Tree) (limit room : Nat) (p : Parser Tree α)
    (enter : List Symbol → Prop) (leave : α → List Symbol → Prop) : Prop where
  writable : Writable P p enter leave
  promptAt : ∀ c, PromptAt P limit room p (Replaces enter c.symbols) leave c

/-- The parser is prompt, and what it reads is fit to enter whatever stood there before. -/
structure Strict (P : Productions Tree) (limit room : Nat) (p : Parser Tree α)
    (enter : List Symbol → Prop) (leave : α → List Symbol → Prop) : Prop where
  writable : Writable P p enter leave
  promptAt : ∀ c, PromptAt P limit room p enter leave c

section Rules

variable {limit room : Nat} {p q : Parser Tree α} {f : α → Parser Tree β}
  {enter enter' fit : List Symbol → Prop} {leave leave' : α → List Symbol → Prop}
  {leaveF : β → List Symbol → Prop} {c c' : Cursor}

theorem PromptAt.mono (h : PromptAt P limit room p enter leave c)
    (henter : ∀ ss, enter ss → enter' ss) (hleave : ∀ v ss, leave' v ss → leave v ss) :
    PromptAt P limit room p enter' leave' c where
  done v c' hrun := by
    obtain ⟨used, hused, hcompletes⟩ := h.done v c' hrun
    exact ⟨used, hused, hcompletes.mono henter fun _ htail => htail.mono (hleave v)⟩
  failed expected found span c' hrun := by
    obtain ⟨used, hused, hmore⟩ := h.failed expected found span c' hrun
    exact ⟨used, hused, fun next hnext => (hmore next hnext).mono henter hleave⟩

theorem Strict.prompt (h : Strict P limit room p enter leave) :
    Prompt P limit room p enter leave :=
  ⟨h.writable, fun c => (h.promptAt c).mono (fun _ => .inl) fun _ _ => id⟩

theorem Prompt.mono (h : Prompt P limit room p enter leave) (henter : ∀ ss, enter ss → enter' ss)
    (hleave : ∀ v ss, leave' v ss → leave v ss) : Prompt P limit room p enter' leave' :=
  ⟨h.writable.mono henter hleave,
    fun c => (h.promptAt c).mono (fun _ hss => hss.mono henter) hleave⟩

theorem Strict.mono (h : Strict P limit room p enter leave) (henter : ∀ ss, enter ss → enter' ss)
    (hleave : ∀ v ss, leave' v ss → leave v ss) : Strict P limit room p enter' leave' :=
  ⟨h.writable.mono henter hleave, fun c => (h.promptAt c).mono henter hleave⟩

/-- Without anything asked of the symbols, `Prompt` is `Strict`. -/
theorem Prompt.anywhere (h : Prompt P limit room p enter leave) :
    Strict P limit room p (fun _ => True) leave :=
  ⟨h.writable.mono (fun _ _ => trivial) fun _ _ => id,
    fun c => (h.promptAt c).mono (fun _ _ => trivial) fun _ _ => id⟩

/-- A parser that may leave anything may leave some of it. -/
theorem Strict.leavesAny (h : Strict P limit room p enter (fun _ _ => True)) :
    Strict P limit room p enter leave :=
  h.mono (fun _ => id) fun _ _ _ => trivial

/-! ### Single steps -/

/-- A parser that fails where it starts must `Offers` each terminal that it names and that is not
refused. -/
theorem promptAt_of_failed {error : ParseError} (h : p.run P limit room α c = .failed error c)
    (hoffers : ∀ t ∈ Terminal.named error.expected, t.isRefused = false →
      Offers P p enter leave t) :
    PromptAt P limit room p enter leave c where
  done v c' hrun := by
    rw [h] at hrun
    cases hrun
  failed expected found span c' hrun := by
    rw [h] at hrun
    cases hrun
    refine ⟨[], rfl, fun next hnext => ?_⟩
    cases hnext with
    | something hne => exact absurd rfl hne
    | named hmem haccepted => exact hoffers _ hmem haccepted

/-- Nothing is asked of a parser that fails where it starts and names no terminal. -/
theorem promptAt_of_nameless {error : ParseError} (h : p.run P limit room α c = .failed error c)
    (hnone : Terminal.named error.expected = []) : PromptAt P limit room p enter leave c := by
  refine promptAt_of_failed h fun t ht => ?_
  rw [hnone] at ht
  cases ht

theorem promptAt_of_mismatch {expected : List String}
    (h : p.run P limit room α c = .failed (c.unexpected expected) c)
    (hnone : Terminal.named expected = []) : PromptAt P limit room p enter leave c :=
  promptAt_of_nameless h hnone

theorem promptAt_unexpected {expected : List String} (hnone : Terminal.named expected = []) :
    PromptAt P limit room (unexpected expected : Parser Tree α) enter leave c :=
  promptAt_of_mismatch (run_unexpected limit room c expected) hnone

theorem promptAt_unsupported (construct : String) :
    PromptAt P limit room (unsupported construct : Parser Tree α) enter leave c :=
  promptAt_of_nameless (run_unsupported limit room c construct) rfl

/-- Where a parser gives a value, it is prompt if it does so again before other symbols. -/
theorem promptAt_of_run_done {v : α} {c' : Cursor} {used : List Symbol}
    (hrun : p.run P limit room α c = .done v c') (hused : c.symbols = used ++ c'.symbols)
    (h : Completes P p enter (Replaces (leave v) c'.symbols) used v) :
    PromptAt P limit room p enter leave c where
  done w c₁ hdone := by
    rw [hrun] at hdone
    cases hdone
    exact ⟨used, hused, h⟩
  failed expected found span c₁ hfailed := by
    rw [hrun] at hfailed
    cases hfailed

theorem promptAt_pure {v : α} (h : ∀ tail, Replaces (leave v) c.symbols tail → enter tail) :
    PromptAt P limit room (pure v) enter leave c :=
  promptAt_of_run_done (run_pure limit room c v) rfl ((completes_pure v).mono h fun _ => id)

theorem prompt_pure (v : α) : Prompt P limit room (pure v) (leave v) leave :=
  ⟨writable_pure v, fun _ => promptAt_pure fun _ => id⟩

theorem prompt_give {v : α} (h : ∀ ss, leave v ss → enter ss) :
    Prompt P limit room (pure v) enter leave :=
  (prompt_pure v).mono h fun _ _ => id

/-- What only gives a value lets through whatever is asked of the symbols. -/
theorem prompt_of_pure (h : ∃ v, p = pure v) : Prompt P limit room p fit (fun _ => fit) := by
  obtain ⟨v, rfl⟩ := h
  exact prompt_give fun _ => id

/-- The parser does what another one does behind symbols that it takes first, perhaps on another
level. What stands behind them must be fit for the other parser, and the whole for this one. -/
theorem promptAt_step {room' : Nat} {taken : List Symbol}
    (hsymbols : c.symbols = taken ++ c'.symbols)
    (hrun : p.run P limit room α c = q.run P limit room' α c')
    (hreads : ∀ ss v rest, fit ss → Reads P q ss v rest → Reads P p (taken ++ ss) v rest)
    (henter : ∀ ss, fit ss → enter (taken ++ ss))
    (hq : PromptAt P limit room' q fit leave c')
    (hwritable : taken ≠ [] → Writable P q fit leave) :
    PromptAt P limit room p enter leave c := by
  -- whatever completes the other parser completes this one
  have hlift : ∀ {ss v leave}, Completes P q fit leave ss v →
      Completes P p enter leave (taken ++ ss) v := by
    intro ss v leave hcompletes tail htail
    obtain ⟨hfit, hread⟩ := hcompletes tail htail
    rw [List.append_assoc]
    exact ⟨henter _ hfit, hreads _ _ _ hfit hread⟩
  have hliftMore : ∀ {used next}, Completable P q fit leave used next →
      Completable P p enter leave (taken ++ used) next := by
    rintro used next ⟨more, v, hcompletes⟩
    refine ⟨more, v, ?_⟩
    rw [List.append_assoc]
    exact hlift hcompletes
  constructor
  · intro v c₁ hdone
    rw [hrun] at hdone
    obtain ⟨used, hused, hcompletes⟩ := hq.done v c₁ hdone
    exact ⟨taken ++ used, by rw [hsymbols, hused, List.append_assoc], hlift hcompletes⟩
  · intro expected found span c₁ hfailed
    rw [hrun] at hfailed
    obtain ⟨used, hused, hmore⟩ := hq.failed expected found span c₁ hfailed
    refine ⟨taken ++ used, by rw [hsymbols, hused, List.append_assoc], fun next hnext => ?_⟩
    rcases hnext.append with hnext | ⟨rfl, rfl, hne⟩
    · exact hliftMore (hmore next hnext)
    · exact hliftMore (hwritable hne).completable

/-- `PromptAt` goes through `>>=` if the second parser is `Prompt` behind whatever the first may
leave. -/
theorem promptAt_bind (hp : PromptAt P limit room p enter leave c)
    (hf : ∀ v c', p.run P limit room α c = .done v c' →
      PromptAt P limit room (f v) (Replaces (leave v) c'.symbols) leaveF c')
    (hwritable : ∀ v, Writable P (f v) (leave v) leaveF) :
    PromptAt P limit room (p >>= f) enter leaveF c := by
  constructor
  · intro w c₂ hdone
    obtain ⟨v, c₁, hfirst, hnext⟩ := exists_of_run_bind hdone
    obtain ⟨used₁, hused₁, hcompletes₁⟩ := hp.done v c₁ hfirst
    obtain ⟨used₂, hused₂, hcompletes₂⟩ := (hf v c₁ hfirst).done w c₂ hnext
    exact ⟨used₁ ++ used₂, by rw [hused₁, hused₂, List.append_assoc],
      completes_bind hcompletes₁ hcompletes₂⟩
  · intro expected found span c₂ hfailed
    cases hfirst : p.run P limit room α c with
    | failed error c₁ =>
      rw [run_bind_of_failed hfirst] at hfailed
      cases hfailed
      obtain ⟨used, hused, hmore⟩ := hp.failed expected found span c₂ hfirst
      exact ⟨used, hused, fun next hnext => (hmore next hnext).bind hwritable⟩
    | done v c₁ =>
      rw [run_bind_of_done hfirst] at hfailed
      obtain ⟨used₁, hused₁, hcompletes₁⟩ := hp.done v c₁ hfirst
      obtain ⟨used₂, hused₂, hmore⟩ := (hf v c₁ hfirst).failed expected found span c₂ hfailed
      refine ⟨used₁ ++ used₂, by rw [hused₁, hused₂, List.append_assoc], fun next hnext => ?_⟩
      rcases hnext.append with hnext | ⟨rfl, rfl, hne⟩
      · exact hcompletes₁.completable_bind (hmore next hnext)
      · -- nothing has been taken behind the value
        exact hcompletes₁.completable_bind
          ((hwritable v).mono (fun _ => .inl) fun _ _ => id).completable

section Bind

variable {enterF : α → List Symbol → Prop} (hf : ∀ v, Prompt P limit room (f v) (enterF v) leaveF)
  (hfollows : ∀ v ss, enterF v ss → leave v ss)

include hf hfollows

theorem Writable.bind (hp : Writable P p enter leave) : Writable P (p >>= f) enter leaveF := by
  obtain ⟨ts, v, hcompletes⟩ := hp
  exact hcompletes.writable_bind ((hf v).writable.mono (hfollows v) fun _ _ => id)

theorem promptAt_bind' (hp : PromptAt P limit room p enter leave c) :
    PromptAt P limit room (p >>= f) enter leaveF c :=
  promptAt_bind hp
    (fun v c' _ => ((hf v).promptAt c').mono (fun _ hss => hss.mono (hfollows v)) fun _ _ => id)
    fun v => (hf v).writable.mono (hfollows v) fun _ _ => id

theorem prompt_bind (hp : Prompt P limit room p enter leave) :
    Prompt P limit room (p >>= f) enter leaveF :=
  ⟨hp.writable.bind hf hfollows, fun c => promptAt_bind' hf hfollows (hp.promptAt c)⟩

theorem strict_bind (hp : Strict P limit room p enter leave) :
    Strict P limit room (p >>= f) enter leaveF :=
  ⟨hp.writable.bind hf hfollows, fun c => promptAt_bind' hf hfollows (hp.promptAt c)⟩

end Bind

end Rules

/-! ## Looking ahead -/

section Looks

variable {limit room : Nat} {p : Parser Tree α} {f : α → Parser Tree β} {p' q : Parser Tree β}
  {enter fit : List Symbol → Prop} {leave : β → List Symbol → Prop} {c : Cursor} {s : Symbol}
  {ss : List Symbol} {v : α}

/-- What only looks at the symbols ahead can be left out, if it sees as much in all that is fit. -/
theorem promptAt_of_done (hrun : p.run P limit room α c = .done v c)
    (hreads : ∀ ss, fit ss → ∃ v', Reads P p ss v' ss ∧ f v' = f v)
    (h : PromptAt P limit room (f v) (fun ss => enter ss ∧ fit ss) leave c) :
    PromptAt P limit room (p >>= f) enter leave c := by
  refine promptAt_step (List.nil_append c.symbols).symm (run_bind_of_done hrun)
    (fun ss w rest hss hread => ?_) (fun ss hss => hss.1) h (fun hne => absurd rfl hne)
  obtain ⟨v', hv', hsame⟩ := hreads ss hss.2
  rw [← hsame] at hread
  exact reads_bind hv' hread

theorem promptAt_look {f : TokenKind → Parser Tree β} (n : Nat)
    (h : PromptAt P limit room (f (c.kindAt n))
      (fun ss => enter ss ∧ f (kindAhead ss n) = f (c.kindAt n)) leave c) :
    PromptAt P limit room (look n >>= f) enter leave c :=
  promptAt_of_done (run_look limit room c n) (fun ss hss => ⟨_, reads_look n ss, hss⟩) h

/-- What is found out about the kind under the cursor is found out about the same kind again. -/
theorem promptAt_kind {f : TokenKind → Parser Tree β}
    (h : PromptAt P limit room (f (c.kindAt 0))
      (fun ss => enter ss ∧ kindAhead ss 0 = c.kindAt 0) leave c) :
    PromptAt P limit room (kind >>= f) enter leave c :=
  promptAt_look 0 (h.mono (fun _ hss => ⟨hss.1, congrArg f hss.2⟩) fun _ _ => id)

theorem promptAt_isAt {f : Bool → Parser Tree β} (t : Terminal)
    (h : PromptAt P limit room (f (t.accepts (c.kindAt 0)))
      (fun ss => enter ss ∧ t.accepts (kindAhead ss 0) = t.accepts (c.kindAt 0)) leave c) :
    PromptAt P limit room (isAt t >>= f) enter leave c :=
  promptAt_of_done (run_isAt t) (fun ss hss => ⟨_, reads_isAt t ss, congrArg f hss⟩) h

theorem promptAt_isNext {f : Bool → Parser Tree β} (t : Terminal)
    (h : PromptAt P limit room (f (t.accepts (c.kindAt 1)))
      (fun ss => enter ss ∧ f (t.accepts (kindAhead ss 1)) = f (t.accepts (c.kindAt 1))) leave c) :
    PromptAt P limit room (isNext t >>= f) enter leave c :=
  promptAt_of_done (run_isNext t) (fun ss hss => ⟨_, reads_isNext t ss, hss⟩) h

theorem promptAt_areAhead {f : Bool → Parser Tree β} (n : Nat) (ts : List Terminal)
    (h : PromptAt P limit room (f (terminalsAhead c.symbols n ts))
      (fun ss => enter ss ∧ terminalsAhead ss n ts = terminalsAhead c.symbols n ts) leave c) :
    PromptAt P limit room (areAhead n ts >>= f) enter leave c :=
  promptAt_of_done (run_areAhead ts n) (fun ss hss => ⟨_, reads_areAhead ss ts n, congrArg f hss⟩) h

/-! ## Terminals -/

/-- The parser is prompt behind a symbol, and there are tokens that it reads there. -/
structure PromptBehind (P : Productions Tree) (limit room : Nat) (q : Parser Tree β)
    (enter : List Symbol → Prop) (leave : β → List Symbol → Prop) (s : Symbol) (c : Cursor) :
    Prop where
  writable : Writable P q (fun new => enter (s :: new)) leave
  promptAt : PromptAt P limit room q (fun new => enter (s :: new)) leave c.advance

theorem Strict.behind (hq : Strict P limit room q fit leave)
    (henter : ∀ new, fit new → enter (s :: new)) :
    PromptBehind P limit room q enter leave s c :=
  ⟨hq.writable.mono henter fun _ _ => id, (hq.promptAt _).mono henter fun _ _ => id⟩

theorem Prompt.behind (hq : Prompt P limit room q fit leave) (hsymbols : c.symbols = s :: ss)
    (hs : s.kind ≠ .eof) (henter : ∀ new, Replaces fit ss new → enter (s :: new)) :
    PromptBehind P limit room q enter leave s c := by
  have hadvance : c.advance.symbols = ss := Cursor.symbols_advance hsymbols hs
  exact ⟨hq.writable.mono (fun new hnew => henter new (.inl hnew)) fun _ _ => id,
    (hq.promptAt _).mono (hadvance ▸ henter) fun _ _ => id⟩

theorem exists_symbols_of_kindAt {k : TokenKind} (h : c.kindAt 0 = k) (hk : k ≠ .eof) :
    ∃ s ss, c.symbols = s :: ss ∧ s.kind = k := by
  rw [c.kindAt_eq] at h
  cases hsymbols : c.symbols with
  | nil =>
    rw [hsymbols, kindAhead_nil] at h
    exact absurd h.symm hk
  | cons s ss =>
    rw [hsymbols, kindAhead_cons_zero] at h
    exact ⟨s, ss, rfl, h⟩

theorem symbols_eq_singleton_append (hsymbols : c.symbols = s :: ss) (hs : s.kind ≠ .eof) :
    c.symbols = [s] ++ c.advance.symbols := by
  rw [Cursor.symbols_advance hsymbols hs, hsymbols]
  rfl

theorem promptAt_advance (hsymbols : c.symbols = s :: ss) (hs : s.kind ≠ .eof)
    (hq : PromptBehind P limit room q enter leave s c) :
    PromptAt P limit room (advance >>= fun _ => q) enter leave c := by
  exact promptAt_step (symbols_eq_singleton_append hsymbols hs)
    (run_bind_of_done (run_advance limit room c))
    (fun new v rest _ hread => reads_bind (reads_advance hs) hread) (fun _ => id) hq.promptAt
    fun _ => hq.writable

/-- The token under the cursor is taken, whatever it is. -/
theorem promptAt_advance_of_ne (hne : c.kindAt 0 ≠ .eof) (hq : Strict P limit room q fit leave)
    (henter : ∀ s new, s.kind = c.kindAt 0 → fit new → enter (s :: new)) :
    PromptAt P limit room (advance >>= fun _ => q) enter leave c := by
  obtain ⟨s, ss, hsymbols, hs⟩ := exists_symbols_of_kindAt rfl hne
  exact promptAt_advance hsymbols (hs ▸ hne) (hq.behind fun new => henter s new hs)

/-- The token under the cursor is taken for its kind. -/
theorem promptAt_advance_same (hne : c.kindAt 0 ≠ .eof) (hq : Strict P limit room q fit leave)
    (henter : ∀ ss, kindAhead ss 0 = c.kindAt 0 → enter ss) :
    PromptAt P limit room (advance >>= fun _ => q)
      (fun ss => enter ss ∧ kindAhead ss 0 = c.kindAt 0) leave c :=
  promptAt_advance_of_ne hne hq fun s new hs _ => ⟨henter (s :: new) hs, hs⟩

/-- `accept` takes the terminal where it is, and the parser goes on in either case. -/
theorem promptAt_accept {f : Bool → Parser Tree β} {t : Terminal}
    (htrue : ∀ s ss, c.symbols = s :: ss → s.kind = t.kind →
      PromptBehind P limit room (f true) enter leave s c)
    (hfalse : c.kindAt 0 ≠ t.kind → PromptAt P limit room (f false)
      (fun ss => enter ss ∧ kindAhead ss 0 ≠ t.kind) leave c) :
    PromptAt P limit room (accept t >>= f) enter leave c := by
  by_cases hkind : c.kindAt 0 = t.kind
  · obtain ⟨s, ss, hsymbols, hs⟩ := exists_symbols_of_kindAt hkind t.kind_ne_eof
    exact promptAt_step (symbols_eq_singleton_append hsymbols (hs ▸ t.kind_ne_eof))
      (run_bind_of_done (run_accept_of_eq hkind))
      (fun new v rest _ hread => reads_bind (reads_accept_true hs) hread) (fun _ => id)
      (htrue s ss hsymbols hs).promptAt fun _ => (htrue s ss hsymbols hs).writable
  · exact promptAt_step (List.nil_append c.symbols).symm (run_bind_of_done (run_accept_of_ne hkind))
      (fun ss v rest hss hread => reads_bind (reads_accept_false hss.2) hread) (fun _ hss => hss.1)
      (hfalse hkind) (fun hne => absurd rfl hne)

/-- `expect` of a terminal that has to be there: without it, the error names it. -/
theorem promptAt_expect {t : Terminal}
    (hq : ∀ s ss, c.symbols = s :: ss → s.kind = t.kind →
      PromptBehind P limit room q enter leave s c)
    (hoffers : Offers P (expect t >>= fun _ => q) enter leave t) :
    PromptAt P limit room (expect t >>= fun _ => q) enter leave c := by
  by_cases hkind : c.kindAt 0 = t.kind
  · obtain ⟨s, ss, hsymbols, hs⟩ := exists_symbols_of_kindAt hkind t.kind_ne_eof
    exact promptAt_step (symbols_eq_singleton_append hsymbols (hs ▸ t.kind_ne_eof))
      (run_bind_of_done (run_expect_of_eq hkind))
      (fun new v rest _ hread => reads_bind (reads_expect hs) hread) (fun _ => id)
      (hq s ss hsymbols hs).promptAt fun _ => (hq s ss hsymbols hs).writable
  · refine promptAt_of_failed (run_bind_of_failed (run_expect_of_ne hkind)) fun u hu _ => ?_
    rwa [Terminal.mem_named_text.1 hu]

/-- Where the terminal is not there, what stands behind the choice must not be the terminal. -/
theorem promptAt_accept_or {f : Bool → Parser Tree β} {t : Terminal} (hreach : t.kind.reach = 0)
    (htrue : Prompt P limit room (f true) fit leave)
    (hne : ∀ ss, enter ss → kindAhead ss 0 ≠ t.kind)
    (hfalse : PromptAt P limit room (f false) (Replaces enter c.symbols) leave c) :
    PromptAt P limit room (accept t >>= f) (Replaces enter c.symbols) leave c := by
  refine promptAt_accept (fun s ss hsymbols hs => ?_) fun hkind => ?_
  · refine htrue.behind hsymbols (hs ▸ t.kind_ne_eof) fun new _ => ?_
    rw [hsymbols]
    exact .inr (looksLike_cons (hs ▸ hreach))
  · exact hfalse.mono (fun ss hss => ⟨hss, hss.kindAt (p := (· ≠ t.kind)) (hne ss) hkind⟩)
      fun _ _ => id

theorem prompt_accept {f : Bool → Parser Tree β} {t : Terminal} (hreach : t.kind.reach = 0)
    (htrue : Prompt P limit room (f true) fit leave)
    (hfalse : Prompt P limit room (f false) enter leave)
    (hne : ∀ ss, enter ss → kindAhead ss 0 ≠ t.kind) :
    Prompt P limit room (accept t >>= f) enter leave where
  writable := by
    obtain ⟨ts, v, hcompletes⟩ := hfalse.writable
    refine ⟨ts, v, fun tail htail => ?_⟩
    obtain ⟨hin, hread⟩ := hcompletes tail htail
    exact ⟨hin, reads_bind (reads_accept_false (hne _ hin)) hread⟩
  promptAt c := promptAt_accept_or hreach htrue hne (hfalse.promptAt c)

/-- Where the terminal is as good as what stands behind the choice, its `reach` does not matter. -/
theorem prompt_accept_either {f : Bool → Parser Tree β} {t : Terminal}
    (htrue : Prompt P limit room (f true) fit leave)
    (hfalse : Prompt P limit room (f false) enter leave)
    (hne : ∀ ss, enter ss → kindAhead ss 0 ≠ t.kind) :
    Prompt P limit room (accept t >>= f) (fun ss => StartsWith t ss ∨ enter ss) leave where
  writable := by
    obtain ⟨ts, v, hcompletes⟩ := hfalse.writable
    refine ⟨ts, v, fun tail htail => ?_⟩
    obtain ⟨hin, hread⟩ := hcompletes tail htail
    exact ⟨.inr hin, reads_bind (reads_accept_false (hne _ hin)) hread⟩
  promptAt c := by
    refine promptAt_accept (fun s ss hsymbols hs => ?_) fun hkind => ?_
    · exact htrue.behind hsymbols (hs ▸ t.kind_ne_eof) fun _ _ => .inl (.inl hs)
    · exact (hfalse.promptAt c).mono (fun ss hss =>
        ⟨hss.mono fun _ => .inr, hss.kindAt (p := (· ≠ t.kind)) (hne ss) hkind⟩) fun _ _ => id

/-- What reads a terminal before the other parser offers it. -/
theorem Writable.offers {t : Terminal} (h : Writable P q fit leave)
    (hreads : ∀ s ss v rest, s.kind = t.kind → Reads P q ss v rest → Reads P p' (s :: ss) v rest)
    (henter : ∀ s ss, s.kind = t.kind → fit ss → enter (s :: ss)) :
    Offers P p' enter leave t := by
  obtain ⟨ts, v, hcompletes⟩ := h
  refine ⟨ts, v, fun tail htail => ?_⟩
  obtain ⟨hfit, hread⟩ := hcompletes tail htail
  exact ⟨henter _ _ t.symbol_kind hfit, hreads _ _ _ _ t.symbol_kind hread⟩

theorem Writable.offers_expect {t : Terminal} (h : Writable P q fit leave)
    (henter : ∀ s ss, s.kind = t.kind → fit ss → enter (s :: ss)) :
    Offers P (expect t >>= fun _ => q) enter leave t :=
  h.offers (fun _ _ _ _ hs hread => reads_bind (reads_expect hs) hread) henter

theorem strict_expect_bind {t : Terminal} (hq : Prompt P limit room q fit leave) :
    Strict P limit room (expect t >>= fun _ => q) (StartsWith t) leave where
  writable := (hq.writable.offers_expect fun _ _ hs _ => hs).writable
  promptAt _ := promptAt_expect
    (fun _ _ hsymbols hs => hq.behind hsymbols (hs ▸ t.kind_ne_eof) fun _ _ => hs)
    (hq.writable.offers_expect fun _ _ hs _ => hs)

/-- What stands behind a terminal may be known further than by the terminal. -/
theorem Strict.behindExpected {t : Terminal} (hq : Strict P limit room q fit leave)
    (henter : ∀ s new, s.kind = t.kind → fit new → enter (s :: new)) :
    Strict P limit room (expect t >>= fun _ => q) enter leave where
  writable := (hq.writable.offers_expect henter).writable
  promptAt _ := promptAt_expect (fun s _ _ hs => hq.behind fun new => henter s new hs)
    (hq.writable.offers_expect henter)

theorem strict_expect (t : Terminal) :
    Strict P limit room (expect t) (StartsWith t) (fun _ _ => True) where
  writable := ⟨[.terminal t], (), fun _ _ => ⟨t.symbol_kind, reads_expect t.symbol_kind⟩⟩
  promptAt c := by
    by_cases hkind : c.kindAt 0 = t.kind
    · obtain ⟨s, ss, hsymbols, hs⟩ := exists_symbols_of_kindAt hkind t.kind_ne_eof
      exact promptAt_of_run_done (run_expect_of_eq hkind)
        (symbols_eq_singleton_append hsymbols (hs ▸ t.kind_ne_eof))
        fun _ _ => ⟨hs, reads_expect hs⟩
    · refine promptAt_of_failed (run_expect_of_ne hkind) fun u hu _ => ?_
      rw [Terminal.mem_named_text.1 hu]
      exact ⟨[], (), fun _ _ => ⟨t.symbol_kind, reads_expect t.symbol_kind⟩⟩

/-- `expectAll`, by induction over the terminals. -/
theorem strict_expectAll (ts : List Terminal) :
    Strict P limit room (expectAll ts) (fun ss => terminalsAhead ss 0 ts = true)
      (fun _ _ => True) := by
  induction ts with
  | nil => exact ⟨(writable_pure ()).mono (fun _ _ => rfl) fun _ _ => id,
      fun c => promptAt_pure fun _ _ => rfl⟩
  | cons t ts ih => exact ih.behindExpected fun _ _ => terminalsAhead_cons_of_kind

end Looks

end Parser

end SqlGrammar
