import SqlGrammar.Grammar.Statement
import SqlGrammar.Proofs.Commitment
import SqlGrammar.Proofs.Parser.Expected

/-!
# What stands behind a tree

A parser is steady at a cursor if what it gives there does not depend on what stands behind the
tokens ahead, as long as that starts with a token that closes whatever stands before it: a
semicolon, or a word that would add another query. The one difference that there may be is that a
query is refused because of such a word. A steady parser has also taken none of the words that the
grammar only knows in order to refuse them.

Both are shown together, as both ask of each production what it does with the kind of the token
under the cursor. The rules below follow the forms of parsers.
-/

set_option autoImplicit false

namespace SqlGrammar

/-! ## Kinds of tokens -/

namespace TokenKind

/-- Whether a token of this kind can be part of a tree. -/
def isProper : TokenKind → Bool
  | .keyword word => !word.isRefused
  | .eof => false
  | _ => true

/-- Whether a token of this kind would add another query to the one before it. -/
def addsQuery : TokenKind → Bool
  | .keyword .UNION | .keyword .INTERSECT | .keyword .EXCEPT => true
  | _ => false

/-- The kinds of tokens that close whatever stands before them. -/
inductive Closes : TokenKind → Prop
  | semicolon : Closes (.operator .semicolon)
  | union : Closes (.keyword .UNION)
  | intersect : Closes (.keyword .INTERSECT)
  | except : Closes (.keyword .EXCEPT)

/-- Each word with `addsQuery` closes what stands before it. -/
theorem closes_of_addsQuery {kind : TokenKind} (h : kind.addsQuery = true) : kind.Closes := by
  unfold addsQuery at h
  split at h
  · exact .union
  · exact .intersect
  · exact .except
  · cases h

/-- The end of the input is no closing kind, so that `Closes` is about tokens behind it. -/
theorem Closes.ne_eof {kind : TokenKind} (h : kind.Closes) : kind ≠ .eof := by
  rintro rfl
  cases h

/-- A proper kind is not the end of the input. -/
theorem ne_eof_of_isProper {kind : TokenKind} (h : kind.isProper = true) : kind ≠ .eof := by
  rintro rfl
  cases h

/-- What is found for no refused word, and not for the end of the input, is found for proper
kinds only. -/
theorem isProper_of_some {α : Type} (find : TokenKind → Option α) {kind : TokenKind} {value : α}
    (heof : find .eof = none)
    (hwords : ∀ word : Keyword, word.isRefused = true → find (.keyword word) = none)
    (h : find kind = some value) : kind.isProper = true := by
  cases kind with
  | keyword word =>
    cases hword : word.isRefused with
    | false => rw [isProper, hword, Bool.not_false]
    | true =>
      rw [hwords word hword] at h
      cases h
  | eof =>
    rw [heof] at h
    cases h
  | _ => rfl

end TokenKind

/-- Whether the terminal can be part of a tree and closes nothing. -/
def Terminal.isPlain (t : Terminal) : Bool := t.kind.isProper && t.kind != .operator .semicolon

namespace Terminal

variable {t : Terminal}

theorem isProper_of_isPlain (h : t.isPlain = true) : t.kind.isProper = true :=
  (Bool.and_eq_true_iff.1 h).1

/-- No terminal accepts the end of the input. -/
theorem not_accepts_eof (t : Terminal) : t.accepts .eof = false :=
  Bool.eq_false_iff.2 fun h => t.kind_ne_eof (Parser.Terminal.accepts_iff.1 h).symm

/-- A plain terminal accepts no closing kind: not the semicolon, and the words are refused. -/
theorem not_accepts_of_closes (h : t.isPlain = true) {kind : TokenKind} (hkind : kind.Closes) :
    t.accepts kind = false := by
  rw [Bool.eq_false_iff, Ne, Parser.Terminal.accepts_iff]
  rintro rfl
  rw [isPlain] at h
  -- of the closing kinds the semicolon is excluded, and the words are refused
  cases hkind' : t.kind <;> rw [hkind'] at h hkind <;> cases hkind <;> cases h

end Terminal

/-! ## Cursors with more behind -/

namespace Cursor

variable {c c' : Cursor} {s : Symbol} {more : List Symbol}

/-- Behind all tokens there is the end. -/
theorem kindAt_of_remaining_le {n : Nat} (h : c.remaining ≤ n) : c.kindAt n = .eof := by
  rw [kindAt_eq, kindAhead, List.getElem?_eq_none (by rwa [length_symbols])]
  rfl

theorem lt_remaining_of_ne_eof {n : Nat} (h : c.kindAt n ≠ .eof) : n < c.remaining :=
  Nat.lt_of_not_le fun hle => h (kindAt_of_remaining_le hle)

variable (hsymbols : c'.symbols = c.symbols ++ s :: more)
include hsymbols

/-- Up to the end of `c` both cursors have the same kinds ahead. -/
theorem kindAt_behind {n : Nat} (h : n < c.remaining) : c'.kindAt n = c.kindAt n := by
  rw [kindAt_eq, kindAt_eq, hsymbols, kindAhead, kindAhead,
    List.getElem?_append_left (by rwa [length_symbols])]

/-- At the end of `c` the other cursor has the first symbol behind. -/
theorem kindAt_remaining : c'.kindAt c.remaining = s.kind := by
  rw [kindAt_eq, hsymbols, kindAhead, List.getElem?_append_right (Nat.le_of_eq c.length_symbols),
    length_symbols, Nat.sub_self]
  rfl

theorem remaining_behind : c'.remaining = c.remaining + (more.length + 1) := by
  rw [← c'.length_symbols, hsymbols, List.length_append, length_symbols, List.length_cons]

/-- Both cursors may move on over a token of `c`. -/
theorem symbols_advance_behind (h : c.kindAt 0 ≠ .eof) :
    c'.advance.symbols = c.advance.symbols ++ s :: more := by
  cases hc : c.symbols with
  | nil =>
    rw [kindAt_eq, hc] at h
    exact absurd (kindAhead_nil 0) h
  | cons t ts =>
    rw [kindAt_eq, hc] at h
    rw [hc, List.cons_append] at hsymbols
    rw [symbols_advance hsymbols h, symbols_advance hc h]

/-- A closing token calls no function, and neither does the end of the input. -/
theorem callee?_behind (hs : s.kind.Closes) : c'.current.callee? = c.current.callee? := by
  cases hc : c.symbols with
  | nil =>
    rw [hc, List.nil_append] at hsymbols
    have hkind : c'.current.kind.Closes := by
      rw [← kindAt_zero, kindAt_eq, hsymbols]
      exact hs
    rw [c.callee?_current_eq, hc, Token.callee?]
    cases hkind' : c'.current.kind <;> rw [hkind'] at hkind <;> cases hkind <;> rfl
  | cons t ts =>
    rw [hc, List.cons_append] at hsymbols
    rw [callee?_current hsymbols, callee?_current hc]

end Cursor

namespace Grammar

open SqlGrammar.Parser

universe u

/-! ## Steady parsers -/

/-- What a parser replies before `more`, if without it the parser gives the value and stops before
`left`: it gives the same, unless `more` would add another query. -/
inductive Kept {α : Type} (more : List Symbol) (value : α) (left : List Symbol) : Reply α → Prop
  | done {c : Cursor} : c.symbols = left ++ more → Kept more value left (.done value c)
  | refused {c : Cursor} : (c.kindAt 0).addsQuery = true → c.symbols = more →
      Kept more value left (.failed (c.unsupported "compound SELECT") c)

/-- What follows a value that is kept is kept too, if a refusal is one of the whole. -/
theorem Kept.bind {α β : Type} {more left left' : List Symbol} {v : α} {w : β} {reply : Reply α}
    {reply' : Reply β} (h : Kept more v left reply)
    (hdone : ∀ c, reply = .done v c → c.symbols = left ++ more → Kept more w left' reply')
    (hfailed : ∀ error c, reply = .failed error c → reply' = .failed error c) :
    Kept more w left' reply' := by
  cases h with
  | done hsymbols => exact hdone _ rfl hsymbols
  | refused hadds hsymbols =>
    rw [hfailed _ _ rfl]
    exact .refused hadds hsymbols

/-- Whatever the parser gives at the cursor, it has taken proper tokens only, and it gives the same
if more stands behind the symbols ahead that starts with a closing one. -/
def Steady (limit room : Nat) {α : Type} (p : Production α) (c : Cursor) : Prop :=
  ∀ v c₁, p.run productions limit room α c = .done v c₁ →
    (∃ used, c.symbols = used ++ c₁.symbols ∧ ∀ s ∈ used, s.kind.isProper = true) ∧
    ∀ (c' : Cursor) (s : Symbol) (more : List Symbol), s.kind.Closes →
      c'.symbols = c.symbols ++ s :: more →
        Kept (s :: more) v c₁.symbols (p.run productions limit room α c')

/-- With this number of levels left, all goals are steady. -/
def GoalsSteady (limit room : Nat) : Prop :=
  ∀ (g : Goal) (c : Cursor), Steady limit room (Parser.goal g) c

/-- The function does not tell a closing kind from the end of the input. -/
structure Blunt {β : Type u} (f : TokenKind → β) : Prop where
  semicolon : f (.operator .semicolon) = f .eof
  union : f (.keyword .UNION) = f .eof
  intersect : f (.keyword .INTERSECT) = f .eof
  except : f (.keyword .EXCEPT) = f .eof

/-- The four fields of `Blunt` are one fact for each closing kind. -/
theorem Blunt.eq_of_closes {β : Type u} {f : TokenKind → β} (h : Blunt f) {kind : TokenKind}
    (hkind : kind.Closes) : f kind = f .eof := by
  cases hkind with
  | semicolon => exact h.semicolon
  | union => exact h.union
  | intersect => exact h.intersect
  | except => exact h.except

theorem Blunt.intro {β : Type u} {f : TokenKind → β}
    (h : ∀ kind : TokenKind, kind.Closes → f kind = f .eof) : Blunt f :=
  ⟨h _ .semicolon, h _ .union, h _ .intersect, h _ .except⟩

/-- What is told of the kind up to the first token behind the end is the same with more behind. -/
theorem Blunt.behind {β : Type u} {f : TokenKind → β} (h : Blunt f) {c c' : Cursor} {s : Symbol}
    {more : List Symbol} (hs : s.kind.Closes) (hsymbols : c'.symbols = c.symbols ++ s :: more)
    {n : Nat} (hn : n ≤ c.remaining) : f (c'.kindAt n) = f (c.kindAt n) := by
  rcases Nat.lt_or_eq_of_le hn with hlt | rfl
  · rw [Cursor.kindAt_behind hsymbols hlt]
  · rw [Cursor.kindAt_remaining hsymbols, Cursor.kindAt_of_remaining_le (Nat.le_refl _)]
    exact h.eq_of_closes hs

/-- A plain terminal does not tell a closing kind from the end. -/
theorem Terminal.blunt_of_isPlain {t : Terminal} (h : t.isPlain = true) : Blunt t.accepts :=
  .intro fun _ hkind => (Terminal.not_accepts_of_closes h hkind).trans t.not_accepts_eof.symm

section Rules

variable {limit room : Nat} {α β σ : Type} {p : Production α} {f : α → Production β} {c : Cursor}

/-- A parser that gives no value is steady, as `Steady` is about values. -/
theorem steady_of_never (h : ∀ v c₁, p.run productions limit room α c ≠ .done v c₁) :
    Steady limit room p c :=
  fun v c₁ hrun => absurd hrun (h v c₁)

theorem steady_pure (v : α) : Steady limit room (pure v) c := by
  intro w c₁ hrun
  rw [run_pure] at hrun
  cases hrun
  refine ⟨⟨[], rfl, nofun⟩, fun c' s more _ hsymbols => ?_⟩
  rw [run_pure]
  exact .done hsymbols

theorem steady_unexpected (expected : List String) :
    Steady limit room (unexpected expected : Production α) c :=
  steady_of_never fun v c₁ hrun => by
    rw [run_unexpected] at hrun
    cases hrun

theorem steady_unsupported (construct : String) :
    Steady limit room (unsupported construct : Production α) c :=
  steady_of_never fun v c₁ hrun => by
    rw [run_unsupported] at hrun
    cases hrun

/-- What is steady behind a steady parser is so together with it. -/
theorem steady_bind (hp : Steady limit room p c)
    (hf : ∀ v c₁, p.run productions limit room α c = .done v c₁ → Steady limit room (f v) c₁) :
    Steady limit room (p >>= f) c := by
  intro w c₂ hrun
  obtain ⟨v, c₁, hfirst, hnext⟩ := exists_of_run_bind hrun
  obtain ⟨⟨used₁, hused₁, hproper₁⟩, hkept₁⟩ := hp v c₁ hfirst
  obtain ⟨⟨used₂, hused₂, hproper₂⟩, hkept₂⟩ := hf v c₁ hfirst w c₂ hnext
  refine ⟨⟨used₁ ++ used₂, by rw [hused₁, hused₂, List.append_assoc], fun s hs => ?_⟩,
    fun c' s more hs hsymbols => ?_⟩
  · rcases List.mem_append.1 hs with h | h
    · exact hproper₁ s h
    · exact hproper₂ s h
  · refine (hkept₁ c' s more hs hsymbols).bind (fun c₁' hfirst' hsymbols₁ => ?_)
      fun error c₁' hfail => run_bind_of_failed hfail
    rw [run_bind_of_done hfirst']
    exact hkept₂ c₁' s more hs hsymbols₁

/-- `<$>` changes the value only. -/
theorem steady_map {g : α → β} (hp : Steady limit room p c) : Steady limit room (g <$> p) c :=
  steady_bind hp fun v _ _ => steady_pure (g v)

/-- What leaves the cursor where it is, and gives the same whatever stands behind, can be left
out. -/
theorem steady_of_done {v : α} (h : p.run productions limit room α c = .done v c)
    (hbehind : ∀ (c' : Cursor) (s : Symbol) (more : List Symbol), s.kind.Closes →
      c'.symbols = c.symbols ++ s :: more →
        ∃ v', p.run productions limit room α c' = .done v' c' ∧ f v' = f v)
    (hf : Steady limit room (f v) c) : Steady limit room (p >>= f) c := by
  intro w c₁ hrun
  rw [run_bind_of_done h] at hrun
  obtain ⟨hused, hkept⟩ := hf w c₁ hrun
  refine ⟨hused, fun c' s more hs hsymbols => ?_⟩
  obtain ⟨v', hv', hsame⟩ := hbehind c' s more hs hsymbols
  rw [run_bind_of_done hv', hsame]
  exact hkept c' s more hs hsymbols

/-! ## Looking ahead -/

/-- The kind of a token is looked at. What is done with it must not tell a closing kind from the end
of the input, and must not depend on it where the end comes before that token. -/
theorem steady_look {f : TokenKind → Production β} (n : Nat) (hblunt : Blunt f)
    (hend : ∀ m, m < n → c.kindAt m = .eof → ∀ kind, f kind = f .eof)
    (hf : Steady limit room (f (c.kindAt n)) c) : Steady limit room (look n >>= f) c := by
  refine steady_of_done (run_look limit room c n) (fun c' s more hs hsymbols => ?_) hf
  refine ⟨c'.kindAt n, run_look limit room c' n, ?_⟩
  by_cases hn : n ≤ c.remaining
  · exact hblunt.behind hs hsymbols hn
  · have heof := hend c.remaining (by omega) (Cursor.kindAt_of_remaining_le (Nat.le_refl _))
    rw [heof (c'.kindAt n), heof (c.kindAt n)]

/-- The case of `steady_look` for the token under the cursor. -/
theorem steady_kind {f : TokenKind → Production β} (hblunt : Blunt f)
    (hf : Steady limit room (f (c.kindAt 0)) c) : Steady limit room (kind >>= f) c :=
  steady_look 0 hblunt (fun _ h => absurd h (Nat.not_lt_zero _)) hf

/-- The kind behind the token under the cursor is looked at. -/
theorem steady_next {f : TokenKind → Production β} (hblunt : Blunt f)
    (hend : c.kindAt 0 = .eof → ∀ kind, f kind = f .eof)
    (hf : Steady limit room (f (c.kindAt 1)) c) : Steady limit room (look 1 >>= f) c := by
  refine steady_look 1 hblunt (fun m hm => ?_) hf
  obtain rfl : m = 0 := by omega
  exact hend

/-- `callee` finds nothing at the end, and nothing at a closing kind. -/
theorem steady_callee {f : Option String → Production β}
    (hf : Steady limit room (f c.current.callee?) c) : Steady limit room (callee >>= f) c := by
  refine steady_of_done (run_callee limit room c) (fun c' s more hs hsymbols => ?_) hf
  exact ⟨_, run_callee limit room c', by rw [Cursor.callee?_behind hsymbols hs]⟩

/-- Plain terminals are neither closing nor at the end of the input. -/
theorem terminalsAhead_behind {s : Symbol} (hs : s.kind.Closes) {ss more : List Symbol}
    {ts : List Terminal} (hts : ts.all Terminal.isPlain = true) :
    ∀ n, n ≤ ss.length → terminalsAhead (ss ++ s :: more) n ts = terminalsAhead ss n ts := by
  induction ts with
  | nil => exact fun n _ => rfl
  | cons t ts ih =>
    intro n hn
    rw [List.all_cons, Bool.and_eq_true] at hts
    rw [terminalsAhead, terminalsAhead]
    rcases Nat.lt_or_eq_of_le hn with hlt | rfl
    · rw [ih hts.2 (n + 1) hlt, kindAhead, List.getElem?_append_left hlt, ← kindAhead]
    · have hclose : kindAhead (ss ++ s :: more) ss.length = s.kind := by simp [kindAhead]
      have heof : kindAhead ss ss.length = .eof := by simp [kindAhead]
      rw [hclose, heof, t.not_accepts_eof, Terminal.not_accepts_of_closes hts.1 hs, Bool.false_and,
        Bool.false_and]

/-- Plain terminals are looked for. What is done must not depend on them where the end comes before
the first of them. -/
theorem steady_areAhead {f : Bool → Production β} (n : Nat) (ts : List Terminal)
    (hts : ts.all Terminal.isPlain = true)
    (hend : ∀ m, m < n → c.kindAt m = .eof → f true = f false)
    (hf : Steady limit room (f (terminalsAhead c.symbols n ts)) c) :
    Steady limit room (areAhead n ts >>= f) c := by
  refine steady_of_done (run_areAhead ts n) (fun c' s more hs hsymbols => ?_) hf
  refine ⟨_, run_areAhead ts n, ?_⟩
  by_cases hle : n ≤ c.remaining
  · rw [hsymbols, terminalsAhead_behind hs hts n (by rwa [Cursor.length_symbols])]
  · have hsame := hend c.remaining (by omega) (Cursor.kindAt_of_remaining_le (Nat.le_refl _))
    have hconst : ∀ b, f b = f false := Bool.rec rfl hsame
    rw [hconst (terminalsAhead c'.symbols n ts), hconst (terminalsAhead c.symbols n ts)]

theorem steady_isAt {f : Bool → Production β} (t : Terminal) (hblunt : Blunt t.accepts)
    (hf : Steady limit room (f (t.accepts (c.kindAt 0))) c) :
    Steady limit room (isAt t >>= f) c :=
  steady_of_done (run_isAt t) (fun _ _ _ hs hsymbols =>
    ⟨_, run_isAt t, congrArg f (hblunt.behind hs hsymbols (Nat.zero_le _))⟩) hf

/-- The case of `steady_next` for a terminal. -/
theorem steady_isNext {f : Bool → Production β} (t : Terminal) (hblunt : Blunt t.accepts)
    (hend : c.kindAt 0 = .eof → f true = f false)
    (hf : Steady limit room (f (t.accepts (c.kindAt 1))) c) :
    Steady limit room (isNext t >>= f) c := by
  refine steady_of_done (run_isNext t) (fun c' s more hs hsymbols => ⟨_, run_isNext t, ?_⟩) hf
  by_cases hn : 1 ≤ c.remaining
  · exact congrArg f (hblunt.behind hs hsymbols hn)
  · have hconst : ∀ b, f b = f false :=
      Bool.rec rfl (hend (Cursor.kindAt_of_remaining_le (by omega)))
    rw [hconst (t.accepts (c'.kindAt 1)), hconst (t.accepts (c.kindAt 1))]

/-! ## Moving on -/

/-- A token that is moved over must be a proper one. -/
theorem steady_advance (h : (c.kindAt 0).isProper = true) : Steady limit room advance c := by
  have hne := TokenKind.ne_eof_of_isProper h
  intro v c₁ hrun
  rw [run_advance] at hrun
  cases hrun
  refine ⟨?_, fun c' s more _ hsymbols => ?_⟩
  · cases hc : c.symbols with
    | nil =>
      rw [c.kindAt_eq, hc] at hne
      exact absurd (kindAhead_nil 0) hne
    | cons t ts =>
      rw [c.kindAt_eq, hc] at h hne
      refine ⟨[t], by rw [Cursor.symbols_advance hc hne]; rfl, fun s hs => ?_⟩
      rw [List.mem_singleton.1 hs]
      exact h
  · rw [run_advance]
    exact .done (Cursor.symbols_advance_behind hsymbols hne)

/-- A terminal that is there is taken, and the parser goes on behind it. -/
theorem steady_accept_true {f : Bool → Production β} {t : Terminal} (ht : t.kind.isProper = true)
    (h : c.kindAt 0 = t.kind) (hf : Steady limit room (f true) c.advance) :
    Steady limit room (accept t >>= f) c := by
  have hadvance : Steady limit room advance c := steady_advance (by rw [h]; exact ht)
  intro w c₁ hrun
  rw [run_bind_of_done (run_accept_of_eq h)] at hrun
  have hboth : Steady limit room (advance >>= fun _ => f true) c :=
    steady_bind hadvance fun v c₂ hrun => by
      rw [run_advance] at hrun
      cases hrun
      exact hf
  obtain ⟨hused, hkept⟩ := hboth w c₁ ((run_bind_of_done (run_advance limit room c)).trans hrun)
  refine ⟨hused, fun c' s more hs hsymbols => ?_⟩
  have hkind : c'.kindAt 0 = t.kind := by
    rw [Cursor.kindAt_behind hsymbols (Cursor.lt_remaining_of_ne_eof (Terminal.ne_eof_of_eq h)), h]
  have hkept' := hkept c' s more hs hsymbols
  rw [run_bind_of_done (run_advance limit room c')] at hkept'
  rw [run_bind_of_done (run_accept_of_eq hkind)]
  exact hkept'

/-- A plain terminal is taken, or it is missing. -/
theorem steady_accept {f : Bool → Production β} {t : Terminal} (ht : t.isPlain = true)
    (htrue : ∀ c₁, Steady limit room (f true) c₁) (hfalse : Steady limit room (f false) c) :
    Steady limit room (accept t >>= f) c := by
  by_cases h : c.kindAt 0 = t.kind
  · exact steady_accept_true (Terminal.isProper_of_isPlain ht) h (htrue _)
  · refine steady_of_done (run_accept_of_ne h) (fun c' s more hs hsymbols => ?_) hfalse
    refine ⟨false, run_accept_of_ne fun h' => ?_, rfl⟩
    -- a closing token is not the terminal either
    rcases Nat.eq_zero_or_pos c.remaining with hzero | hpos
    · have hkind := Cursor.kindAt_remaining hsymbols
      rw [hzero, h'] at hkind
      rw [← hkind] at hs
      have := Terminal.not_accepts_of_closes ht hs
      rw [Terminal.accepts_iff.2 rfl] at this
      cases this
    · exact h ((Cursor.kindAt_behind hsymbols hpos).symm.trans h')

/-- A plain terminal is taken or not, and is not found in what stands behind. -/
theorem steady_taken {t : Terminal} (ht : t.isPlain = true) : Steady limit room (accept t) c := by
  refine steady_isAt t (Terminal.blunt_of_isPlain ht) ?_
  split
  · next h =>
    have hproper : (c.kindAt 0).isProper = true := by
      rw [Terminal.accepts_iff.1 h]
      exact Terminal.isProper_of_isPlain ht
    exact steady_bind (steady_advance hproper) fun _ _ _ => steady_pure true
  · exact steady_pure false

/-- A terminal that has to be there may be a semicolon. -/
theorem steady_expect (t : Terminal) (ht : t.kind.isProper = true) :
    Steady limit room (expect t) c := by
  by_cases h : c.kindAt 0 = t.kind
  · exact steady_accept_true ht h (steady_pure ())
  · refine steady_of_never fun v c₁ hrun => ?_
    rw [run_expect_of_ne h] at hrun
    cases hrun

/-- By induction over the terminals that `expectAll` takes. -/
theorem steady_expectAll (ts : List Terminal) (hts : ts.all (·.kind.isProper) = true) :
    Steady limit room (expectAll ts) c := by
  induction ts generalizing c with
  | nil => exact steady_pure ()
  | cons t ts ih =>
    rw [List.all_cons, Bool.and_eq_true] at hts
    exact steady_bind (steady_expect t hts.1) fun _ _ _ => ih hts.2

theorem steady_advanceBy {ts : List Terminal} (hts : ts.all Terminal.isPlain = true)
    (h : terminalsAhead c.symbols 0 ts = true) : Steady limit room (advanceBy ts.length) c := by
  induction ts generalizing c with
  | nil => exact steady_pure ()
  | cons t ts ih =>
    rw [List.all_cons, Bool.and_eq_true] at hts
    rw [terminalsAhead, Bool.and_eq_true, Terminal.accepts_iff, ← c.kindAt_eq] at h
    have hproper : (c.kindAt 0).isProper = true := by
      rw [h.1]
      exact Terminal.isProper_of_isPlain hts.1
    refine steady_bind (steady_advance hproper) fun _ c₁ hrun => ih hts.2 ?_
    rw [run_advance] at hrun
    cases hrun
    cases hc : c.symbols with
    | nil =>
      rw [c.kindAt_eq, hc] at hproper
      cases hproper
    | cons s ss =>
      rw [c.kindAt_eq, hc] at hproper
      rw [Cursor.symbols_advance hc (TokenKind.ne_eof_of_isProper hproper)]
      rw [hc, terminalsAhead_cons_succ] at h
      exact h.2

/-- `acceptAll` takes all its terminals, or looks at them only. -/
theorem steady_acceptAll (ts : List Terminal) (hts : ts.all Terminal.isPlain = true) :
    Steady limit room (acceptAll ts) c := by
  refine steady_areAhead 0 ts hts (fun _ h => absurd h (Nat.not_lt_zero _)) ?_
  split
  · next h => exact steady_bind (steady_advanceBy hts h) fun _ _ _ => steady_pure true
  · exact steady_pure false

/-- `behind?` of a plain terminal, from its parser. -/
theorem steady_behind {t : Terminal} (ht : t.isPlain = true) (hp : ∀ c₁, Steady limit room p c₁) :
    Steady limit room (behind? t p) c :=
  steady_accept ht (fun c₁ => steady_bind (hp c₁) fun v _ _ => steady_pure (some v))
    (steady_pure none)

/-! ## Names -/

/-- A name is proper, and no closing kind is a name. -/
theorem steady_identifier? : Steady limit room identifier? c := by
  refine steady_kind ⟨rfl, rfl, rfl, rfl⟩ ?_
  split
  · next name h =>
    exact steady_bind (steady_advance (by rw [h]; rfl)) fun _ _ _ => steady_pure _
  · exact steady_pure none

theorem steady_identifier : Steady limit room identifier c := by
  refine steady_bind steady_identifier? fun found c₁ _ => ?_
  cases found with
  | some name => exact steady_pure name
  | none => exact steady_unexpected _

theorem steady_expectWord (word : String) : Steady limit room (expectWord word) c := by
  refine steady_kind ⟨rfl, rfl, rfl, rfl⟩ ?_
  split
  · next name h =>
    split
    · exact steady_advance (by rw [h]; rfl)
    · exact steady_unexpected _
  · exact steady_unexpected _

/-! ## Repetition -/

/-- A loop is steady if each of its rounds is, wherever it starts. -/
theorem steady_iterate {step : σ → Production (Option σ)}
    (h : ∀ s c, Steady limit room (step s) c) (start : σ) :
    Steady limit room (iterate step start) c := by
  -- by induction on the number of tokens ahead, which goes down in each round but the last
  induction hn : c.remaining using Nat.strongRecOn generalizing c start with
  | ind n ih =>
    subst hn
    intro v c₂ hrun
    cases hstep : (step start).run productions limit room _ c with
    | failed error c₁ =>
      rw [run_iterate_of_failed hstep] at hrun
      cases hrun
    | done found c₁ =>
      obtain ⟨⟨used, hused, hproper⟩, hkept⟩ := h start c found c₁ hstep
      cases found with
      | none =>
        rw [run_iterate_of_none hstep] at hrun
        cases hrun
        refine ⟨⟨used, hused, hproper⟩, fun c' s more hs hsymbols => ?_⟩
        refine (hkept c' s more hs hsymbols).bind (fun c₁' hstep' hsymbols₁ => ?_)
          fun error c₁' hfail => run_iterate_of_failed hfail
        rw [run_iterate_of_none hstep']
        exact .done hsymbols₁
      | some next =>
        by_cases hlt : c₁.remaining < c.remaining
        · rw [run_iterate_of_some hstep hlt] at hrun
          obtain ⟨⟨used', hused', hproper'⟩, hrest⟩ := ih _ hlt next rfl v c₂ hrun
          refine ⟨⟨used ++ used', by rw [hused, hused', List.append_assoc],
            List.forall_mem_append.2 ⟨hproper, hproper'⟩⟩, fun c' s more hs hsymbols => ?_⟩
          refine (hkept c' s more hs hsymbols).bind (fun c₁' hstep' hsymbols₁ => ?_)
            fun error c₁' hfail => run_iterate_of_failed hfail
          have hlt' : c₁'.remaining < c'.remaining := by
            rw [Cursor.remaining_behind hsymbols, Cursor.remaining_behind hsymbols₁]
            omega
          rw [run_iterate_of_some hstep' hlt']
          exact hrest c₁' s more hs hsymbols₁
        · rw [run_iterate_of_stay hstep hlt] at hrun
          cases hrun
          refine ⟨⟨used, hused, hproper⟩, fun c' s more hs hsymbols => ?_⟩
          refine (hkept c' s more hs hsymbols).bind (fun c₁' hstep' hsymbols₁ => ?_)
            fun error c₁' hfail => run_iterate_of_failed hfail
          have hge' : ¬ c₁'.remaining < c'.remaining := by
            rw [Cursor.remaining_behind hsymbols, Cursor.remaining_behind hsymbols₁]
            omega
          rw [run_iterate_of_stay hstep' hge']
          exact .done hsymbols₁

/-- The rounds of `many` are those of its parser. -/
theorem steady_many {p : Production (Option α)} (hp : ∀ c, Steady limit room p c) :
    Steady limit room (many p) c := by
  refine steady_iterate (fun found c => steady_bind (hp c) fun item c₁ _ => ?_) []
  cases item with
  | some x => exact steady_pure _
  | none => exact steady_pure _

/-- A comma is a plain terminal, so that the list ends where it did. -/
theorem steady_commaSeparated (hp : ∀ c, Steady limit room p c) :
    Steady limit room (commaSeparated p) c :=
  steady_bind (hp c) fun _ _ _ =>
    steady_bind (steady_many fun _ => steady_behind rfl hp) fun _ _ _ => steady_pure _

/-- Parentheses are plain terminals. -/
theorem steady_parenthesized (hp : ∀ c, Steady limit room p c) :
    Steady limit room (parenthesized p) c :=
  steady_bind (steady_expect _ rfl) fun _ c₁ _ =>
    steady_bind (hp c₁) fun v _ _ => steady_bind (steady_expect _ rfl) fun _ _ _ => steady_pure v

theorem steady_identifierList : Steady limit room identifierList c :=
  steady_parenthesized fun _ => steady_commaSeparated fun _ => steady_identifier

/-! ## Choice and levels -/

/-- A choice in which nothing but the first parser ever gives a value. -/
theorem steady_firstOf {p : Production α} {ps : List (Production α)} (hp : Steady limit room p c)
    (hrest : ∀ known v c₁, (firstOf known ps).run productions limit room α c ≠ .done v c₁)
    (known : List String) : Steady limit room (firstOf known (p :: ps)) c := by
  intro v c₁ hrun
  cases hfirst : p.run productions limit room α c with
  | failed error c₁' =>
    cases hmismatch : error.isMismatchAt c.current.span.start with
    | true =>
      rw [run_firstOf_of_mismatch hfirst hmismatch] at hrun
      exact absurd hrun (hrest _ v c₁)
    | false =>
      rw [run_firstOf_of_committed hfirst hmismatch] at hrun
      cases hrun
  | done v' c₁' =>
    rw [run_firstOf_of_done hfirst] at hrun
    cases hrun
    obtain ⟨hused, hkept⟩ := hp v c₁ hfirst
    refine ⟨hused, fun c' s more hs hsymbols => ?_⟩
    have hkept' := hkept c' s more hs hsymbols
    generalize hreply : p.run productions limit room α c' = reply at hkept'
    cases hkept' with
    | done hsymbols' =>
      rw [run_firstOf_of_done hreply]
      exact .done hsymbols'
    | refused hadds hsymbols' =>
      -- the refusal of a query is not undone
      rw [run_firstOf_of_committed hreply rfl]
      exact .refused hadds hsymbols'

/-- `deeper` is steady if its parser is with fewer levels. -/
theorem steady_deeper {p : Production α} (h : ∀ r, r < room → Steady limit r p c) :
    Steady limit room (deeper p) c := by
  cases room with
  | zero =>
    refine steady_of_never fun v c₁ hrun => ?_
    cases hrun
  | succ room => exact h room (Nat.lt_succ_self room)

end Rules

end Grammar

end SqlGrammar
