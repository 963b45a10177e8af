import SqlGrammar.Proofs.Parser.Reads

/-!
# What combinators read

The combinators that productions are put together from, each with what it reads where it finds what
it looks for and where it does not.
-/

set_option autoImplicit false

namespace SqlGrammar.Parser

variable {G : Type} {Tree : G → Type} {α β : Type} {P : Productions Tree}

/-! ## Looking ahead -/

/-- A terminal accepts its own kind and no other. -/
theorem Terminal.accepts_iff {t : Terminal} {k : TokenKind} : t.accepts k = true ↔ k = t.kind := by
  simp [Terminal.accepts]

/-- `isAt` reads nothing, and answers for the kind ahead. -/
theorem reads_isAt (t : Terminal) (ss : List Symbol) :
    Reads P (isAt t) ss (t.accepts (kindAhead ss 0)) ss :=
  reads_bind (reads_look 0 ss) (reads_pure _ _)

theorem reads_isAt_true {t : Terminal} {s : Symbol} {ss : List Symbol} (h : s.kind = t.kind) :
    Reads P (isAt t) (s :: ss) true (s :: ss) := by
  have hr := reads_isAt (P := P) t (s :: ss)
  rwa [kindAhead_cons_zero, Terminal.accepts_iff.2 h] at hr

theorem reads_isAt_false {t : Terminal} {ss : List Symbol} (h : kindAhead ss 0 ≠ t.kind) :
    Reads P (isAt t) ss false ss := by
  have hr := reads_isAt (P := P) t ss
  rwa [Bool.eq_false_iff.2 (mt Terminal.accepts_iff.1 h)] at hr

/-- `isNext` reads nothing, and answers for the kind behind that. -/
theorem reads_isNext (t : Terminal) (ss : List Symbol) :
    Reads P (isNext t) ss (t.accepts (kindAhead ss 1)) ss :=
  reads_bind (reads_look 1 ss) (reads_pure _ _)

/-- Whether the terminals are the symbols ahead, the first of them at a distance. -/
def terminalsAhead (ss : List Symbol) : Nat → List Terminal → Bool
  | _, [] => true
  | n, t :: ts => t.accepts (kindAhead ss n) && terminalsAhead ss (n + 1) ts

/-- `areAhead` reads nothing, and answers `terminalsAhead`. -/
theorem reads_areAhead (ss : List Symbol) (ts : List Terminal) :
    ∀ n, Reads P (areAhead n ts) ss (terminalsAhead ss n ts) ss := by
  induction ts with
  | nil => exact fun n => reads_pure true ss
  | cons t ts ih =>
    intro n
    refine reads_bind (reads_look n ss) ?_
    cases h : t.accepts (kindAhead ss n) with
    | false =>
      rw [terminalsAhead, h, Bool.false_and]
      exact reads_pure false ss
    | true =>
      rw [terminalsAhead, h, Bool.true_and]
      exact ih (n + 1)

/-- At a distance, the first symbol does not matter to `terminalsAhead`. -/
theorem terminalsAhead_cons_succ (s : Symbol) (ss : List Symbol) (ts : List Terminal) :
    ∀ n, terminalsAhead (s :: ss) (n + 1) ts = terminalsAhead ss n ts := by
  induction ts with
  | nil => exact fun n => rfl
  | cons t ts ih => exact fun n => by rw [terminalsAhead, terminalsAhead, kindAhead_cons_succ, ih]

/-- The symbols of terminals have these ahead. -/
theorem terminalsAhead_map_symbol (ss : List Symbol) (ts : List Terminal) :
    terminalsAhead (ts.map Terminal.symbol ++ ss) 0 ts = true := by
  induction ts with
  | nil => rfl
  | cons t ts ih =>
    rw [List.map_cons, List.cons_append, terminalsAhead, terminalsAhead_cons_succ, ih,
      Bool.and_true, kindAhead_cons_zero, Terminal.accepts_iff, Terminal.symbol_kind]

/-! ## Terminals -/

section Run

variable {limit room : Nat} {c : Cursor} {t : Terminal}

theorem run_isAt (t : Terminal) : (isAt t : Parser Tree Bool).run P limit room _ c =
    .done (t.accepts (c.kindAt 0)) c :=
  (run_bind_of_done (run_look limit room c 0)).trans (run_pure limit room c _)

theorem run_isNext (t : Terminal) : (isNext t : Parser Tree Bool).run P limit room _ c =
    .done (t.accepts (c.kindAt 1)) c :=
  (run_bind_of_done (run_look limit room c 1)).trans (run_pure limit room c _)

/-- `accept` takes the terminal where it is. -/
theorem run_accept_of_eq (h : c.kindAt 0 = t.kind) :
    (accept t : Parser Tree Bool).run P limit room _ c = .done true c.advance := by
  rw [accept, run_bind_of_done (run_isAt t), Terminal.accepts_iff.2 h]
  exact (run_bind_of_done (run_advance limit room c)).trans (run_pure limit room _ true)

/-- `accept` leaves the cursor where the terminal is not. -/
theorem run_accept_of_ne (h : c.kindAt 0 ≠ t.kind) :
    (accept t : Parser Tree Bool).run P limit room _ c = .done false c := by
  rw [accept, run_bind_of_done (run_isAt t), Bool.eq_false_iff.2 (mt Terminal.accepts_iff.1 h)]
  exact run_pure limit room c false

/-- The answer of `accept` tells whether the terminal was there. -/
theorem eq_true_iff_of_run_accept {v : Bool} {c' : Cursor}
    (h : (accept t : Parser Tree Bool).run P limit room _ c = .done v c') :
    v = true ↔ c.kindAt 0 = t.kind := by
  by_cases hkind : c.kindAt 0 = t.kind
  · cases (run_accept_of_eq hkind).symm.trans h
    exact ⟨fun _ => hkind, fun _ => rfl⟩
  · cases (run_accept_of_ne hkind).symm.trans h
    exact ⟨nofun, fun heq => absurd heq hkind⟩

theorem run_expect_of_eq (h : c.kindAt 0 = t.kind) :
    (expect t : Parser Tree Unit).run P limit room _ c = .done () c.advance := by
  rw [expect, run_bind_of_done (run_accept_of_eq h), if_pos rfl, run_pure]

/-- The error of `expect` names the terminal. -/
theorem run_expect_of_ne (h : c.kindAt 0 ≠ t.kind) :
    (expect t : Parser Tree Unit).run P limit room _ c = .failed (c.unexpected [t.text]) c := by
  rw [expect, run_bind_of_done (run_accept_of_ne h), if_neg Bool.false_ne_true, run_unexpected]

/-- A terminal that has to be there was under the cursor. -/
theorem kindAt_of_run_expect {v : Unit} {c' : Cursor}
    (h : (expect t : Parser Tree Unit).run P limit room _ c = .done v c') :
    c.kindAt 0 = t.kind ∧ c' = c.advance := by
  by_cases hkind : c.kindAt 0 = t.kind
  · rw [run_expect_of_eq hkind] at h
    cases h
    exact ⟨hkind, rfl⟩
  · rw [run_expect_of_ne hkind] at h
    cases h

/-- A terminal that may be there was under the cursor, or nothing was taken. -/
theorem kindAt_of_run_accept {v : Bool} {c' : Cursor}
    (h : (accept t : Parser Tree Bool).run P limit room _ c = .done v c') :
    c.kindAt 0 = t.kind ∧ c' = c.advance ∨ c' = c := by
  by_cases hkind : c.kindAt 0 = t.kind
  · rw [run_accept_of_eq hkind] at h
    cases h
    exact .inl ⟨hkind, rfl⟩
  · rw [run_accept_of_ne hkind] at h
    cases h
    exact .inr rfl

/-- `areAhead` depends on the cursor by its symbols only. -/
theorem run_areAhead (ts : List Terminal) : ∀ n,
    (areAhead n ts : Parser Tree Bool).run P limit room _ c =
      .done (terminalsAhead c.symbols n ts) c := by
  induction ts with
  | nil => exact fun n => run_pure limit room c true
  | cons t ts ih =>
    intro n
    rw [areAhead, run_bind_of_done (run_look limit room c n), terminalsAhead, c.kindAt_eq]
    cases h : t.accepts (kindAhead c.symbols n) with
    | false => exact run_pure limit room c false
    | true => exact ih (n + 1)

/-- `acceptAll` leaves the cursor where not all of its terminals are ahead. -/
theorem run_acceptAll_of_false {ts : List Terminal} (h : terminalsAhead c.symbols 0 ts = false) :
    (acceptAll ts : Parser Tree Bool).run P limit room _ c = .done false c := by
  rw [acceptAll, run_bind_of_done (run_areAhead ts 0), h]
  exact run_pure limit room c false

/-! A parser that finds nothing has not moved. -/

variable {c' : Cursor}

/-- `identifier?` does not move without a name. -/
theorem eq_of_identifier?_none
    (h : (identifier? : Parser Tree _).run P limit room _ c = .done none c') : c' = c := by
  rw [identifier?, kind, run_bind_of_done (run_look limit room c 0)] at h
  split at h
  · rw [run_bind_of_done (run_advance limit room c), run_pure] at h
    cases h
  · rw [run_pure] at h
    cases h
    rfl

theorem eq_of_behind?_none {p : Parser Tree α}
    (h : (behind? t p).run P limit room _ c = .done none c') : c' = c := by
  by_cases hkind : c.kindAt 0 = t.kind
  · rw [behind?, run_bind_of_done (run_accept_of_eq hkind), if_pos rfl] at h
    cases hp : p.run P limit room _ c.advance with
    | done value c₁ =>
      rw [run_bind_of_done hp, run_pure] at h
      cases h
    | failed error c₁ =>
      rw [run_bind_of_failed hp] at h
      cases h
  · rw [behind?, run_bind_of_done (run_accept_of_ne hkind), if_neg Bool.false_ne_true,
      run_pure] at h
    cases h
    rfl

/-- An attempt that gives a value does what its parser does. -/
theorem run_of_attempt_ok {p : Parser Tree α} {v : α}
    (h : (attempt p).run P limit room _ c = .done (.ok v) c') :
    p.run P limit room _ c = .done v c' := by
  rw [run_attempt, Action.attempt] at h
  split at h
  · next hrun =>
    cases h
    exact hrun
  · split at h <;> cases h

/-- An attempt that fails is taken back. -/
theorem eq_of_attempt_error {p : Parser Tree α} {expected : List String}
    (h : (attempt p).run P limit room _ c = .done (.error expected) c') : c' = c := by
  rw [run_attempt, Action.attempt] at h
  split at h
  · cases h
  · split at h
    · cases h
      rfl
    · cases h

end Run

/-- `accept` reads its terminal, and so does `expect`. -/
theorem reads_accept_true {t : Terminal} {s : Symbol} {ss : List Symbol} (h : s.kind = t.kind) :
    Reads P (accept t) (s :: ss) true ss :=
  reads_bind (reads_isAt_true h)
    (reads_bind (reads_advance (h ▸ t.kind_ne_eof)) (reads_pure true ss))

theorem reads_accept_false {t : Terminal} {ss : List Symbol} (h : kindAhead ss 0 ≠ t.kind) :
    Reads P (accept t) ss false ss :=
  reads_bind (reads_isAt_false h) (reads_pure false ss)

theorem reads_expect {t : Terminal} {s : Symbol} {ss : List Symbol} (h : s.kind = t.kind) :
    Reads P (expect t) (s :: ss) () ss :=
  reads_bind (reads_accept_true h) (reads_pure () ss)

/-- `expectAll` reads its terminals, by induction over them. -/
theorem reads_expectAll (ts : List Terminal) (ss : List Symbol) :
    Reads P (expectAll ts) (ts.map Terminal.symbol ++ ss) () ss := by
  induction ts with
  | nil => exact reads_pure () ss
  | cons t ts ih => exact reads_bind (reads_expect t.symbol_kind) ih

theorem reads_advanceBy (ts : List Terminal) (ss : List Symbol) :
    Reads P (advanceBy ts.length) (ts.map Terminal.symbol ++ ss) () ss := by
  induction ts with
  | nil => exact reads_pure () ss
  | cons t ts ih =>
    exact reads_bind (reads_advance (by rw [Terminal.symbol_kind]; exact t.kind_ne_eof)) ih

theorem reads_acceptAll_true (ts : List Terminal) (ss : List Symbol) :
    Reads P (acceptAll ts) (ts.map Terminal.symbol ++ ss) true ss := by
  refine reads_bind (reads_areAhead _ ts 0) ?_
  rw [terminalsAhead_map_symbol]
  exact reads_bind (reads_advanceBy ts ss) (reads_pure true ss)

/-- `acceptAll` reads nothing where not all of its terminals are ahead. -/
theorem reads_acceptAll_false {ts : List Terminal} {ss : List Symbol}
    (h : terminalsAhead ss 0 ts = false) : Reads P (acceptAll ts) ss false ss := by
  refine reads_bind (reads_areAhead ss ts 0) ?_
  rw [h]
  exact reads_pure false ss

/-- `behind?` reads its terminal and what its parser reads behind it. -/
theorem reads_behind_some {t : Terminal} {p : Parser Tree α} {s : Symbol} {v : α}
    {ss rest : List Symbol} (h : s.kind = t.kind) (hp : Reads P p ss v rest) :
    Reads P (behind? t p) (s :: ss) (some v) rest :=
  reads_bind (reads_accept_true h) (reads_bind hp (reads_pure _ _))

/-- `behind?` reads nothing without its terminal. -/
theorem reads_behind_none {t : Terminal} {p : Parser Tree α} {ss : List Symbol}
    (h : kindAhead ss 0 ≠ t.kind) : Reads P (behind? t p) ss none ss :=
  reads_bind (reads_accept_false h) (reads_pure none ss)

/-! ## Names -/

/-- `identifier?` reads a name. -/
theorem reads_identifier?_some (own : String) (ss : List Symbol) :
    Reads P identifier? (Symbol.name own :: ss) (some own) ss :=
  reads_bind (reads_kind _) (reads_bind (reads_advance (by simp)) (reads_pure _ _))

/-- `identifier?` reads nothing else. -/
theorem reads_identifier?_none {ss : List Symbol} (h : (kindAhead ss 0).isIdentifier = false) :
    Reads P identifier? ss none ss := by
  refine reads_bind (reads_kind ss) ?_
  cases hk : kindAhead ss 0 with
  | identifier own => simp [hk, TokenKind.isIdentifier] at h
  | _ => exact reads_pure none ss

theorem reads_identifier (own : String) (ss : List Symbol) :
    Reads P identifier (Symbol.name own :: ss) own ss :=
  reads_bind (reads_identifier?_some own ss) (reads_pure own ss)

/-- `expectWord` reads a name that is the word in any case. -/
theorem reads_expectWord {word own : String} (h : Text.upper own = Text.upper word)
    (ss : List Symbol) : Reads P (expectWord word) (Symbol.name own :: ss) () ss := by
  refine reads_bind (reads_kind _) ?_
  simp only [kindAhead_cons_zero, Symbol.name_kind, h, BEq.rfl, if_true]
  exact reads_advance (by simp)

/-! ## Repetition -/

/-- The rounds of a repetition, from what was found before. -/
def manyFrom (p : Parser Tree (Option α)) (found : List α) : Parser Tree (List α) :=
  iterate (fun found => do
    match ← p with
    | some x => return some (found ++ [x])
    | none => return none) found

theorem many_eq (p : Parser Tree (Option α)) : many p = manyFrom p [] := rfl

/-- A repetition reads its items one after the other, until it finds no further item in what is
left. `Follows` holds of all that may stand behind an item: of what the next item starts with, and
of what is left at the end. -/
theorem reads_many {p : Parser Tree (Option α)} (spell : β → List Symbol) (value : β → α)
    (Follows : List Symbol → Prop) (bs : List β) {left rest : List Symbol}
    (item : ∀ b ∈ bs, ∀ more, Follows more → Reads P p (spell b ++ more) (some (value b)) more)
    (pos : ∀ b ∈ bs, spell b ≠ []) (next : ∀ b ∈ bs, ∀ more, Follows (spell b ++ more))
    (last : Follows left) (stop : Reads P p left none rest) :
    Reads P (many p) (bs.flatMap spell ++ left) (bs.map value) rest := by
  -- the induction carries what was found before
  suffices h : ∀ found : List α,
      Reads P (manyFrom p found) (bs.flatMap spell ++ left) (found ++ bs.map value) rest by
    have hnil := h []
    rw [List.nil_append, ← many_eq] at hnil
    exact hnil
  induction bs with
  | nil =>
    intro found
    rw [List.map_nil, List.append_nil, List.flatMap_nil, List.nil_append]
    exact reads_iterate_stop (reads_bind stop (reads_pure none rest))
  | cons b bs ih =>
    intro found
    -- behind the item stands the next one, or what is left at the end
    have hmore : Follows (bs.flatMap spell ++ left) := by
      cases bs with
      | nil => exact last
      | cons b' bs =>
        rw [List.flatMap_cons, List.append_assoc]
        exact next b' (by simp) _
    rw [List.flatMap_cons, List.append_assoc]
    refine reads_iterate_step (reads_bind (item b (by simp) _ hmore) (reads_pure _ _)) ?_ ?_
    · have := List.length_pos_iff.2 (pos b (by simp))
      simp only [List.length_append]
      omega
    · have h := ih (fun b hb => item b (by simp [hb])) (fun b hb => pos b (by simp [hb]))
        (fun b hb => next b (by simp [hb])) (found ++ [value b])
      rwa [List.append_assoc] at h

/-- A list of items with commas between them. An item is read off before any symbol of a kind in
`Ends`, which a comma is, and so is the symbol behind the list. -/
theorem reads_commaSeparated {p : Parser Tree α} (spell : β → List Symbol) (value : β → α)
    (Ends : TokenKind → Prop) (b : β) (bs : List β) (rest : List Symbol)
    (item : ∀ x ∈ b :: bs, ∀ more, Ends (kindAhead more 0) →
      Reads P p (spell x ++ more) (value x) more)
    (comma : Ends (.operator .comma)) (last : Ends (kindAhead rest 0))
    (stop : kindAhead rest 0 ≠ .operator .comma) :
    Reads P (commaSeparated p)
      (spell b ++ (bs.flatMap (fun x => Symbol.operator .comma :: spell x) ++ rest))
      ((b :: bs).map value) rest := by
  have hfirst : Ends (kindAhead
      (bs.flatMap (fun x => Symbol.operator .comma :: spell x) ++ rest) 0) := by
    cases bs with
    | nil => exact last
    | cons b' bs => exact comma
  refine reads_bind (item b (by simp) _ hfirst) (reads_bind ?_ (reads_pure _ _))
  refine reads_many _ value (fun more => Ends (kindAhead more 0)) bs
    (fun x hx more hmore => ?_) (fun x _ => by simp) (fun x _ more => comma) last
    (reads_behind_none stop)
  exact reads_behind_some rfl (item x (by simp [hx]) more hmore)

/-- `parenthesized` reads both parentheses. -/
theorem reads_parenthesized {p : Parser Tree α} {v : α} {input rest : List Symbol}
    (h : Reads P p input v (Symbol.operator .rightParen :: rest)) :
    Reads P (parenthesized p) (Symbol.operator .leftParen :: input) v rest :=
  reads_bind (reads_expect rfl) (reads_bind h (reads_bind (reads_expect rfl) (reads_pure v rest)))

/-! ## Choice and end -/

/-- The first choice of `firstOf` is the one that counts if it reads. -/
theorem reads_firstOf {p : Parser Tree α} {ps : List (Parser Tree α)} {known : List String} {v : α}
    {input rest : List Symbol} (h : Reads P p input v rest) :
    Reads P (firstOf known (p :: ps)) input v rest :=
  reads_bind (reads_attempt h) (reads_pure v rest)

/-- `expectEnd` needs no semicolon before the end. -/
theorem reads_expectEnd : Reads P expectEnd [] () [] :=
  reads_bind (reads_accept_false (by simp [Terminal.kind]))
    (reads_bind (reads_kind []) (reads_pure () []))

end SqlGrammar.Parser
