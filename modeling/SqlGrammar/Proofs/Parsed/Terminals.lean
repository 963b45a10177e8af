import SqlGrammar.Proofs.Parsed.Payload
import SqlGrammar.Proofs.Parser.Combinators

/-!
# What combinators take

For each combinator: what holds of the value that it yields and of the symbols that it leaves. Where
it takes terminals or names, these are the first of the symbols ahead.
-/

set_option autoImplicit false

namespace SqlGrammar

open SqlGrammar.Parser

/-- Whatever the production yields with this number of levels left, it is as demanded. -/
abbrev Grammar.Ensures {α : Type} (room : Nat) (p : Production α) (input : List Symbol)
    (Q : α → List Symbol → Prop) : Prop := Parser.Ensures Grammar.productions room p input Q

namespace Grammar

variable {α β : Type} {room : Nat} {input rest : List Symbol}

/-! ## Looking ahead -/

section Looking

variable {p : Production α} {Q : α → List Symbol → Prop}

/-- Looking ahead takes nothing, so that what follows ensures the same of the same symbols. -/
theorem ensures_look_bind {f : TokenKind → Production α} {n : Nat}
    (h : Ensures room (f (kindAhead input n)) input Q) :
    Ensures room (look n >>= f) input Q :=
  ensures_bind (ensures_look (Q := fun kind mid => kind = kindAhead input n ∧ mid = input)
    ⟨rfl, rfl⟩) fun _ _ hv => by obtain ⟨rfl, rfl⟩ := hv; exact h

theorem ensures_kind_bind {f : TokenKind → Production α}
    (h : Ensures room (f (kindAhead input 0)) input Q) :
    Ensures room (kind >>= f) input Q := ensures_look_bind h

theorem ensures_isAt_bind {f : Bool → Production α} {t : Terminal}
    (h : Ensures room (f (t.accepts (kindAhead input 0))) input Q) :
    Ensures room (isAt t >>= f) input Q :=
  ensures_bind (R := fun here mid => here = t.accepts (kindAhead input 0) ∧ mid = input)
    (ensures_look_bind (ensures_pure ⟨rfl, rfl⟩))
    fun _ _ hv => by obtain ⟨rfl, rfl⟩ := hv; exact h

theorem ensures_isNext_bind {f : Bool → Production α} {t : Terminal}
    (h : Ensures room (f (t.accepts (kindAhead input 1))) input Q) :
    Ensures room (isNext t >>= f) input Q :=
  ensures_bind (R := fun here mid => here = t.accepts (kindAhead input 1) ∧ mid = input)
    (ensures_look_bind (ensures_pure ⟨rfl, rfl⟩))
    fun _ _ hv => by obtain ⟨rfl, rfl⟩ := hv; exact h

/-- `areAhead` answers `terminalsAhead`, by induction over the terminals. -/
theorem ensures_areAhead (ts : List Terminal) : ∀ n, Ensures room (areAhead n ts) input
    fun here mid => here = terminalsAhead input n ts ∧ mid = input := by
  induction ts with
  | nil => exact fun n => ensures_pure ⟨rfl, rfl⟩
  | cons t ts ih =>
    intro n
    refine ensures_look_bind ?_
    cases h : t.accepts (kindAhead input n) with
    | false => exact ensures_pure ⟨by rw [terminalsAhead, h, Bool.false_and], rfl⟩
    | true =>
      refine ensures_mono (ih (n + 1)) fun here mid hv => ?_
      rw [terminalsAhead, h, Bool.true_and]
      exact hv

theorem ensures_areAhead_bind {f : Bool → Production α} {ts : List Terminal} {n : Nat}
    (h : Ensures room (f (terminalsAhead input n ts)) input Q) :
    Ensures room (areAhead n ts >>= f) input Q :=
  ensures_bind (ensures_areAhead ts n) fun _ _ hv => by obtain ⟨rfl, rfl⟩ := hv; exact h

/-- Moving on takes the symbol that was looked at. -/
theorem ensures_advance_next {kind : TokenKind} (hkind : kindAhead input 0 = kind)
    (hne : kind ≠ .eof) : Ensures room advance input fun _ rest => Next input kind rest := by
  subst hkind
  exact ensures_advance hne fun s ss hs => ⟨s, hs, by rw [hs]; rfl⟩

end Looking

/-! ## Terminals -/

/-- What it means to take a terminal, or to find it missing. -/
def Accepts (t : Terminal) (input : List Symbol) (taken : Bool) (rest : List Symbol) : Prop :=
  (taken = true ∧ Next input t.kind rest) ∨
    (taken = false ∧ rest = input ∧ kindAhead input 0 ≠ t.kind)

/-- `accept` ensures `Accepts`: the terminal has been taken, or is not there. -/
theorem ensures_accept (t : Terminal) : Ensures room (accept t) input (Accepts t input) := by
  refine ensures_isAt_bind ?_
  cases h : t.accepts (kindAhead input 0) with
  | false =>
    refine ensures_pure (.inr ⟨rfl, rfl, ?_⟩)
    rw [Ne, ← Terminal.accepts_iff, h]
    simp
  | true =>
    exact ensures_bind (ensures_advance_next (Terminal.accepts_iff.1 h) t.kind_ne_eof)
      fun _ _ hnext => ensures_pure (.inl ⟨rfl, hnext⟩)

theorem ensures_expect (t : Terminal) :
    Ensures room (expect t) input fun _ rest => Next input t.kind rest := by
  refine ensures_bind (ensures_accept t) fun taken mid h => ?_
  rcases h with ⟨rfl, hnext⟩ | ⟨rfl, -⟩
  · exact ensures_pure hnext
  · exact ensures_unexpected

/-- Terminals are taken one after the other. -/
def NextAll (input : List Symbol) (ts : List Terminal) (rest : List Symbol) : Prop :=
  ∃ used, input = used ++ rest ∧ used.map Symbol.kind = ts.map Terminal.kind

/-- `NextAll` is `Next` for one terminal after the other. -/
theorem NextAll.cons {t : Terminal} {ts : List Terminal} {mid : List Symbol}
    (h : Next input t.kind mid) (h' : NextAll mid ts rest) : NextAll input (t :: ts) rest := by
  obtain ⟨s, rfl, hs⟩ := h
  obtain ⟨used, rfl, hused⟩ := h'
  exact ⟨s :: used, rfl, by rw [List.map_cons, List.map_cons, hs, hused]⟩

theorem NextAll.uncons {t : Terminal} {ts : List Terminal} (h : NextAll input (t :: ts) rest) :
    ∃ mid, Next input t.kind mid ∧ NextAll mid ts rest := by
  obtain ⟨used, rfl, hused⟩ := h
  cases used with
  | nil => cases hused
  | cons s ss =>
    obtain ⟨hs, hss⟩ := List.cons.inj hused
    exact ⟨ss ++ rest, ⟨s, rfl, hs⟩, ss, rfl, hss⟩

theorem NextAll.eq_of_nil (h : NextAll input [] rest) : input = rest := by
  obtain ⟨used, rfl, hused⟩ := h
  rw [List.map_eq_nil_iff.1 hused]
  rfl

/-- Keywords have no payload. -/
theorem NextAll.passes (words : List Keyword)
    (h : NextAll input (words.map Terminal.keyword) rest) : Passes input [] rest := by
  obtain ⟨used, rfl, hused⟩ := h
  rw [List.map_map] at hused
  -- what was taken is of the kinds of the terminals, hence keywords
  have hkeyword : ∀ s ∈ used, ∃ word, s.kind = .keyword word := by
    intro s hs
    have hmem : s.kind ∈ used.map Symbol.kind := List.mem_map_of_mem hs
    rw [hused] at hmem
    obtain ⟨word, -, hword⟩ := List.mem_map.1 hmem
    exact ⟨word, hword.symm⟩
  refine ⟨used, rfl, fun _ => ?_, fun s hs => ?_⟩
  · rw [payload, List.filter_eq_nil_iff]
    intro kind hmem
    obtain ⟨s, hs, rfl⟩ := List.mem_map.1 hmem
    obtain ⟨word, hword⟩ := hkeyword s hs
    rw [hword]
    simp [TokenKind.isPayload]
  · obtain ⟨word, hword⟩ := hkeyword s hs
    rw [hword]
    simp

/-- `expectAll` has taken all its terminals. -/
theorem ensures_expectAll (ts : List Terminal) :
    Ensures room (expectAll ts) input fun _ rest => NextAll input ts rest := by
  induction ts generalizing input with
  | nil => exact ensures_pure ⟨[], rfl, rfl⟩
  | cons t ts ih =>
    exact ensures_bind (ensures_expect t) fun _ mid hnext =>
      ensures_mono ih fun _ _ hall => hall.cons hnext

theorem ensures_advanceBy (ts : List Terminal) (h : terminalsAhead input 0 ts = true) :
    Ensures room (advanceBy ts.length) input fun _ rest => NextAll input ts rest := by
  induction ts generalizing input with
  | nil => exact ensures_pure ⟨[], rfl, rfl⟩
  | cons t ts ih =>
    rw [terminalsAhead, Bool.and_eq_true] at h
    refine ensures_bind (ensures_advance_next (Terminal.accepts_iff.1 h.1) t.kind_ne_eof)
      fun _ mid hnext => ?_
    obtain ⟨s, rfl, hs⟩ := hnext
    rw [terminalsAhead_cons_succ] at h
    exact ensures_mono (ih h.2) fun _ _ hall => hall.cons ⟨s, rfl, hs⟩

/-- What it means to take terminals, or to find that one of them is missing. -/
def AcceptsAll (ts : List Terminal) (input : List Symbol) (taken : Bool) (rest : List Symbol) :
    Prop :=
  (taken = true ∧ NextAll input ts rest) ∨
    (taken = false ∧ rest = input ∧ terminalsAhead input 0 ts = false)

theorem ensures_acceptAll (ts : List Terminal) :
    Ensures room (acceptAll ts) input (AcceptsAll ts input) := by
  refine ensures_areAhead_bind ?_
  cases h : terminalsAhead input 0 ts with
  | false => exact ensures_pure (.inr ⟨rfl, rfl, h⟩)
  | true =>
    exact ensures_bind (ensures_advanceBy ts h) fun _ _ hall => ensures_pure (.inl ⟨rfl, hall⟩)

/-- `behind?` has taken its terminal and what is behind, or nothing. -/
theorem ensures_behind {t : Terminal} {p : Production α} {Q : Option α → List Symbol → Prop}
    (hsome : ∀ mid, Next input t.kind mid → Ensures room p mid fun v rest => Q (some v) rest)
    (hnone : kindAhead input 0 ≠ t.kind → Q none input) :
    Ensures room (behind? t p) input Q := by
  refine ensures_bind (ensures_accept t) fun taken mid h => ?_
  rcases h with ⟨rfl, hnext⟩ | ⟨rfl, rfl, hne⟩
  · exact ensures_bind (hsome mid hnext) fun _ _ hv => ensures_pure hv
  · exact ensures_pure (hnone hne)

/-! ## Names -/

/-- `identifier?` has taken a name, or there is none. -/
theorem ensures_identifier? : Ensures room identifier? input fun found rest =>
    (∃ own, found = some own ∧ Next input (.identifier own) rest) ∨
      (found = none ∧ rest = input ∧ (kindAhead input 0).isIdentifier = false) := by
  refine ensures_kind_bind ?_
  split
  · next own hkind =>
    exact ensures_bind (ensures_advance_next hkind (by simp)) fun _ _ hnext =>
      ensures_pure (.inl ⟨own, rfl, hnext⟩)
  · next hother =>
    refine ensures_pure (.inr ⟨rfl, rfl, ?_⟩)
    cases hkind : kindAhead input 0 with
    | identifier own => exact absurd hkind (hother own)
    | _ => rfl

theorem ensures_identifier :
    Ensures room identifier input fun own rest => Next input (.identifier own) rest := by
  refine ensures_bind ensures_identifier? fun found mid h => ?_
  rcases h with ⟨own, rfl, hnext⟩ | ⟨rfl, -⟩
  · exact ensures_pure hnext
  · exact ensures_unexpected

/-! ## Repetition -/

/-- A repetition keeps what every further item keeps. -/
theorem ensures_many {p : Production (Option α)} {I : List α → List Symbol → Prop}
    (hstart : I [] input)
    (hitem : ∀ vs mid, I vs mid → Ensures room p mid fun found rest =>
      (found = none → rest = mid) ∧ ∀ v, found = some v → I (vs ++ [v]) rest) :
    Ensures room (many p) input I := by
  refine ensures_iterate hstart fun vs mid hI => ?_
  refine ensures_bind (hitem vs mid hI) fun found rest hfound => ?_
  obtain ⟨hnone, hsome⟩ := hfound
  cases found with
  | none =>
    rw [hnone rfl]
    exact ensures_pure ⟨fun _ => hI, nofun⟩
  | some v =>
    refine ensures_pure ⟨nofun, fun vs' h => ?_⟩
    cases h
    exact ⟨hsome v rfl, fun _ => hsome v rfl⟩

/-- What it means to find an item that takes some payload, or to find none. -/
def Finds (k : α → List TokenKind) (G : α → Prop) (input : List Symbol) (found : Option α)
    (rest : List Symbol) : Prop :=
  (found = none → rest = input) ∧ ∀ v, found = some v → Passes input (k v) rest ∧ G v

theorem Finds.none {k : α → List TokenKind} {G : α → Prop} : Finds k G input none input :=
  ⟨fun _ => rfl, nofun⟩

theorem Finds.some {k : α → List TokenKind} {G : α → Prop} {v : α} (hpass : Passes input (k v) rest)
    (hgood : G v) : Finds k G input (some v) rest := by
  refine ⟨nofun, fun v' h => ?_⟩
  cases h
  exact ⟨hpass, hgood⟩

/-- Items that each take the payload they are written with. -/
theorem ensures_many_items {p : Production (Option α)} {k : α → List TokenKind} {G : α → Prop}
    (hitem : ∀ mid, Ensures room p mid (Finds k G mid)) :
    Ensures room (many p) input fun vs rest =>
      Passes input (vs.flatMap k) rest ∧ ∀ v ∈ vs, G v := by
  refine ensures_many ⟨.refl input, by simp⟩ fun vs mid hI => ?_
  refine ensures_mono (hitem mid) fun found rest hfound => ⟨hfound.1, fun v hv => ?_⟩
  obtain ⟨hpass, hgood⟩ := hfound.2 v hv
  refine ⟨(hI.1.trans hpass).cast (by simp), fun v' hv' => ?_⟩
  rcases List.mem_append.1 hv' with h | h
  · exact hI.2 v' h
  · rw [List.mem_singleton.1 h]
    exact hgood

/-- A list takes the payload of its items, with a comma between every two. -/
theorem ensures_commaSeparated {item : Production α} {w : α → List Piece} {G : α → Prop}
    (h : ∀ mid, Ensures room item mid fun v rest =>
      Passes mid (payload (Pieces.symbols (w v))) rest ∧ G v) :
    Ensures room (commaSeparated item) input fun vs rest => vs ≠ [] ∧
      Passes input (payload (Pieces.symbols (Pieces.commaList (vs.map w)))) rest ∧
      ∀ v ∈ vs, G v := by
  refine ensures_bind (h input) fun first mid hfirst => ?_
  refine ensures_bind (ensures_many_items
    (k := fun v => .operator .comma :: payload (Pieces.symbols (w v))) (G := G)
    fun mid => ensures_behind (fun mid' hnext => ?_) fun _ => .none)
    fun others rest hothers => ensures_pure ⟨by simp, ?_, ?_⟩
  · exact ensures_mono (h mid') fun v rest hv =>
      .some ((hnext.passes (by simp [Terminal.kind])).trans hv.1) hv.2
  · refine (hfirst.1.trans hothers.1).cast ?_
    rw [List.map_cons, Pieces.payload_commaList_cons, List.flatMap_map]
  · simp only [List.mem_cons, forall_eq_or_imp]
    exact ⟨hfirst.2, hothers.2⟩

/-- Parentheses have no payload. -/
theorem ensures_parenthesized {p : Production α} {k : α → List TokenKind} {G : α → Prop}
    (h : ∀ mid, Ensures room p mid fun v rest => Passes mid (k v) rest ∧ G v) :
    Ensures room (parenthesized p) input fun v rest => Passes input (k v) rest ∧ G v := by
  refine ensures_bind (ensures_expect _) fun _ inner hopen => ?_
  refine ensures_bind (h inner) fun v mid hv => ?_
  refine ensures_bind (ensures_expect _) fun _ rest hclose => ensures_pure ⟨?_, hv.2⟩
  have hpass := (hopen.passes (by simp [Terminal.kind])).trans
    (hv.1.trans (hclose.passes (by simp [Terminal.kind])))
  exact hpass.cast (by simp [Terminal.kind])

/-- Names in parentheses. -/
theorem ensures_identifierList : Ensures room identifierList input fun names rest =>
    Passes input (payload (Pieces.symbols (Pieces.names names))) rest ∧ names ≠ [] := by
  refine ensures_parenthesized fun mid => ?_
  refine ensures_mono (ensures_commaSeparated (w := fun n => [Piece.name n])
    (G := fun _ => True) fun mid => ensures_mono ensures_identifier fun own rest hnext =>
      ⟨hnext.passes_name.cast (by simp), trivial⟩) fun names rest h => ⟨h.2.1, h.1⟩

/-- A list behind keywords, if they are there. -/
theorem ensures_listBehind {item : Production α} {w : α → List Piece} {G : α → Prop}
    (words : List Keyword)
    (h : ∀ mid, Ensures room item mid fun v rest =>
      Passes mid (payload (Pieces.symbols (w v))) rest ∧ G v) :
    Ensures room (listBehind (words.map Terminal.keyword) item) input fun vs rest =>
      Passes input (payload (Pieces.symbols (Pieces.commaList (vs.map w)))) rest ∧
      ∀ v ∈ vs, G v := by
  refine ensures_bind (ensures_acceptAll _) fun taken mid htaken => ?_
  rcases htaken with ⟨rfl, hall⟩ | ⟨rfl, rfl, -⟩
  · refine ensures_mono (ensures_commaSeparated h) fun vs rest hvs => ⟨?_, hvs.2.2⟩
    exact ((NextAll.passes words hall).trans hvs.2.1).cast (by simp)
  · exact ensures_pure ⟨.refl _, by simp⟩

/-! ## Choice and end -/

/-- What is left of the input when one of several choices was tried: what follows the value, or all
of it if the choice does not fit. -/
def Tried (Q : α → List Symbol → Prop) (input : List Symbol) :
    Except (List String) α → List Symbol → Prop
  | .ok v, rest => Q v rest
  | .error _, rest => rest = input

/-- Each choice of `firstOf` must ensure it. -/
theorem ensures_firstOf {Q : α → List Symbol → Prop} {ps : List (Production α)}
    (h : ∀ p ∈ ps, Ensures room p input Q) :
    ∀ known, Ensures room (firstOf known ps) input Q := by
  induction ps with
  | nil => exact fun known => ensures_unexpected
  | cons p ps ih =>
    intro known
    refine ensures_bind (R := Tried Q input)
      (ensures_attempt (h p (by simp)) fun _ => rfl) fun outcome mid houtcome => ?_
    cases outcome with
    | ok v => exact ensures_pure houtcome
    -- a choice that does not fit leaves the input for the next one
    | error expected =>
      subst houtcome
      exact ih (fun q hq => h q (by simp [hq])) _

/-- At the end of a text stands at most a semicolon. -/
theorem ensures_expectEnd : Ensures room expectEnd input fun _ _ =>
    input = [] ∨ Next input (.operator .semicolon) [] := by
  refine ensures_of_valid fun hvalid => ?_
  -- no symbol of a text marks its end, so that nothing is ahead there
  have hend : ∀ mid : List Symbol, (∀ s ∈ mid, s.Valid) → kindAhead mid 0 = .eof → mid = [] := by
    intro mid hmid heof
    cases mid with
    | nil => rfl
    | cons s ss => exact absurd heof (hmid s (by simp)).ne_eof
  refine ensures_bind (ensures_accept _) fun taken mid h => ?_
  refine ensures_of_valid fun hmid => ensures_kind_bind ?_
  split
  · next heof =>
    have hnil := hend mid hmid heof
    subst hnil
    rcases h with ⟨rfl, hnext⟩ | ⟨rfl, rfl, -⟩
    · exact ensures_pure (.inr hnext)
    · exact ensures_pure (.inl rfl)
  · exact ensures_unexpected

end Grammar

end SqlGrammar
