import SqlGrammar.Lexer.Scan

/-!
# Scans before a foreign character

A scan that uses up a whole text gives the same token when more text follows, provided that the
token does not go on with the first character of what follows (`scan_extend`). The characters that
go on no token are those of `endsToken`; a point goes on a number and nothing else.
-/

set_option autoImplicit false

namespace SqlGrammar.Lexer

open Text

/-- Whether a character goes on no token but, if it is a point, a number. -/
def endsToken (c : Char) : Bool :=
  !continuesWord c &&
    !(['=', '<', '>', '|', '\'', '\x22', '\x60', '+', '-', '*'].contains c)

/-- What can follow a token of a kind without being drawn into it. -/
def Detached (kind : TokenKind) (rest : List Char) : Prop :=
  ∀ c ∈ rest.head?, endsToken c = true ∧ (kind.isNumber = true → c ≠ '.')

/-- The end of the text is detached from every token. -/
theorem Detached.nil (kind : TokenKind) : Detached kind [] := by
  simp [Detached]

section Classes

variable {c : Char}

/-- `Char.isAlpha` by ranges. -/
theorem isAlpha_iff : c.isAlpha = true ↔ 'A' ≤ c ∧ c ≤ 'Z' ∨ 'a' ≤ c ∧ c ≤ 'z' := by
  refine Bool.or_eq_true_iff.trans (or_congr decide_eq_true_iff ?_)
  exact Bool.and_eq_true_iff.trans (and_congr decide_eq_true_iff decide_eq_true_iff)

theorem isLetterOrNumeric_of_isDigit (h : c.isDigit = true) : isLetterOrNumeric c = true := by
  simp [isLetterOrNumeric, isNumeric, h]

theorem continuesWord_of_isDigit (h : c.isDigit = true) : continuesWord c = true := by
  simp [continuesWord, isLetterOrNumeric_of_isDigit h]

/-- A hexadecimal digit continues a word, so that what ends a token is none. -/
theorem continuesWord_of_hexDigit (h : HexBytes.isDigit c = true) : continuesWord c = true := by
  simp only [HexBytes.isDigit, Bool.or_eq_true, decide_eq_true_eq] at h
  rcases h with (h | ⟨h₁, h₂⟩) | ⟨h₁, h₂⟩
  · exact continuesWord_of_isDigit h
  · have halpha : c.isAlpha = true := isAlpha_iff.2 (.inr ⟨h₁, Char.le_trans h₂ (by decide)⟩)
    simp [continuesWord, isLetterOrNumeric, isLetter, halpha]
  · have halpha : c.isAlpha = true := isAlpha_iff.2 (.inl ⟨h₁, Char.le_trans h₂ (by decide)⟩)
    simp [continuesWord, isLetterOrNumeric, isLetter, halpha]

theorem continuesWord_of_nameChar (h : (isLetterOrNumeric c || c == '_') = true) :
    continuesWord c = true := by
  rcases Bool.or_eq_true _ _ ▸ h with h | h <;> simp [continuesWord, h]

end Classes

section Split

variable {p : Char → Bool} {rest : List Char}

/-- What `List.takeWhile` takes does not change if the predicate fails right behind. -/
theorem takeWhile_append_stop (h : ∀ c ∈ rest.head?, p c = false) (cs : List Char) :
    (cs ++ rest).takeWhile p = cs.takeWhile p := by
  have hrest : rest.takeWhile p = [] := by
    cases rest with
    | nil => rfl
    | cons c rest => simp [h c (by simp)]
  rw [List.takeWhile_append, hrest]
  split
  · next hl => rw [List.append_nil, (List.takeWhile_sublist p).eq_of_length hl]
  · rfl

/-- What `List.dropWhile` leaves gets more behind if the predicate fails right there. -/
theorem dropWhile_append_stop (h : ∀ c ∈ rest.head?, p c = false) (cs : List Char) :
    (cs ++ rest).dropWhile p = cs.dropWhile p ++ rest := by
  have hrest : rest.dropWhile p = rest := by
    cases rest with
    | nil => rfl
    | cons c rest => simp [h c (by simp)]
  rw [List.dropWhile_append, hrest]
  split
  · next hl => rw [List.isEmpty_iff.1 hl, List.nil_append]
  · rfl

/-- Where a run of characters stops inside a text, more text behind makes no difference. -/
theorem span_append_of_dropWhile_cons {cs behind : List Char} {c : Char} (rest : List Char)
    (h : cs.dropWhile p = c :: behind) :
    (cs ++ rest).takeWhile p = cs.takeWhile p ∧
      (cs ++ rest).dropWhile p = c :: (behind ++ rest) := by
  constructor
  · rw [List.takeWhile_append, if_neg]
    intro hl
    have := congrArg List.length (List.takeWhile_append_dropWhile (p := p) (l := cs))
    rw [List.length_append, hl, h] at this
    simp at this
  · rw [List.dropWhile_append, h]
    rfl

end Split

namespace Detached

variable {kind : TokenKind} {rest : List Char}

/-- No class of word characters goes on behind the token. -/
theorem stops (h : Detached kind rest) {p : Char → Bool}
    (hp : ∀ c, p c = true → continuesWord c = true) : ∀ c ∈ rest.head?, p c = false := by
  intro c hc
  have hend := (h c hc).1
  cases hpc : p c with
  | false => rfl
  | true => simp [endsToken, hp c hpc] at hend

/-- The next character is none that `endsToken` excludes. -/
theorem head_ne (h : Detached kind rest) {c d : Char} (hc : c ∈ rest.head?)
    (hd : endsToken d = false) : c ≠ d := by
  rintro rfl
  rw [(h c hc).1] at hd
  exact absurd hd (by decide)

end Detached
/-! ## Words, quoted texts and blobs -/

section Scanners

variable {kind : TokenKind} {rest : List Char}

/-- A scan of a whole text reads the same of a longer one, if what follows is `Detached`. -/
theorem scanWord_extend {cs : List Char} (h : scanWord cs = ⟨.ok kind, cs, []⟩)
    (hr : Detached kind rest) : scanWord (cs ++ rest) = ⟨.ok kind, cs, rest⟩ := by
  have hstop := hr.stops (p := continuesWord) fun c hc => hc
  simp only [scanWord, Scan.mk.injEq] at h
  obtain ⟨hkind, htake, hdrop⟩ := h
  simp only [scanWord, takeWhile_append_stop hstop, dropWhile_append_stop hstop, htake, hdrop,
    List.nil_append] at hkind ⊢
  rw [hkind]

/-- A quote that closes at the end still closes there unless it is doubled. -/
theorem close?_extend {quote : Char} {rest : List Char} (h : ∀ c ∈ rest.head?, c ≠ quote) :
    ∀ (cs : List Char) (q : Quoted.Reading), Quoted.close? quote cs = some q → q.rest = [] →
      Quoted.close? quote (cs ++ rest) = some { q with rest := rest } := by
  intro cs
  fun_induction Quoted.close? quote cs with
  | case1 => simp
  | case2 =>
    -- what follows does not double the quote at the end
    rintro q ⟨⟩ -
    cases rest with
    | nil => simp [Quoted.close?]
    | cons c rest => simp [Quoted.close?, h c (by simp)]
  | case3 => simp
  | case4 cs ih =>
    intro q hq hrest
    obtain ⟨q', hq', rfl⟩ := Option.map_eq_some_iff.1 hq
    simp [Quoted.close?, ih q' hq' hrest]
  | case5 d cs hd =>
    rintro q ⟨⟩ hrest
    simp at hrest
  | case6 c d cs hc ih =>
    intro q hq hrest
    obtain ⟨q', hq', rfl⟩ := Option.map_eq_some_iff.1 hq
    have := ih q' hq' hrest
    rw [List.cons_append] at this
    simp [Quoted.close?, hc, this]

/-- What follows must not start with the quote. -/
theorem scanQuoted_extend {quote c : Char} {toKind : String → TokenKind} {unclosed : Fault}
    {cs : List Char} (h : scanQuoted quote toKind unclosed cs = ⟨.ok kind, c :: cs, []⟩)
    (hr : ∀ c ∈ rest.head?, c ≠ quote) :
    scanQuoted quote toKind unclosed (cs ++ rest) = ⟨.ok kind, c :: cs, rest⟩ := by
  unfold scanQuoted at h ⊢
  cases hq : Quoted.close? quote cs with
  | none => simp [hq] at h
  | some q =>
    simp only [hq, Scan.mk.injEq] at h
    obtain ⟨hkind, hlex, hrest⟩ := h
    simp [close?_extend hr cs q hq hrest, hkind, hlex]

/-- A bracket closes whatever follows. -/
theorem scanBracketed_extend {cs : List Char} (h : scanBracketed cs = ⟨.ok kind, '[' :: cs, []⟩) :
    scanBracketed (cs ++ rest) = ⟨.ok kind, '[' :: cs, rest⟩ := by
  unfold scanBracketed at h ⊢
  cases hd : cs.dropWhile (· ≠ ']') with
  | nil => rw [hd] at h; simp at h
  | cons close behind =>
    obtain ⟨htake, hdrop⟩ := span_append_of_dropWhile_cons rest hd
    rw [hd] at h
    rw [htake, hdrop]
    simp only [Scan.mk.injEq] at h ⊢
    obtain ⟨hkind, hlex, hrest⟩ := h
    exact ⟨hkind, hlex, by rw [hrest, List.nil_append]⟩

/-- A blob ends at its quote whatever follows. -/
theorem scanBlob_extend {marker : Char} {cs : List Char}
    (h : scanBlob marker cs = ⟨.ok kind, marker :: '\'' :: cs, []⟩) :
    scanBlob marker (cs ++ rest) = ⟨.ok kind, marker :: '\'' :: cs, rest⟩ := by
  unfold scanBlob at h ⊢
  cases hd : cs.dropWhile HexBytes.isDigit with
  | nil => rw [hd] at h; simp at h
  | cons d behind =>
    obtain ⟨htake, hdrop⟩ := span_append_of_dropWhile_cons rest hd
    rw [hd] at h
    rw [htake, hdrop]
    by_cases hquote : d = '\''
    · subst hquote
      simp only [Scan.mk.injEq] at h ⊢
      obtain ⟨hkind, hlex, hrest⟩ := h
      exact ⟨hkind, hlex, by rw [hrest, List.nil_append]⟩
    -- any other character behind the digits is a fault
    · simp [hquote] at h

end Scanners

/-! ## Numbers and parameters -/

section Numbers

variable {kind : TokenKind} {rest : List Char}

/-- A number that ends well ends the text. -/
theorem endNumber_ok {lexeme cs whole : List Char}
    (h : endNumber lexeme cs = ⟨.ok kind, whole, []⟩) :
    cs = [] ∧ lexeme = whole ∧ kind = .number (String.ofList lexeme) := by
  unfold endNumber at h
  cases htake : cs.takeWhile continuesWord with
  | nil =>
    simp only [htake, Scan.mk.injEq, Except.ok.injEq] at h
    exact ⟨h.2.2, h.2.1, h.1.symm⟩
  | cons c tail => simp [htake] at h

/-- Detached text starts with no word, so that a number ends before it. -/
theorem endNumber_detached {lexeme : List Char} (hr : Detached kind rest) :
    endNumber lexeme rest = ⟨.ok (.number (String.ofList lexeme)), lexeme, rest⟩ := by
  have hstop := takeWhile_append_stop (hr.stops (p := continuesWord) fun c hc => hc) []
  rw [List.nil_append, List.takeWhile_nil] at hstop
  simp [endNumber, hstop]

/-- A number that ends with the text ends also before a character that does not go it on. -/
theorem endNumber_extend {lexeme cs whole : List Char}
    (h : endNumber lexeme cs = ⟨.ok kind, whole, []⟩) (hr : Detached kind rest) :
    endNumber lexeme (cs ++ rest) = ⟨.ok kind, whole, rest⟩ := by
  obtain ⟨rfl, rfl, rfl⟩ := endNumber_ok h
  rw [List.nil_append, endNumber_detached hr]

theorem scanHexNumber_extend {mark : Char} {cs whole : List Char}
    (h : scanHexNumber mark cs = ⟨.ok kind, whole, []⟩) (hr : Detached kind rest) :
    scanHexNumber mark (cs ++ rest) = ⟨.ok kind, whole, rest⟩ := by
  have hstop := hr.stops fun c => continuesWord_of_hexDigit
  unfold scanHexNumber at h ⊢
  rw [takeWhile_append_stop hstop, dropWhile_append_stop hstop]
  cases hd : cs.takeWhile HexBytes.isDigit with
  | nil => simp [hd] at h
  | cons d ds =>
    rw [hd] at h
    exact endNumber_extend h hr

/-- Neither a point nor a digit may follow. -/
theorem splitFraction_append (hpoint : ∀ c ∈ rest.head?, c ≠ '.')
    (hdigit : ∀ c ∈ rest.head?, c.isDigit = false) (cs : List Char) :
    splitFraction (cs ++ rest) = ((splitFraction cs).1, (splitFraction cs).2 ++ rest) := by
  cases cs with
  | nil =>
    cases rest with
    | nil => rfl
    | cons c rest =>
      have := hpoint c (by simp)
      simp [splitFraction, this]
  | cons c cs =>
    by_cases hc : c = '.'
    · subst hc
      simp [splitFraction, takeWhile_append_stop hdigit, dropWhile_append_stop hdigit]
    · simp [splitFraction, hc]

/-- No sign may follow. -/
theorem splitSign_append (h : ∀ c ∈ rest.head?, c ≠ '+' ∧ c ≠ '-') (cs : List Char) :
    splitSign (cs ++ rest) = ((splitSign cs).1, (splitSign cs).2 ++ rest) := by
  cases cs with
  | nil =>
    cases rest with
    | nil => rfl
    | cons c rest =>
      obtain ⟨h₁, h₂⟩ := h c (by simp)
      simp [splitSign, h₁, h₂]
  | cons c cs =>
    by_cases h₁ : c = '+'
    · subst h₁; rfl
    · by_cases h₂ : c = '-'
      · subst h₂; rfl
      · simp [splitSign, h₁, h₂]

theorem scanExponent_extend {mantissa cs whole : List Char}
    (h : scanExponent mantissa cs = ⟨.ok kind, whole, []⟩) (hr : Detached kind rest) :
    scanExponent mantissa (cs ++ rest) = ⟨.ok kind, whole, rest⟩ := by
  have hdigit := hr.stops fun c => continuesWord_of_isDigit
  cases cs with
  | nil =>
    have hend : endNumber mantissa ([] ++ rest) = ⟨.ok kind, whole, rest⟩ := endNumber_extend h hr
    cases rest with
    | nil => exact h
    | cons c rest =>
      have hword := hr.stops (p := continuesWord) (fun c hc => hc) c (by simp)
      -- the mark of an exponent would be a word character
      have hmark : ¬ (c = 'e' ∨ c = 'E') := by
        rintro (rfl | rfl) <;> exact absurd hword (by decide)
      simpa [scanExponent, hmark] using hend
  | cons mark cs =>
    unfold scanExponent at h ⊢
    rw [List.cons_append]
    by_cases hmark : mark = 'e' ∨ mark = 'E'
    · have hsign : ∀ c ∈ rest.head?, c ≠ '+' ∧ c ≠ '-' := fun c hc =>
        ⟨hr.head_ne hc (by decide), hr.head_ne hc (by decide)⟩
      simp only [hmark, if_true, splitSign_append hsign, takeWhile_append_stop hdigit,
        dropWhile_append_stop hdigit] at h ⊢
      cases hd : (splitSign cs).2.takeWhile Char.isDigit with
      | nil => simp [hd] at h
      | cons d ds =>
        rw [hd] at h
        exact endNumber_extend h hr
    · simp only [hmark, if_false] at h ⊢
      exact endNumber_extend h hr

/-- No point may follow, which would start a fraction. -/
theorem scanDecimal_extend {cs whole : List Char} (h : scanDecimal cs = ⟨.ok kind, whole, []⟩)
    (hr : Detached kind rest) (hpoint : ∀ c ∈ rest.head?, c ≠ '.') :
    scanDecimal (cs ++ rest) = ⟨.ok kind, whole, rest⟩ := by
  have hdigit := hr.stops fun c => continuesWord_of_isDigit
  unfold scanDecimal at h ⊢
  rw [takeWhile_append_stop hdigit, dropWhile_append_stop hdigit,
    splitFraction_append hpoint hdigit]
  exact scanExponent_extend h hr

/-! A number is of the kind that carries its text. -/

/-- A number carries the text that was read. -/
theorem endNumber_kind {lexeme cs whole : List Char}
    (h : endNumber lexeme cs = ⟨.ok kind, whole, []⟩) : kind = .number (String.ofList whole) := by
  obtain ⟨-, rfl, hkind⟩ := endNumber_ok h
  exact hkind

theorem scanHexNumber_kind {mark : Char} {cs whole : List Char}
    (h : scanHexNumber mark cs = ⟨.ok kind, whole, []⟩) :
    kind = .number (String.ofList whole) := by
  unfold scanHexNumber at h
  split at h
  · simp at h
  · exact endNumber_kind h

theorem scanExponent_kind {mantissa cs whole : List Char}
    (h : scanExponent mantissa cs = ⟨.ok kind, whole, []⟩) :
    kind = .number (String.ofList whole) := by
  unfold scanExponent at h
  split at h
  · split at h
    · dsimp only at h
      split at h
      · simp at h
      · exact endNumber_kind h
    · exact endNumber_kind h
  · exact endNumber_kind h

theorem scanNumber_kind {cs whole : List Char} (h : scanNumber cs = ⟨.ok kind, whole, []⟩) :
    kind = .number (String.ofList whole) := by
  unfold scanNumber at h
  split at h
  · exact scanHexNumber_kind h
  · exact scanHexNumber_kind h
  · exact scanExponent_kind h

/-- What follows a text that is not empty cannot bring in the mark of a hexadecimal number. -/
theorem eq_cons_of_append_eq {mark : Char} {cs ds : List Char} (hmark : continuesWord mark = true)
    (hrest : ∀ c ∈ rest.head?, continuesWord c = false) (hne : cs ≠ [])
    (h : cs ++ rest = '0' :: mark :: ds) : ∃ tail, cs = '0' :: mark :: tail := by
  rcases cs with _ | ⟨c, _ | ⟨d, cs⟩⟩
  · exact absurd rfl hne
  · simp only [List.cons_append, List.nil_append, List.cons.injEq] at h
    have hstop := hrest mark (by simp [h.2])
    rw [hmark] at hstop
    cases hstop
  · simp only [List.cons_append, List.cons.injEq] at h
    exact ⟨cs, by rw [h.1, h.2.1]⟩

theorem scanNumber_extend {cs whole : List Char} (h : scanNumber cs = ⟨.ok kind, whole, []⟩)
    (hr : Detached kind rest) (hne : cs ≠ []) :
    scanNumber (cs ++ rest) = ⟨.ok kind, whole, rest⟩ := by
  have hpoint : ∀ c ∈ rest.head?, c ≠ '.' := by
    intro c hc
    apply (hr c hc).2
    rw [scanNumber_kind h]
    rfl
  unfold scanNumber at h
  split at h
  · exact scanHexNumber_extend h hr
  · exact scanHexNumber_extend h hr
  · next hx hX =>
    -- a decimal number stays one, also if it is a zero before an `x`
    have hdecimal : scanNumber (cs ++ rest) = scanDecimal (cs ++ rest) := by
      have hword : ∀ c ∈ rest.head?, continuesWord c = false := hr.stops fun c hc => hc
      unfold scanNumber
      split
      · next ds hds =>
        obtain ⟨tail, htail⟩ := eq_cons_of_append_eq (by decide) hword hne hds
        exact absurd htail (hx tail)
      · next ds hds =>
        obtain ⟨tail, htail⟩ := eq_cons_of_append_eq (by decide) hword hne hds
        exact absurd htail (hX tail)
      · rfl
    rw [hdecimal]
    exact scanDecimal_extend h hr hpoint

theorem scanParameter_extend {sigil : Char} {cs : List Char}
    (h : scanParameter sigil cs = ⟨.ok kind, sigil :: cs, []⟩) (hr : Detached kind rest) :
    scanParameter sigil (cs ++ rest) = ⟨.ok kind, sigil :: cs, rest⟩ := by
  have hdigit := hr.stops fun c => continuesWord_of_isDigit
  have hname := hr.stops fun c => continuesWord_of_nameChar
  unfold scanParameter at h ⊢
  by_cases hsigil : sigil = '?'
  · simp only [hsigil, if_true, takeWhile_append_stop hdigit, dropWhile_append_stop hdigit,
      Scan.mk.injEq] at h ⊢
    exact ⟨h.1, h.2.1, by rw [h.2.2, List.nil_append]⟩
  · simp only [hsigil, if_false, takeWhile_append_stop hname, dropWhile_append_stop hname] at h ⊢
    cases hd : cs.takeWhile fun c => isLetterOrNumeric c || c == '_' with
    | nil => simp [hd] at h
    | cons d ds =>
      simp only [hd, Scan.mk.injEq] at h ⊢
      exact ⟨h.1, h.2.1, by rw [h.2.2, List.nil_append]⟩

end Numbers

/-! ## Operators and the whole scan -/

section Whole

variable {kind : TokenKind} {rest : List Char}

/-- No operator is lengthened by a character that ends tokens. -/
theorem operatorAt?_extend {cs : List Char} {sign : Operator}
    (hmem : (cs, sign) ∈ Operator.spellings) (hr : ∀ c ∈ rest.head?, endsToken c = true)
    (h : operatorAt? cs = some (cs, sign)) :
    operatorAt? (cs ++ rest) = some (cs, sign) := by
  cases rest with
  | nil => rwa [List.append_nil]
  | cons d rest =>
    have hd : endsToken d = true := hr d (by simp)
    have hne : ∀ e, endsToken e = false → (e == d) = false := by
      intro e he
      rw [beq_eq_false_iff_ne]
      rintro rfl
      rw [he] at hd
      exact absurd hd (by decide)
    -- the longer operators go on with one of these
    have heq := hne '=' (by decide)
    have hlt := hne '<' (by decide)
    have hgt := hne '>' (by decide)
    have hbar := hne '|' (by decide)
    simp only [Operator.spellings, List.mem_cons, Prod.mk.injEq, List.not_mem_nil, or_false] at hmem
    rcases hmem with ⟨rfl, rfl⟩ | ⟨rfl, rfl⟩ | ⟨rfl, rfl⟩ | ⟨rfl, rfl⟩ | ⟨rfl, rfl⟩ | ⟨rfl, rfl⟩ |
      ⟨rfl, rfl⟩ | ⟨rfl, rfl⟩ | ⟨rfl, rfl⟩ | ⟨rfl, rfl⟩ | ⟨rfl, rfl⟩ | ⟨rfl, rfl⟩ | ⟨rfl, rfl⟩ |
      ⟨rfl, rfl⟩ | ⟨rfl, rfl⟩ | ⟨rfl, rfl⟩ | ⟨rfl, rfl⟩ | ⟨rfl, rfl⟩ | ⟨rfl, rfl⟩ | ⟨rfl, rfl⟩ |
      ⟨rfl, rfl⟩ | ⟨rfl, rfl⟩ | ⟨rfl, rfl⟩ | ⟨rfl, rfl⟩ <;>
      simp [operatorAt?, Operator.spellings, List.isPrefixOf, heq, hlt, hgt, hbar]

theorem scanOperator_extend {c : Char} {cs : List Char}
    (h : scanOperator c cs = ⟨.ok kind, c :: cs, []⟩) (hr : ∀ c ∈ rest.head?, endsToken c = true) :
    scanOperator c (cs ++ rest) = ⟨.ok kind, c :: cs, rest⟩ := by
  unfold scanOperator at h
  cases hop : operatorAt? (c :: cs) with
  | none => simp [hop] at h
  | some found =>
    obtain ⟨spelling, sign⟩ := found
    simp only [hop, Scan.mk.injEq] at h
    obtain ⟨hkind, rfl, -⟩ := h
    have hlong := operatorAt?_extend (List.mem_of_find?_eq_some hop) hr hop
    rw [List.cons_append] at hlong
    simp [scanOperator, hlong, hkind]

theorem startsNumber_append (hr : ∀ c ∈ rest.head?, c.isDigit = false) (c : Char) (cs : List Char) :
    startsNumber c (cs ++ rest) = startsNumber c cs := by
  unfold startsNumber
  cases cs with
  | nil =>
    cases rest with
    | nil => rfl
    | cons d rest => simp [hr d (by simp)]
  | cons d cs => rfl

/-- A token that makes up a whole text is also read off before a character that goes it on in no
way. -/
theorem scan_extend {c : Char} {cs : List Char} (h : scan c cs = ⟨.ok kind, c :: cs, []⟩)
    (hr : Detached kind rest) : scan c (cs ++ rest) = ⟨.ok kind, c :: cs, rest⟩ := by
  have hends : ∀ d ∈ rest.head?, endsToken d = true := fun d hd => (hr d hd).1
  have hquote : ∀ q, endsToken q = false → ∀ d ∈ rest.head?, d ≠ q :=
    fun q hq d hd => hr.head_ne hd hq
  -- what follows cannot turn a lone `x` into the marker of a blob either
  have hblob : ((cs ++ rest).head? == some '\'') = (cs.head? == some '\'') := by
    cases cs with
    | nil =>
      cases rest with
      | nil => rfl
      | cons d rest => simpa using hquote '\'' (by decide) d (by simp)
    | cons d cs => rfl
  -- the longer text takes the branch of the text alone
  unfold scan at h ⊢
  rw [startsNumber_append (hr.stops fun c => continuesWord_of_isDigit), hblob]
  split at h
  · next hnum =>
    have hextend := scanNumber_extend h hr (List.cons_ne_nil c cs)
    rw [if_pos hnum]
    exact hextend
  · next hnum =>
    rw [if_neg hnum]
    split at h
    · next hx =>
      rw [if_pos hx]
      cases cs with
      | nil => simp at hx
      | cons d cs =>
        rw [Bool.and_eq_true] at hx
        obtain rfl : d = '\'' := by simpa using hx.2
        exact scanBlob_extend h
    · next hx =>
      rw [if_neg hx]
      split at h
      · next hword =>
        have hextend := scanWord_extend h hr
        rw [if_pos hword]
        exact hextend
      · next hword =>
        rw [if_neg hword]
        split at h
        · exact scanQuoted_extend h (hquote _ (by decide))
        · exact scanQuoted_extend h (hquote _ (by decide))
        · exact scanQuoted_extend h (hquote _ (by decide))
        · exact scanBracketed_extend h
        · exact scanParameter_extend h hr
        · exact scanParameter_extend h hr
        · exact scanParameter_extend h hr
        · exact scanParameter_extend h hr
        · exact scanOperator_extend h hends

end Whole

end SqlGrammar.Lexer
