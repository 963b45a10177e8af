import SqlGrammar.Proofs.Lexer.Written

/-!
# Tokens that are read again

What stands behind a token does not matter for it: a token that was read off the front of a text is
also read when it stands alone (`alone_of_scan`). There is one lemma for each class of tokens.
-/

set_option autoImplicit false

namespace SqlGrammar.Lexer

open Text

/-! ## Runs of characters -/

/-- What a run of a class took is all of that class. -/
theorem forall_takeWhile {p : Char → Bool} (cs : List Char) : ∀ c ∈ cs.takeWhile p, p c = true :=
  fun c hc => List.all_eq_true.1 List.all_takeWhile c hc

/-- A run of a class in front of a character that is not of the class. -/
theorem span_append {p : Char → Bool} {cs rest : List Char} (h : ∀ c ∈ cs, p c = true)
    (hr : ∀ c ∈ rest.head?, p c = false) :
    (cs ++ rest).takeWhile p = cs ∧ (cs ++ rest).dropWhile p = rest := by
  obtain ⟨htake, hdrop⟩ := span_of_forall h
  rw [takeWhile_append_stop hr, dropWhile_append_stop hr, htake, hdrop]
  exact ⟨rfl, rfl⟩

/-- What stops a run of a class is not of the class. -/
theorem of_dropWhile_eq_cons {p : Char → Bool} {c : Char} {cs rest : List Char}
    (h : cs.dropWhile p = c :: rest) : p c = false := by
  have hstop := List.head?_dropWhile_not p cs
  rw [h] at hstop
  simpa using hstop

/-! ## Quoted texts alone -/

section Quoted

/-- A quoted text is closed by its own last quote. -/
theorem close?_alone {quote : Char} :
    ∀ (cs : List Char) (q : Quoted.Reading), Quoted.close? quote cs = some q →
      Quoted.close? quote q.lexeme = some { q with rest := [] } := by
  intro cs
  fun_induction Quoted.close? quote cs with
  | case1 => simp
  | case2 =>
    rintro q ⟨⟩
    simp [Quoted.close?]
  | case3 => simp
  | case4 cs ih =>
    intro q hq
    obtain ⟨q', hq', rfl⟩ := Option.map_eq_some_iff.1 hq
    simp [Quoted.close?, ih q' hq']
  | case5 d cs hd =>
    rintro q ⟨⟩
    simp [Quoted.close?]
  | case6 c d cs hc ih =>
    intro q hq
    obtain ⟨q', hq', rfl⟩ := Option.map_eq_some_iff.1 hq
    have halone := ih q' hq'
    -- the lexeme goes on, for nothing is closed by no character
    cases hlexeme : q'.lexeme with
    | nil =>
      rw [hlexeme] at halone
      cases halone
    | cons e es =>
      rw [hlexeme] at halone
      simp [Quoted.close?, hc, halone]

variable {quote : Char} {toKind : String → TokenKind} {unclosed : Fault}

theorem Quotes.scan_eq (h : Quotes quote toKind unclosed) (cs : List Char) :
    scan quote cs = scanQuoted quote toKind unclosed cs := by
  cases h <;> rfl

theorem Quotes.no_gap (h : Quotes quote toKind unclosed) (cs : List Char) :
    startsGap (quote :: cs) = false := by
  cases h <;> rfl

theorem alone_of_scanQuoted {cs lexeme behind : List Char} {kind : TokenKind}
    (hquotes : Quotes quote toKind unclosed)
    (h : scanQuoted quote toKind unclosed cs = ⟨.ok kind, lexeme, behind⟩) : Alone kind lexeme := by
  unfold scanQuoted at h
  cases hq : Quoted.close? quote cs with
  | none => simp [hq] at h
  | some q =>
    simp only [hq, Scan.mk.injEq, Except.ok.injEq] at h
    obtain ⟨rfl, rfl, -⟩ := h
    refine ⟨hquotes.no_gap _, quote, q.lexeme, rfl, ?_⟩
    rw [hquotes.scan_eq, scanQuoted, close?_alone cs q hq]

end Quoted

/-! ## Names in brackets and blobs alone -/

section Enclosed

variable {cs lexeme behind : List Char} {kind : TokenKind}

theorem alone_of_scanBracketed (h : scanBracketed cs = ⟨.ok kind, lexeme, behind⟩) :
    Alone kind lexeme := by
  unfold scanBracketed at h
  cases hdrop : cs.dropWhile (· ≠ ']') with
  | nil =>
    rw [hdrop] at h
    cases h
  | cons close rest =>
    obtain rfl : close = ']' := by simpa using of_dropWhile_eq_cons hdrop
    simp only [hdrop, Scan.mk.injEq, Except.ok.injEq] at h
    obtain ⟨rfl, rfl, -⟩ := h
    refine ⟨rfl, '[', _, rfl, ?_⟩
    have hstop : ∀ c ∈ ([']'] : List Char).head?, decide (c ≠ ']') = false := by simp
    obtain ⟨htake, hrest⟩ := span_append (forall_takeWhile (p := (· ≠ ']')) cs) hstop
    change scanBracketed (cs.takeWhile (· ≠ ']') ++ [']']) = _
    rw [scanBracketed, htake, hrest]

theorem alone_of_scanBlob {marker : Char} (hmarker : marker = 'x' ∨ marker = 'X')
    (h : scanBlob marker cs = ⟨.ok kind, lexeme, behind⟩) : Alone kind lexeme := by
  unfold scanBlob at h
  cases hdrop : cs.dropWhile HexBytes.isDigit with
  | nil => simp [hdrop] at h
  | cons d rest =>
    by_cases hquote : d = '\''
    · subst hquote
      cases hbytes : HexBytes.decode? (cs.takeWhile HexBytes.isDigit) with
      | none => simp [hdrop, hbytes] at h
      | some bytes =>
        simp only [hdrop, hbytes, Scan.mk.injEq, Except.ok.injEq] at h
        obtain ⟨rfl, rfl, -⟩ := h
        exact alone_digits hmarker (forall_takeWhile cs) hbytes
    · simp [hdrop, hquote] at h

end Enclosed

/-! ## Numbers alone -/

theorem endNumber_nil (lexeme : List Char) :
    endNumber lexeme [] = ⟨.ok (.number (String.ofList lexeme)), lexeme, []⟩ := rfl

theorem endNumber_eq_ok {lexeme cs whole behind : List Char} {kind : TokenKind}
    (h : endNumber lexeme cs = ⟨.ok kind, whole, behind⟩) :
    lexeme = whole ∧ kind = .number (String.ofList lexeme) := by
  unfold endNumber at h
  split at h
  · cases h
    exact ⟨rfl, rfl⟩
  · cases h

section Numbers

variable {kind : TokenKind} {whole behind : List Char}

theorem scanHexNumber_alone {mark : Char} {cs : List Char}
    (h : scanHexNumber mark cs = ⟨.ok kind, whole, behind⟩) :
    ∃ digits, whole = '0' :: mark :: digits ∧
      scanHexNumber mark digits = ⟨.ok kind, whole, []⟩ := by
  unfold scanHexNumber at h
  cases hd : cs.takeWhile HexBytes.isDigit with
  | nil => simp [hd] at h
  | cons d ds =>
    rw [hd] at h
    obtain ⟨rfl, rfl⟩ := endNumber_eq_ok h
    obtain ⟨htake, hdrop⟩ := span_of_forall (hd ▸ forall_takeWhile (p := HexBytes.isDigit) cs)
    refine ⟨d :: ds, rfl, ?_⟩
    rw [scanHexNumber, htake, hdrop]
    exact endNumber_nil _

/-- A sign that was split off is all sign. -/
theorem splitSign_fst (cs : List Char) : splitSign (splitSign cs).1 = ((splitSign cs).1, []) := by
  fun_cases splitSign cs <;> rfl

/-- An exponent that was read is also read at the end of a text. -/
theorem scanExponent_alone {mantissa cs : List Char}
    (h : scanExponent mantissa cs = ⟨.ok kind, whole, behind⟩) :
    ∃ tail, whole = mantissa ++ tail ∧ (∀ c ∈ tail.head?, c.isDigit = false ∧ c ≠ '.') ∧
      scanExponent mantissa tail = ⟨.ok kind, whole, []⟩ := by
  -- without an exponent the number ends with its mantissa
  have hnone : ∀ cs, endNumber mantissa cs = ⟨.ok kind, whole, behind⟩ →
      ∃ tail, whole = mantissa ++ tail ∧ (∀ c ∈ tail.head?, c.isDigit = false ∧ c ≠ '.') ∧
        scanExponent mantissa tail = ⟨.ok kind, whole, []⟩ := by
    intro cs h
    obtain ⟨rfl, rfl⟩ := endNumber_eq_ok h
    exact ⟨[], by simp, by simp, endNumber_nil _⟩
  unfold scanExponent at h
  split at h
  · next mark cs =>
    split at h
    · next hmark =>
      dsimp only at h
      cases hd : (splitSign cs).2.takeWhile Char.isDigit with
      | nil => simp [hd] at h
      | cons d ds =>
        rw [hd] at h
        obtain ⟨rfl, rfl⟩ := endNumber_eq_ok h
        have hdigits := hd ▸ forall_takeWhile (p := Char.isDigit) (splitSign cs).2
        obtain ⟨htake, hdrop⟩ := span_of_forall hdigits
        -- the first digit is no sign, so that the sign is split off as before
        have hstop : ∀ c ∈ (d :: ds).head?, c ≠ '+' ∧ c ≠ '-' := by
          rintro c ⟨⟩
          have hd := hdigits d (by simp)
          constructor <;> rintro rfl <;> cases hd
        have hsign : splitSign ((splitSign cs).1 ++ d :: ds) = ((splitSign cs).1, d :: ds) := by
          rw [splitSign_append hstop, splitSign_fst, List.nil_append]
        refine ⟨mark :: (splitSign cs).1 ++ d :: ds, by simp, ?_, ?_⟩
        · rintro c ⟨⟩
          rcases hmark with rfl | rfl <;> decide
        · simp only [scanExponent, List.cons_append, hmark, if_true, hsign, htake, hdrop]
          exact endNumber_nil _
    · exact hnone _ h
  · exact hnone _ h

/-- A fraction that was split off is all fraction, and does not start with a digit. -/
theorem splitFraction_fst (cs : List Char) :
    splitFraction (splitFraction cs).1 = ((splitFraction cs).1, []) ∧
      ∀ c ∈ (splitFraction cs).1.head?, c.isDigit = false := by
  fun_cases splitFraction cs with
  | case1 cs =>
    obtain ⟨htake, hdrop⟩ := span_of_forall (forall_takeWhile (p := Char.isDigit) cs)
    constructor
    · rw [splitFraction, htake, hdrop]
    · rintro c ⟨⟩
      rfl
  | case2 => exact ⟨rfl, by simp⟩

theorem scanDecimal_alone {cs : List Char} (h : scanDecimal cs = ⟨.ok kind, whole, behind⟩) :
    scanDecimal whole = ⟨.ok kind, whole, []⟩ := by
  have hexponent : scanExponent
      (cs.takeWhile Char.isDigit ++ (splitFraction (cs.dropWhile Char.isDigit)).1)
      (splitFraction (cs.dropWhile Char.isDigit)).2 = ⟨.ok kind, whole, behind⟩ := h
  obtain ⟨tail, rfl, htail, hscan⟩ := scanExponent_alone hexponent
  obtain ⟨hfraction, hhead⟩ := splitFraction_fst (cs.dropWhile Char.isDigit)
  -- the digits in front end where they did: neither fraction nor exponent starts with a digit
  have hstop : ∀ c ∈ ((splitFraction (cs.dropWhile Char.isDigit)).1 ++ tail).head?,
      c.isDigit = false := by
    intro c hc
    rw [List.head?_append, Option.mem_def, Option.or_eq_some_iff] at hc
    obtain hc | ⟨-, hc⟩ := hc
    · exact hhead c hc
    · exact (htail c hc).1
  obtain ⟨htake, hdrop⟩ := span_append (forall_takeWhile (p := Char.isDigit) cs) hstop
  rw [List.append_assoc] at hscan ⊢
  rw [scanDecimal, htake, hdrop, splitFraction_append (fun c hc => (htail c hc).2)
    fun c hc => (htail c hc).1, hfraction]
  exact hscan

theorem scanNumber_alone {cs : List Char} (h : scanNumber cs = ⟨.ok kind, whole, behind⟩) :
    scanNumber whole = ⟨.ok kind, whole, []⟩ := by
  have hsplits : whole ++ behind = cs := by
    have hs := scanNumber_splits cs
    rwa [h] at hs
  unfold scanNumber at h
  split at h
  · obtain ⟨digits, rfl, hscan⟩ := scanHexNumber_alone h
    exact hscan
  · obtain ⟨digits, rfl, hscan⟩ := scanHexNumber_alone h
    exact hscan
  · next hx hX =>
    -- the mark of a hexadecimal number would stand in the whole text too
    unfold scanNumber
    split
    · next ds => exact absurd hsplits.symm (hx (ds ++ behind))
    · next ds => exact absurd hsplits.symm (hX (ds ++ behind))
    · exact scanDecimal_alone h

/-- A number that starts with a point holds the digit behind it. -/
theorem scanNumber_point {d : Char} {cs : List Char} (hd : d.isDigit = true)
    (h : scanNumber ('.' :: d :: cs) = ⟨.ok kind, whole, behind⟩) :
    ∃ tail, whole = '.' :: d :: tail := by
  have hexponent : scanExponent ('.' :: (d :: cs).takeWhile Char.isDigit)
      ((d :: cs).dropWhile Char.isDigit) = ⟨.ok kind, whole, behind⟩ := h
  rw [List.takeWhile_cons_of_pos hd] at hexponent
  obtain ⟨tail, rfl, -, -⟩ := scanExponent_alone hexponent
  exact ⟨cs.takeWhile Char.isDigit ++ tail, rfl⟩

end Numbers

theorem isBlank_of_isDigit {c : Char} (h : c.isDigit = true) : isBlank c = false := by
  rw [Bool.eq_false_iff]
  intro hb
  simp only [Char.isDigit, Bool.and_eq_true, decide_eq_true_eq, UInt32.le_iff_toNat_le] at h
  have hval : c.toNat = c.val.toNat := rfl
  simp [isBlank, CodeRanges.contains, blankRanges] at h hb
  omega

theorem startsGap_of_startsNumber {c : Char} {cs : List Char} (h : startsNumber c cs = true) :
    startsGap (c :: cs) = false := by
  unfold startsNumber at h
  cases hd : c.isDigit with
  | true =>
    have hminus : c ≠ '-' := by rintro rfl; exact absurd hd (by decide)
    have hslash : c ≠ '/' := by rintro rfl; exact absurd hd (by decide)
    simp [startsGap, isBlank_of_isDigit hd, hminus, hslash]
  | false =>
    simp only [hd, Bool.false_or, Bool.and_eq_true, beq_iff_eq] at h
    rw [h.1]
    rfl

theorem scan_number {c : Char} {cs : List Char} (h : startsNumber c cs = true) :
    scan c cs = scanNumber (c :: cs) := by
  unfold scan
  rw [if_pos h]

theorem alone_of_scanNumber {c : Char} {cs lexeme behind : List Char} {kind : TokenKind}
    (hstart : startsNumber c cs = true) (h : scanNumber (c :: cs) = ⟨.ok kind, lexeme, behind⟩) :
    Alone kind lexeme := by
  -- what was read starts like a number too, for the digit behind a point was read with it
  obtain ⟨tail, rfl, hstart'⟩ : ∃ tail, lexeme = c :: tail ∧ startsNumber c tail = true := by
    cases hd : c.isDigit with
    | true =>
      have hsplits := scanNumber_splits (c :: cs)
      have hne := (scanNumber_proper hstart).1
      rw [h] at hsplits hne
      obtain ⟨c', tail, rfl⟩ := List.exists_cons_of_ne_nil hne
      obtain rfl : c' = c := (List.cons.inj hsplits).1
      exact ⟨tail, rfl, by rw [startsNumber, hd, Bool.true_or]⟩
    | false =>
      simp only [startsNumber, hd, Bool.false_or, Bool.and_eq_true, beq_iff_eq] at hstart
      obtain ⟨rfl, hany⟩ := hstart
      cases cs with
      | nil => cases hany
      | cons d cs =>
        obtain ⟨tail, rfl⟩ := scanNumber_point hany h
        exact ⟨d :: tail, rfl, hany⟩
  refine ⟨startsGap_of_startsNumber hstart', c, tail, rfl, ?_⟩
  rw [scan_number hstart']
  exact scanNumber_alone h

/-! ## Parameters alone -/

theorem eq_of_isSigil {c : Char} (h : isSigil c = true) :
    c = '?' ∨ c = ':' ∨ c = '@' ∨ c = '$' := by
  simpa [isSigil] using h

theorem scan_sigil {c : Char} (h : isSigil c = true) (cs : List Char) :
    scan c cs = scanParameter c cs := by
  rcases eq_of_isSigil h with rfl | rfl | rfl | rfl <;> rfl

theorem startsGap_sigil {c : Char} (h : isSigil c = true) (cs : List Char) :
    startsGap (c :: cs) = false := by
  rcases eq_of_isSigil h with rfl | rfl | rfl | rfl <;> rfl

theorem scanParameter_alone {c : Char} {cs lexeme behind : List Char} {kind : TokenKind}
    (h : scanParameter c cs = ⟨.ok kind, lexeme, behind⟩) :
    ∃ tail, lexeme = c :: tail ∧ scanParameter c tail = ⟨.ok kind, lexeme, []⟩ := by
  unfold scanParameter at h
  by_cases hq : c = '?'
  · simp only [hq, if_true, Scan.mk.injEq, Except.ok.injEq] at h
    obtain ⟨rfl, rfl, -⟩ := h
    obtain ⟨htake, hdrop⟩ := span_of_forall (forall_takeWhile (p := Char.isDigit) cs)
    refine ⟨_, by rw [hq], ?_⟩
    rw [scanParameter, if_pos hq, htake, hdrop, hq]
  · simp only [hq, if_false] at h
    cases hname : cs.takeWhile fun c => isLetterOrNumeric c || c == '_' with
    | nil => simp [hname] at h
    | cons d ds =>
      simp only [hname, Scan.mk.injEq, Except.ok.injEq] at h
      obtain ⟨rfl, rfl, -⟩ := h
      obtain ⟨htake, hdrop⟩ := span_of_forall (hname ▸ forall_takeWhile cs)
      refine ⟨_, rfl, ?_⟩
      rw [scanParameter, if_neg hq]
      simp only [htake, hdrop]

theorem alone_of_scanParameter {c : Char} {cs lexeme behind : List Char} {kind : TokenKind}
    (hsigil : isSigil c = true) (h : scanParameter c cs = ⟨.ok kind, lexeme, behind⟩) :
    Alone kind lexeme := by
  obtain ⟨tail, rfl, hscan⟩ := scanParameter_alone h
  exact ⟨startsGap_sigil hsigil tail, c, tail, rfl, (scan_sigil hsigil tail).trans hscan⟩

/-! ## Every token alone -/

section Tokens

variable {c : Char} {cs lexeme behind : List Char} {kind : TokenKind}

theorem isWord_takeWhile (hstart : startsWord c = true) :
    isWord ((c :: cs).takeWhile continuesWord) = true := by
  rw [List.takeWhile_cons_of_pos (continuesWord_of_startsWord hstart), isWord, hstart,
    Bool.true_and]
  exact List.all_takeWhile

theorem alone_of_scanWord (hstart : startsWord c = true)
    (h : scanWord (c :: cs) = ⟨.ok kind, lexeme, behind⟩) : Alone kind lexeme := by
  cases h
  exact alone_word (isWord_takeWhile hstart)

theorem alone_of_scanOperator (h : scanOperator c cs = ⟨.ok kind, lexeme, behind⟩) :
    Alone kind lexeme := by
  unfold scanOperator at h
  cases hfound : operatorAt? (c :: cs) with
  | none => simp [hfound] at h
  | some found =>
    obtain ⟨spelling, sign⟩ := found
    simp only [hfound, Scan.mk.injEq, Except.ok.injEq] at h
    obtain ⟨rfl, rfl, -⟩ := h
    exact alone_spelling (List.mem_of_find?_eq_some hfound)

/-- A token that was read off the front of a text is also read when it stands alone. -/
theorem alone_of_scan (h : scan c cs = ⟨.ok kind, lexeme, behind⟩) : Alone kind lexeme := by
  have hclass := scansAs_scan c cs
  generalize scan c cs = s at h hclass
  cases hclass with
  | number hstart => exact alone_of_scanNumber hstart h
  | blob hmarker _ => exact alone_of_scanBlob hmarker h
  | word hstart => exact alone_of_scanWord hstart h
  | quoted hquotes => exact alone_of_scanQuoted hquotes h
  | bracketed _ => exact alone_of_scanBracketed h
  | parameter hsigil => exact alone_of_scanParameter hsigil h
  | operator => exact alone_of_scanOperator h

/-- Every word of a text is one token when it is read by itself. -/
theorem Words.alone {ws : List (TokenKind × String)} (h : Words cs ws) :
    ∀ w ∈ ws, Alone w.1 w.2.toList := by
  induction h with
  | nil _ => exact fun w hw => absurd hw List.not_mem_nil
  | cons _ hscan _ ih =>
    intro w hw
    rcases List.mem_cons.1 hw with rfl | hw
    · rw [String.toList_ofList]
      exact alone_of_scan hscan
    · exact ih w hw

theorem Alone.kind_ne_eof (h : Alone kind lexeme) : kind ≠ .eof := by
  obtain ⟨c, tail, rfl, hscan⟩ := h.scanned
  have hproper := (scan_proper c tail).2
  rw [hscan] at hproper
  exact fun heof => hproper (congrArg _ heof)

end Tokens

end SqlGrammar.Lexer
