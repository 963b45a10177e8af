import SqlGrammar.Lexer.Scan

/-!
# Scans cut a text in two

What a text starts with decides which of seven scans reads it (`scansAs_scan`). Whatever the scan
makes of the text, the characters it has used and the characters it leaves make up the text
(`scan_splits`). It has used at least one, and takes none of them for the end of the input
(`scan_proper`).
-/

set_option autoImplicit false

namespace SqlGrammar.Lexer

open Text

/-! ## Which scan reads a text -/

/-- Whether a character is the sigil of a parameter. -/
def isSigil (c : Char) : Bool := ['?', ':', '@', '$'].contains c

/-- A quote character, the kind of the text between two of them, and the fault of a text that is not
closed. -/
inductive Quotes : Char → (String → TokenKind) → Fault → Prop
  | string : Quotes '\'' .string .unclosedString
  | name : Quotes '\x22' .identifier .unclosedName
  | tick : Quotes '\x60' .identifier .unclosedName

/-- The scan is one of the seven that read a text which starts with `c` and goes on in `cs`. -/
inductive ScansAs (c : Char) (cs : List Char) : Scan → Prop
  | number : startsNumber c cs = true → ScansAs c cs (scanNumber (c :: cs))
  | blob {tail : List Char} :
      c = 'x' ∨ c = 'X' → cs = '\'' :: tail → ScansAs c cs (scanBlob c tail)
  | word : startsWord c = true → ScansAs c cs (scanWord (c :: cs))
  | quoted {toKind : String → TokenKind} {unclosed : Fault} :
      Quotes c toKind unclosed → ScansAs c cs (scanQuoted c toKind unclosed cs)
  | bracketed : c = '[' → ScansAs c cs (scanBracketed cs)
  | parameter : isSigil c = true → ScansAs c cs (scanParameter c cs)
  | operator : ScansAs c cs (scanOperator c cs)

/-- `ScansAs` holds of what `scan` does, so that a proof about `scan` goes by its cases. -/
theorem scansAs_scan (c : Char) (cs : List Char) : ScansAs c cs (scan c cs) := by
  unfold scan
  split
  · next h => exact .number h
  · split
    · next h =>
      rw [Bool.and_eq_true] at h
      cases cs with
      | nil => simp at h
      | cons d cs =>
        obtain rfl : d = '\'' := by simpa using h.2
        exact .blob (by simpa using h.1) rfl
    · split
      · next h => exact .word h
      · split
        · exact .quoted .string
        · exact .quoted .name
        · exact .quoted .tick
        · exact .bracketed rfl
        · exact .parameter rfl
        · exact .parameter rfl
        · exact .parameter rfl
        · exact .parameter rfl
        · exact .operator

/-! ## The parts of the text -/

/-- The scan has used a part of the text and left the others. -/
def Scan.Splits (s : Scan) (cs : List Char) : Prop := s.lexeme ++ s.rest = cs

/-- By recursion along `Quoted.close?`: what is read and what is left are the text. -/
theorem close?_splits {quote : Char} :
    ∀ (cs : List Char) (q : Quoted.Reading), Quoted.close? quote cs = some q →
      q.lexeme ++ q.rest = cs := by
  intro cs
  fun_induction Quoted.close? quote cs with
  | case1 => simp
  | case2 => rintro q ⟨⟩; rfl
  | case3 => simp
  | case4 cs ih =>
    intro q hq
    obtain ⟨q', hq', rfl⟩ := Option.map_eq_some_iff.1 hq
    simp [ih q' hq']
  | case5 d cs hd => rintro q ⟨⟩; rfl
  | case6 c d cs hc ih =>
    intro q hq
    obtain ⟨q', hq', rfl⟩ := Option.map_eq_some_iff.1 hq
    simp [ih q' hq']

/-- Each scan splits its text, here into what `List.takeWhile` takes and `List.dropWhile` leaves. -/
theorem scanWord_splits (cs : List Char) : (scanWord cs).Splits cs :=
  List.takeWhile_append_dropWhile

/-- An unclosed quote takes the whole text, as a fault. -/
theorem scanQuoted_splits (quote : Char) (toKind : String → TokenKind) (unclosed : Fault)
    (cs : List Char) : (scanQuoted quote toKind unclosed cs).Splits (quote :: cs) := by
  unfold Scan.Splits scanQuoted
  cases hq : Quoted.close? quote cs with
  | none => simp
  | some q => simp [close?_splits cs q hq]

theorem scanBracketed_splits (cs : List Char) : (scanBracketed cs).Splits ('[' :: cs) := by
  have hsplit := List.takeWhile_append_dropWhile (p := (· ≠ ']')) (l := cs)
  unfold Scan.Splits scanBracketed
  cases hd : cs.dropWhile (· ≠ ']') with
  | nil => rw [hd, List.append_nil] at hsplit; simp only [List.append_nil, hsplit]
  | cons close rest =>
    rw [hd] at hsplit
    simp only [List.cons_append, List.append_assoc, List.nil_append, hsplit]

/-- The quote of a blob is part of it, whether its digits are valid or not. -/
theorem scanBlob_splits (marker : Char) (cs : List Char) :
    (scanBlob marker cs).Splits (marker :: '\'' :: cs) := by
  have hsplit := List.takeWhile_append_dropWhile (p := HexBytes.isDigit) (l := cs)
  unfold Scan.Splits scanBlob
  cases hd : cs.dropWhile HexBytes.isDigit with
  | nil => rw [hd, List.append_nil] at hsplit; simp [hsplit]
  | cons d behind =>
    rw [hd] at hsplit
    by_cases hquote : d = '\''
    · subst hquote
      simp [hsplit]
    -- a wrong character takes all up to the next quote with it, and that quote if there is one
    · have hskip := List.takeWhile_append_dropWhile (p := (· ≠ '\'')) (l := d :: behind)
      have htail := List.take_append_drop 1 ((d :: behind).dropWhile (· ≠ '\''))
      simp only
      split
      · next h => cases h
      · next h => exact absurd (List.cons.inj h).1 hquote
      · simp only [List.cons_append, List.append_assoc, htail, hskip, hsplit]

/-- A word behind a number is part of the fault. -/
theorem endNumber_splits (lexeme cs : List Char) : (endNumber lexeme cs).Splits (lexeme ++ cs) := by
  have hsplit := List.takeWhile_append_dropWhile (p := continuesWord) (l := cs)
  unfold Scan.Splits endNumber
  cases ht : cs.takeWhile continuesWord with
  | nil => rfl
  | cons c tail => rw [ht] at hsplit; simp only [List.append_assoc, hsplit]

theorem scanHexNumber_splits (mark : Char) (cs : List Char) :
    (scanHexNumber mark cs).Splits ('0' :: mark :: cs) := by
  have hsplit := List.takeWhile_append_dropWhile (p := HexBytes.isDigit) (l := cs)
  unfold scanHexNumber
  cases ht : cs.takeWhile HexBytes.isDigit with
  | nil => rfl
  | cons d ds =>
    have hend := endNumber_splits ('0' :: mark :: d :: ds) (cs.dropWhile HexBytes.isDigit)
    rwa [← ht, List.cons_append, List.cons_append, hsplit, ht] at hend

/-- What `splitFraction` splits off stands in front of what it leaves. -/
theorem splitFraction_splits (cs : List Char) :
    (splitFraction cs).1 ++ (splitFraction cs).2 = cs := by
  unfold splitFraction
  split
  · rw [List.cons_append, List.takeWhile_append_dropWhile]
  · rfl

/-- What `splitSign` splits off stands in front of what it leaves. -/
theorem splitSign_splits (cs : List Char) : (splitSign cs).1 ++ (splitSign cs).2 = cs := by
  unfold splitSign
  split <;> rfl

theorem scanExponent_splits (mantissa cs : List Char) :
    (scanExponent mantissa cs).Splits (mantissa ++ cs) := by
  cases cs with
  | nil => exact endNumber_splits mantissa []
  | cons mark cs =>
    unfold scanExponent
    by_cases hmark : mark = 'e' ∨ mark = 'E'
    · have hsign := splitSign_splits cs
      have hdigits := List.takeWhile_append_dropWhile (p := Char.isDigit) (l := (splitSign cs).2)
      simp only [hmark, if_true]
      cases ht : (splitSign cs).2.takeWhile Char.isDigit with
      | nil => simp [Scan.Splits, hsign]
      | cons d ds =>
        rw [ht] at hdigits
        have hcs : mantissa ++ mark :: (splitSign cs).1 ++ d :: ds ++
            (splitSign cs).2.dropWhile Char.isDigit = mantissa ++ mark :: cs := by
          rw [List.append_assoc _ (d :: ds), hdigits, List.append_assoc, List.cons_append, hsign]
        rw [← hcs]
        exact endNumber_splits _ _
    · simp only [hmark, if_false]
      exact endNumber_splits mantissa (mark :: cs)

/-- A decimal number is its digits, its fraction and its exponent. -/
theorem scanDecimal_splits (cs : List Char) : (scanDecimal cs).Splits cs := by
  have hdigits := List.takeWhile_append_dropWhile (p := Char.isDigit) (l := cs)
  have h := scanExponent_splits
    (cs.takeWhile Char.isDigit ++ (splitFraction (cs.dropWhile Char.isDigit)).1)
    (splitFraction (cs.dropWhile Char.isDigit)).2
  rwa [List.append_assoc, splitFraction_splits, hdigits] at h

theorem scanNumber_splits (cs : List Char) : (scanNumber cs).Splits cs := by
  unfold scanNumber
  split
  · exact scanHexNumber_splits 'x' _
  · exact scanHexNumber_splits 'X' _
  · exact scanDecimal_splits cs

theorem scanParameter_splits (sigil : Char) (cs : List Char) :
    (scanParameter sigil cs).Splits (sigil :: cs) := by
  unfold Scan.Splits scanParameter
  by_cases hsigil : sigil = '?'
  · simp [hsigil, List.takeWhile_append_dropWhile]
  · have hsplit := List.takeWhile_append_dropWhile
      (p := fun c => isLetterOrNumeric c || c == '_') (l := cs)
    simp only [hsigil, if_false]
    cases ht : cs.takeWhile fun c => isLetterOrNumeric c || c == '_' with
    | nil => rfl
    | cons d ds =>
      rw [ht] at hsplit
      simp only [List.cons_append, hsplit]

/-- The spelling that `operatorAt?` finds stands at the start of the text. -/
theorem operatorAt?_prefix {cs spelling : List Char} {sign : Operator}
    (h : operatorAt? cs = some (spelling, sign)) : spelling ++ cs.drop spelling.length = cs := by
  have hprefixed := List.find?_some h
  obtain ⟨rest, rfl⟩ := List.isPrefixOf_iff_prefix.1 hprefixed
  rw [List.drop_left]

theorem scanOperator_splits (c : Char) (cs : List Char) : (scanOperator c cs).Splits (c :: cs) := by
  unfold Scan.Splits scanOperator
  cases hop : operatorAt? (c :: cs) with
  | none => rfl
  | some found => exact operatorAt?_prefix hop

/-- A scan uses a first part of the text. -/
theorem scan_splits (c : Char) (cs : List Char) : (scan c cs).Splits (c :: cs) := by
  have hscan := scansAs_scan c cs
  generalize scan c cs = s at hscan ⊢
  cases hscan with
  | number _ => exact scanNumber_splits (c :: cs)
  | blob _ htail =>
    subst htail
    exact scanBlob_splits c _
  | word _ => exact scanWord_splits (c :: cs)
  | quoted _ => exact scanQuoted_splits _ _ _ cs
  | bracketed hc =>
    subst hc
    exact scanBracketed_splits cs
  | parameter _ => exact scanParameter_splits c cs
  | operator => exact scanOperator_splits c cs

/-! ## Every scan uses a character -/

/-- The scan has used a character, and has not taken it for the end of the input. -/
def Scan.Proper (s : Scan) : Prop := s.lexeme ≠ [] ∧ s.verdict ≠ .ok .eof

/-- `Proper` of a scan says that it takes a character and gives no `eof`. -/
theorem endNumber_proper {lexeme cs : List Char} (h : lexeme ≠ []) :
    (endNumber lexeme cs).Proper := by
  unfold Scan.Proper endNumber
  split <;> simp [h]

theorem scanHexNumber_proper (mark : Char) (cs : List Char) : (scanHexNumber mark cs).Proper := by
  unfold scanHexNumber
  split
  · simp [Scan.Proper]
  · exact endNumber_proper (by simp)

theorem scanExponent_proper {mantissa cs : List Char} (h : mantissa ≠ []) :
    (scanExponent mantissa cs).Proper := by
  unfold scanExponent
  split
  · split
    · dsimp only
      split
      · simp [Scan.Proper]
      · exact endNumber_proper (by simp)
    · exact endNumber_proper h
  · exact endNumber_proper h

/-- What starts like a number has a first digit or a point to use. -/
theorem scanNumber_proper {c : Char} {cs : List Char} (h : startsNumber c cs = true) :
    (scanNumber (c :: cs)).Proper := by
  unfold scanNumber
  split
  · exact scanHexNumber_proper 'x' _
  · exact scanHexNumber_proper 'X' _
  · refine scanExponent_proper ?_
    unfold startsNumber at h
    cases hc : c.isDigit with
    | true => simp [hc]
    | false =>
      obtain rfl : c = '.' := by
        simp only [hc, Bool.false_or, Bool.and_eq_true, beq_iff_eq] at h
        exact h.1
      simp

/-- A word is a keyword or an identifier. -/
theorem wordKind_ne_eof (word : String) : wordKind word ≠ .eof := by
  unfold wordKind
  split <;> simp

theorem scanWord_proper {c : Char} {cs : List Char} (h : startsWord c = true) :
    (scanWord (c :: cs)).Proper := by
  have hc : continuesWord c = true := by
    rcases Bool.or_eq_true _ _ ▸ h with h | h <;> simp [continuesWord, isLetterOrNumeric, h]
  simp [Scan.Proper, scanWord, hc, wordKind_ne_eof]

theorem scanQuoted_proper {quote : Char} {toKind : String → TokenKind} {unclosed : Fault}
    (h : ∀ value, toKind value ≠ .eof) (cs : List Char) :
    (scanQuoted quote toKind unclosed cs).Proper := by
  unfold Scan.Proper scanQuoted
  split <;> simp [h]

theorem scanBracketed_proper (cs : List Char) : (scanBracketed cs).Proper := by
  unfold Scan.Proper scanBracketed
  dsimp only
  split <;> simp

theorem scanBlob_proper (marker : Char) (cs : List Char) : (scanBlob marker cs).Proper := by
  unfold Scan.Proper scanBlob
  dsimp only
  split
  · simp
  · split <;> simp
  · simp

theorem scanParameter_proper (sigil : Char) (cs : List Char) : (scanParameter sigil cs).Proper := by
  unfold Scan.Proper scanParameter
  split
  · simp
  · dsimp only
    split <;> simp

/-- No operator is spelled without characters. -/
theorem operatorAt?_ne_nil {cs spelling : List Char} {sign : Operator}
    (h : operatorAt? cs = some (spelling, sign)) : spelling ≠ [] := by
  have hall : ∀ entry ∈ Operator.spellings, entry.1 ≠ [] := by decide
  exact hall _ (List.mem_of_find?_eq_some h)

theorem scanOperator_proper (c : Char) (cs : List Char) : (scanOperator c cs).Proper := by
  unfold Scan.Proper scanOperator
  split
  · next h => exact ⟨operatorAt?_ne_nil h, by simp⟩
  · simp

/-- What is quoted is a string or an identifier. -/
theorem Quotes.ne_eof {quote : Char} {toKind : String → TokenKind} {unclosed : Fault}
    (h : Quotes quote toKind unclosed) (value : String) : toKind value ≠ .eof := by
  cases h <;> simp

/-- A scan uses a character, and never takes it for the end of the input. -/
theorem scan_proper (c : Char) (cs : List Char) : (scan c cs).Proper := by
  have hscan := scansAs_scan c cs
  generalize scan c cs = s at hscan ⊢
  cases hscan with
  | number h => exact scanNumber_proper h
  | blob _ _ => exact scanBlob_proper c _
  | word h => exact scanWord_proper h
  | quoted h => exact scanQuoted_proper h.ne_eof cs
  | bracketed _ => exact scanBracketed_proper cs
  | parameter _ => exact scanParameter_proper c cs
  | operator => exact scanOperator_proper c cs

/-- A scan leaves less than it was given. -/
theorem length_scan_rest_lt (c : Char) (cs : List Char) :
    (scan c cs).rest.length < (c :: cs).length := by
  have hsplit := congrArg List.length (scan_splits c cs)
  have := List.length_pos_iff.2 (scan_proper c cs).1
  rw [List.length_append] at hsplit
  omega

end SqlGrammar.Lexer
