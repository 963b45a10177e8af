import SqlGrammar.Proofs.Lexer.Alone
import SqlGrammar.Writing.Piece

/-!
# What is written stands alone

Every kind of piece but a raw text is one token when it is read by itself: keywords, names quoted or
not, strings, blobs, operators and places for values.
-/

set_option autoImplicit false

namespace SqlGrammar.Lexer

open Text

/-! ## Symbols of tokens -/

/-- `symbolOf` keeps the spelling of keywords only. -/
@[simp] theorem symbolOf_keyword (word : Keyword) (cs : List Char) :
    symbolOf (.keyword word) cs = .spelled word (String.ofList cs) := rfl

@[simp] theorem symbolOf_identifier (own : String) (cs : List Char) :
    symbolOf (.identifier own) cs = .name own := rfl

@[simp] theorem symbolOf_operator (sign : Operator) (cs : List Char) :
    symbolOf (.operator sign) cs = .operator sign := rfl

@[simp] theorem symbolOf_number (text : String) (cs : List Char) :
    symbolOf (.number text) cs = .leaf (.number text) := rfl

@[simp] theorem symbolOf_string (value : String) (cs : List Char) :
    symbolOf (.string value) cs = .leaf (.string value) := rfl

@[simp] theorem symbolOf_blob (bytes : List UInt8) (cs : List Char) :
    symbolOf (.blob bytes) cs = .leaf (.blob bytes) := rfl

@[simp] theorem symbolOf_parameter (text : String) (cs : List Char) :
    symbolOf (.parameter text) cs = .leaf (.parameter text) := rfl

/-! ## Words -/

/-- A run of characters of a class has all of them. -/
theorem span_of_forall {p : Char → Bool} {cs : List Char} (h : ∀ c ∈ cs, p c = true) :
    cs.takeWhile p = cs ∧ cs.dropWhile p = [] := by
  induction cs with
  | nil => exact ⟨rfl, rfl⟩
  | cons c cs ih =>
    simp only [List.mem_cons, forall_eq_or_imp] at h
    obtain ⟨htake, hdrop⟩ := ih h.2
    rw [List.takeWhile_cons_of_pos h.1, List.dropWhile_cons_of_pos h.1, htake, hdrop]
    exact ⟨rfl, rfl⟩

/-- Whether the characters make up one word. -/
def isWord : List Char → Bool
  | [] => false
  | c :: cs => startsWord c && cs.all continuesWord

/-- The characters of a word, by themselves, are the token of `wordKind`. -/
theorem alone_word {cs : List Char} (h : isWord cs = true) :
    Alone (wordKind (String.ofList cs)) cs := by
  cases cs with
  | nil => cases h
  | cons c cs =>
    obtain ⟨hc, hcs⟩ := Bool.and_eq_true_iff.1 h
    have hword : scanWord (c :: cs) = ⟨.ok (wordKind (String.ofList (c :: cs))), c :: cs, []⟩ := by
      have hall : ∀ d ∈ c :: cs, continuesWord d = true := by
        simp only [List.mem_cons, forall_eq_or_imp]
        exact ⟨continuesWord_of_startsWord hc, List.all_eq_true.1 hcs⟩
      rw [scanWord, (span_of_forall hall).1, (span_of_forall hall).2]
    have hdigit : startsNumber c cs = false := by
      have hdot : c ≠ '.' := ne_of_startsWord hc (by decide)
      simp [startsNumber, not_isDigit_of_startsWord hc, hdot]
    -- no quote goes on a word, so that its first letter marks no blob
    have hquote : (cs.head? == some '\'') = false := by
      rw [beq_eq_false_iff_ne]
      intro hhead
      have := List.all_eq_true.1 hcs '\'' (List.mem_of_mem_head? hhead)
      exact absurd this (by decide)
    refine ⟨startsGap_of_startsWord hc, c, cs, rfl, ?_⟩
    unfold scan
    rw [if_neg (by simp [hdigit]), if_neg (by simp [hquote]), if_pos hc, hword]

theorem isWord_text (word : Keyword) : isWord word.text.toList = true := by
  cases word <;> rfl

/-- A keyword is found by its own text. -/
theorem ofText?_text (word : Keyword) : Keyword.ofText? word.text = some word := by
  have hall : ∀ word ∈ Keyword.all, Keyword.ofText? word.text = some word := by decide +kernel
  exact hall word word.mem_all

/-- The text of a keyword is that keyword by itself. -/
theorem alone_keyword (word : Keyword) : Alone (.keyword word) word.text.toList := by
  have h := alone_word (isWord_text word)
  rwa [String.ofList_toList, wordKind, ofText?_text] at h

/-! ## Quoted texts -/

/-- Reading undoes the doubling of quotes. -/
theorem close?_double (quote : Char) (value : List Char) :
    Quoted.close? quote (Quoted.double quote value ++ [quote]) =
      some ⟨value, Quoted.double quote value ++ [quote], []⟩ := by
  induction value with
  | nil => simp [Quoted.double, Quoted.close?]
  | cons c cs ih =>
    unfold Quoted.double
    by_cases hc : c = quote
    · subst hc
      simp [Quoted.close?, ih]
    · obtain ⟨d, ds, hds⟩ : ∃ d ds, Quoted.double quote cs ++ [quote] = d :: ds :=
        List.exists_cons_of_ne_nil (by simp)
      simp only [hc, if_false, List.cons_append]
      rw [hds] at ih ⊢
      simp [Quoted.close?, hc, ih]

/-- What `Quoted.double` doubles is read back up to the quote that closes. -/
theorem scanQuoted_enclose (quote : Char) (toKind : String → TokenKind) (unclosed : Fault)
    (value : String) :
    scanQuoted quote toKind unclosed (Quoted.double quote value.toList ++ [quote]) =
      ⟨.ok (toKind value), quote :: Quoted.double quote value.toList ++ [quote], []⟩ := by
  simp [scanQuoted, close?_double]

theorem toList_enclose (quote : Char) (value : String) :
    (Quoted.enclose quote value).toList =
      quote :: (Quoted.double quote value.toList ++ [quote]) := by
  simp [Quoted.enclose]

/-- A string in its quotes is one token. -/
theorem alone_string (value : String) :
    Alone (.string value) (Quoted.enclose '\'' value).toList := by
  rw [toList_enclose]
  exact ⟨rfl, _, _, rfl, scanQuoted_enclose '\'' .string .unclosedString value⟩

/-- A name in either quote is one token. -/
theorem alone_quotedName {quote : Char} (hquote : quote = '\x22' ∨ quote = '\x60') (own : String) :
    Alone (.identifier own) (Quoted.enclose quote own).toList := by
  rw [toList_enclose]
  rcases hquote with rfl | rfl
  · exact ⟨rfl, _, _, rfl, scanQuoted_enclose '\x22' .identifier .unclosedName own⟩
  · exact ⟨rfl, _, _, rfl, scanQuoted_enclose '\x60' .identifier .unclosedName own⟩

/-- A name that needs no quotes is a word, and no keyword. -/
theorem needsQuotes_eq_false {own : String} :
    needsQuotes own = false ↔ isWord own.toList = true ∧ Keyword.ofText? own = none := by
  unfold needsQuotes
  cases own.toList with
  | nil => simp [isWord]
  | cons c cs => simp [isWord]

/-- A name that `needsQuotes` says nothing against is one token as it is. -/
theorem alone_name {own : String} (h : needsQuotes own = false) :
    Alone (.identifier own) own.toList := by
  obtain ⟨hword, hkeyword⟩ := needsQuotes_eq_false.1 h
  have halone := alone_word hword
  rwa [String.ofList_toList, wordKind, hkeyword] at halone

/-! ## Blobs -/

theorem isDigit_digit (n : Nat) (h : n < 16) : HexBytes.isDigit (HexBytes.digit n) = true := by
  have hall : ∀ n < 16, HexBytes.isDigit (HexBytes.digit n) = true := by decide
  exact hall n h

/-- `HexBytes.digit` and `HexBytes.digitValue` are inverse below 16. -/
theorem digitValue_digit (n : Nat) (h : n < 16) : HexBytes.digitValue (HexBytes.digit n) = n := by
  have hall : ∀ n < 16, HexBytes.digitValue (HexBytes.digit n) = n := by decide
  exact hall n h

/-- `HexBytes.decode?` reads back what `HexBytes.encode` writes, by induction over the bytes. -/
theorem decode?_encode (bytes : List UInt8) :
    HexBytes.decode? (HexBytes.encode bytes) = some bytes := by
  induction bytes with
  | nil => rfl
  | cons b bytes ih =>
    have hb := b.toNat_lt
    have hbyte : 16 * (b.toNat / 16) + b.toNat % 16 = b.toNat := by omega
    rw [HexBytes.encode, List.flatMap_cons, ← HexBytes.encode, HexBytes.ofByte, List.cons_append,
      List.cons_append, List.nil_append, HexBytes.decode?, ih, Option.map_some,
      digitValue_digit _ (by omega), digitValue_digit _ (by omega), hbyte, UInt8.ofNat_toNat]

/-- Nothing but digits is written by `HexBytes.encode`, so that the quote behind them closes. -/
theorem isDigit_of_mem_encode {bytes : List UInt8} :
    ∀ c ∈ HexBytes.encode bytes, HexBytes.isDigit c = true := by
  intro c hc
  obtain ⟨b, -, hb⟩ := List.mem_flatMap.1 hc
  have := b.toNat_lt
  simp only [HexBytes.ofByte, List.mem_cons, List.not_mem_nil, or_false] at hb
  rcases hb with rfl | rfl <;> exact isDigit_digit _ (by omega)

/-- Digits in quotes behind a marker are a blob if they are those of whole bytes. -/
theorem alone_digits {marker : Char} {digits : List Char} {bytes : List UInt8}
    (hmarker : marker = 'x' ∨ marker = 'X') (hdigits : ∀ c ∈ digits, HexBytes.isDigit c = true)
    (hbytes : HexBytes.decode? digits = some bytes) :
    Alone (.blob bytes) (marker :: '\'' :: (digits ++ ['\''])) := by
  have hstop : ∀ c ∈ (['\''] : List Char).head?, HexBytes.isDigit c = false := by simp; rfl
  have hblob : scanBlob marker (digits ++ ['\'']) =
      ⟨.ok (.blob bytes), marker :: '\'' :: (digits ++ ['\'']), []⟩ := by
    unfold scanBlob
    rw [takeWhile_append_stop hstop, dropWhile_append_stop hstop, (span_of_forall hdigits).1,
      (span_of_forall hdigits).2]
    simp [hbytes]
  rcases hmarker with rfl | rfl
  · exact ⟨rfl, _, _, rfl, hblob⟩
  · exact ⟨rfl, _, _, rfl, hblob⟩

/-- A blob in its quotes is one token. -/
theorem alone_blob (bytes : List UInt8) : Alone (.blob bytes) (Piece.quoteBlob bytes).toList := by
  have htext : (Piece.quoteBlob bytes).toList =
      'X' :: '\'' :: (HexBytes.encode bytes ++ ['\'']) := by
    simp [Piece.quoteBlob]
  rw [htext]
  exact alone_digits (.inr rfl) isDigit_of_mem_encode (decode?_encode bytes)

/-! ## Signs -/

/-- Each spelling of `Operator.spellings` is its operator by itself. -/
theorem alone_spelling {spelling : List Char} {sign : Operator}
    (h : (spelling, sign) ∈ Operator.spellings) : Alone (.operator sign) spelling := by
  simp only [Operator.spellings, List.mem_cons, Prod.mk.injEq, List.not_mem_nil, or_false] at h
  rcases h with ⟨rfl, rfl⟩ | ⟨rfl, rfl⟩ | ⟨rfl, rfl⟩ | ⟨rfl, rfl⟩ | ⟨rfl, rfl⟩ | ⟨rfl, rfl⟩ |
    ⟨rfl, rfl⟩ | ⟨rfl, rfl⟩ | ⟨rfl, rfl⟩ | ⟨rfl, rfl⟩ | ⟨rfl, rfl⟩ | ⟨rfl, rfl⟩ |
    ⟨rfl, rfl⟩ | ⟨rfl, rfl⟩ | ⟨rfl, rfl⟩ | ⟨rfl, rfl⟩ | ⟨rfl, rfl⟩ | ⟨rfl, rfl⟩ |
    ⟨rfl, rfl⟩ | ⟨rfl, rfl⟩ | ⟨rfl, rfl⟩ | ⟨rfl, rfl⟩ | ⟨rfl, rfl⟩ | ⟨rfl, rfl⟩ <;>
    exact ⟨rfl, _, _, rfl, rfl⟩

theorem text_mem_spellings (sign : Operator) :
    (sign.text.toList, sign) ∈ Operator.spellings := by
  cases sign <;> decide

theorem alone_placeholder : Alone (.parameter "?") ['?'] := ⟨rfl, _, _, rfl, rfl⟩

/-- A point, a parenthesis or a sign is a token of its own whatever follows, but for a digit behind
a point and a second minus. -/
theorem lexes_glue {c : Char} {rest : List Char} {ss : List Symbol} (sign : Operator)
    (h : (c, sign) ∈ [('(', Operator.leftParen), ('.', .dot), ('+', .plus), ('~', .bitNot),
      ('-', .minus)])
    (hdot : c = '.' → ∀ d ∈ rest.head?, d.isDigit = false)
    (hminus : c = '-' → ∀ d ∈ rest.head?, d ≠ '-') (hrest : Lexes rest ss) :
    Lexes (c :: rest) (.operator sign :: ss) := by
  have hgap : startsGap (c :: rest) = false := by
    simp only [List.mem_cons, Prod.mk.injEq, List.not_mem_nil, or_false] at h
    -- of these only a minus can open a comment
    rcases h with ⟨rfl, -⟩ | ⟨rfl, -⟩ | ⟨rfl, -⟩ | ⟨rfl, -⟩ | ⟨rfl, -⟩ <;> try rfl
    have hhead : (rest.head? == some '-') = false :=
      beq_eq_false_iff_ne.2 fun hd => hminus rfl '-' hd rfl
    rw [startsGap, hhead]
    rfl
  have hscan : scan c rest = ⟨.ok (.operator sign), [c], rest⟩ := by
    simp only [List.mem_cons, Prod.mk.injEq, List.not_mem_nil, or_false] at h
    -- and only a point can start a number
    rcases h with ⟨rfl, rfl⟩ | ⟨rfl, rfl⟩ | ⟨rfl, rfl⟩ | ⟨rfl, rfl⟩ | ⟨rfl, rfl⟩ <;> try rfl
    have hhead : rest.head?.any Char.isDigit = false := by
      cases hd : rest.head? with
      | none => rfl
      | some d => exact hdot rfl d hd
    unfold scan
    rw [startsNumber, hhead]
    rfl
  exact .cons (by rw [splitGap_of_not_startsGap hgap]) hscan hrest

end SqlGrammar.Lexer
