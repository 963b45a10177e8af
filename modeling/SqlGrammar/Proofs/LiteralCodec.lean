import SqlGrammar.Proofs.Lexer.Spelling
import SqlGrammar.Proofs.Reading.Statement

/-!
# Literals and their texts

Strings and bytes come back from the texts they are written as, whatever characters and bytes they
hold. In the other direction a literal that was read is written as it stood in the text, numbers and
strings character by character and the other literals in upper case (`literal_codec`).
-/

set_option autoImplicit false

namespace SqlGrammar

open Text Lexer SqlGrammar.Parser Grammar

/-! ## Digits of bytes -/

namespace Text.HexBytes

/-- Hexadecimal digits are ASCII characters. -/
theorem toNat_lt_of_isDigit {c : Char} (h : isDigit c = true) : c.toNat < 128 := by
  simp only [isDigit, Char.isDigit, Bool.or_eq_true, Bool.and_eq_true, decide_eq_true_eq,
    Char.le_def, UInt32.le_iff_toNat_le] at h
  simp at h
  have : c.toNat = c.val.toNat := rfl
  omega

/-- The value of a digit is written as the digit in upper case. -/
theorem digit_digitValue {c : Char} (h : isDigit c = true) :
    digitValue c < 16 ∧ digit (digitValue c) = c.toUpper := by
  have hall : ∀ n < 128, isDigit (Char.ofNat n) = true →
      digitValue (Char.ofNat n) < 16 ∧
        digit (digitValue (Char.ofNat n)) = (Char.ofNat n).toUpper := by
    decide +kernel
  have hdigit := hall c.toNat (toNat_lt_of_isDigit h)
  rw [Char.ofNat_toNat] at hdigit
  exact hdigit h

theorem ofByte_ofNat {hi lo : Nat} (hhi : hi < 16) (hlo : lo < 16) :
    ofByte (UInt8.ofNat (16 * hi + lo)) = [digit hi, digit lo] := by
  have hbyte : (UInt8.ofNat (16 * hi + lo)).toNat = 16 * hi + lo := by
    rw [UInt8.toNat_ofNat']
    exact Nat.mod_eq_of_lt (by omega)
  have hdiv : (16 * hi + lo) / 16 = hi := by omega
  have hmod : (16 * hi + lo) % 16 = lo := by omega
  rw [ofByte, hbyte, hdiv, hmod]

/-- Bytes that were read are written with the digits they were read from, in upper case. -/
theorem encode_of_decode? (digits : List Char) :
    ∀ bytes, (∀ c ∈ digits, isDigit c = true) → decode? digits = some bytes →
      encode bytes = digits.map Char.toUpper := by
  fun_induction decode? digits with
  | case1 =>
    rintro bytes - ⟨⟩
    rfl
  | case2 c => simp
  | case3 hi lo cs ih =>
    intro bytes hdigits hbytes
    obtain ⟨behind, hbehind, rfl⟩ := Option.map_eq_some_iff.1 hbytes
    simp only [List.mem_cons, forall_eq_or_imp] at hdigits
    obtain ⟨hhi, hlo, hcs⟩ := hdigits
    obtain ⟨hhi, hhiUpper⟩ := digit_digitValue hhi
    obtain ⟨hlo, hloUpper⟩ := digit_digitValue hlo
    rw [encode, List.flatMap_cons, ← encode, ofByte_ofNat hhi hlo, ih behind hcs hbehind, hhiUpper,
      hloUpper]
    rfl

end Text.HexBytes

/-! ## Spellings of literals -/

/-- The characters spell the literal. -/
inductive SpellsLiteral : Literal → List Char → Prop
  | number (text : String) : SpellsLiteral (.number text) text.toList
  | string (value : String) : SpellsLiteral (.string value) (Quoted.enclose '\'' value).toList
  | blob {marker : Char} {digits : List Char} {bytes : List UInt8} :
      marker = 'x' ∨ marker = 'X' → (∀ c ∈ digits, HexBytes.isDigit c = true) →
      HexBytes.decode? digits = some bytes →
      SpellsLiteral (.blob bytes) (marker :: '\'' :: (digits ++ ['\'']))
  | keyword {word : Keyword} {value : Literal} {lexeme : List Char} :
      Keyword.ofText? (String.ofList lexeme) = some word →
      Literal.ofKind? (.keyword word) = some value → SpellsLiteral value lexeme

/-- What is read as a literal spells it. -/
theorem spellsLiteral_of_scan {c : Char} {cs lexeme behind : List Char} {kind : TokenKind}
    {value : Literal} (h : scan c cs = ⟨.ok kind, lexeme, behind⟩)
    (hkind : Literal.ofKind? kind = some value) : SpellsLiteral value lexeme := by
  cases finding_of_scan h with
  | number _ =>
    cases hkind
    have hnumber := SpellsLiteral.number (String.ofList lexeme)
    rwa [String.toList_ofList] at hnumber
  | keyword hword => exact .keyword hword hkind
  | string =>
    cases hkind
    exact .string _
  | blob hmarker hdigits hbytes =>
    cases hkind
    exact .blob hmarker hdigits hbytes
  | identifier _ => cases hkind
  | parameter _ => cases hkind
  | operator => cases hkind

/-- The text of a literal, with its letters in upper case where their case makes no difference. -/
def Literal.canonicalText : Literal → String → String
  | number _, lexeme | string _, lexeme => lexeme
  | _, lexeme => upper lexeme

/-- Only four keywords are literals. -/
theorem Literal.of_keyword {word : Keyword} {value : Literal}
    (h : ofKind? (.keyword word) = some value) :
    value.pieces = [.keyword word] ∧ ∀ lexeme, value.canonicalText lexeme = upper lexeme := by
  unfold ofKind? at h
  split at h
  any_goals contradiction
  all_goals
    next hword =>
      cases hword
      cases h
      exact ⟨rfl, fun _ => rfl⟩

theorem Dialect.render_singleton (d : Dialect) (p : Piece) : d.render [p] = p.text d := by
  simp [render, Writer.pushAll, Writer.push, Writer.start]

/-- A keyword is read from its own letters in any case. -/
theorem Keyword.upper_of_ofText? {word : Keyword} {text : String} (h : ofText? text = some word) :
    upper text = word.text := by
  have hword := List.find?_some h
  exact (beq_iff_eq.1 hword).symm

/-- A literal is written as it was spelled, up to the case of letters. -/
theorem SpellsLiteral.toSql {value : Literal} {cs : List Char} (h : SpellsLiteral value cs) :
    Rule.toSql .literal value = value.canonicalText (String.ofList cs) := by
  cases h with
  | number text =>
    rw [String.ofList_toList]
    exact Dialect.render_singleton _ _
  | string value =>
    rw [String.ofList_toList]
    exact Dialect.render_singleton _ _
  | @blob marker digits bytes hmarker hdigits hbytes =>
    have hupper : ('X' :: '\'' :: (HexBytes.encode bytes ++ ['\''])) =
        (marker :: '\'' :: (digits ++ ['\''])).map Char.toUpper := by
      rw [HexBytes.encode_of_decode? digits bytes hdigits hbytes]
      rcases hmarker with rfl | rfl <;> simp
    refine (Dialect.render_singleton _ _).trans (String.toList_inj.1 ?_)
    simp [Literal.canonicalText, Piece.text, Piece.quoteBlob, ← hupper]
  | @keyword word _ _ hword hvalue =>
    obtain ⟨hpieces, htext⟩ := Literal.of_keyword hvalue
    rw [htext, Keyword.upper_of_ofText? hword]
    exact (congrArg Dialect.sqlite.render hpieces).trans (Dialect.render_singleton _ _)

/-! ## Parsing literals -/

theorem flat_literal : Grammar.literal.Flat := by
  simp only [Grammar.literal, flat_bind, flat_kind, true_and]
  intro kind
  split <;> simp

section Parsing

variable {value : Literal} {depth : Nat}

/-- A text with one symbol that stands for a literal is parsed as the literal, with one level. -/
theorem parseRule_literal {text : String} {s : Symbol} (htext : Lexes text.toList [s])
    (hkind : Literal.ofKind? s.kind = some value) (hdepth : 0 < depth) :
    parseRule .literal text depth = .ok value := by
  have hliteral : ReadsWithin productions 0 (rule .literal) [s] value [] :=
    readsWithin_of_flat flat_literal (reads_literal hkind)
  exact parseRule_of_readsWithin htext (readsWithin_whole hliteral) hdepth

theorem parseRule_literal_toSql (h : value.WellMade) (hdepth : 0 < depth) :
    parseRule .literal (Rule.toSql .literal value) depth = .ok value := by
  obtain ⟨s, hs, hkind⟩ := Literal.symbols_pieces h
  have hwf : Rule.WellFormed Phrase.Unambiguous .literal value := h
  have htext : Lexes (Rule.toSql .literal value).toList (Pieces.symbols value.pieces) :=
    Rule.lexes_toSql hwf
  rw [hs] at htext
  exact parseRule_literal htext hkind hdepth

/-- A text of one token that is a literal: its characters spell the literal, and the text is parsed
as the literal. -/
theorem literal_of_tokenize {text : String} {t last : Token} (htext : tokenize text = .ok [t, last])
    (hkind : Literal.ofKind? t.kind = some value) (hdepth : 0 < depth) :
    SpellsLiteral value t.lexeme.toList ∧ parseRule .literal text depth = .ok value := by
  obtain ⟨ws, hws, hwords⟩ := words_of_tokenize htext
  obtain rfl : ws = [t.word] := by
    have happend : [t.word] ++ [last.word] = ws ++ [(TokenKind.eof, "")] := hwords
    exact ((List.append_inj' happend rfl).1).symm
  obtain ⟨c, cs, -, hscan⟩ := (hws.alone t.word (List.mem_singleton_self _)).scanned
  have hlexes := hws.lexes
  rw [List.map_singleton, wordSymbol_word] at hlexes
  exact ⟨spellsLiteral_of_scan hscan hkind, parseRule_literal hlexes hkind hdepth⟩

end Parsing

/-- Strings and bytes are parsed back from the texts that `toSql` gives, and a literal that was
parsed is written as `canonicalText` of its characters in the text: those of a number or a string
unchanged, those of bytes or a keyword in upper case. -/
theorem literal_codec {depth : Nat} (hdepth : 0 < depth) :
    (∀ value : String,
        parseRule .literal (Rule.toSql .literal (.string value)) depth = .ok (.string value)) ∧
      (∀ bytes : List UInt8,
        parseRule .literal (Rule.toSql .literal (.blob bytes)) depth = .ok (.blob bytes)) ∧
      ∀ (text : String) (t last : Token) (value : Literal), tokenize text = .ok [t, last] →
        Literal.ofKind? t.kind = some value →
          parseRule .literal text depth = .ok value ∧
            Rule.toSql .literal value = value.canonicalText t.lexeme := by
  refine ⟨fun value => parseRule_literal_toSql trivial hdepth,
    fun bytes => parseRule_literal_toSql trivial hdepth, fun text t last value htext hkind => ?_⟩
  obtain ⟨hspells, hparse⟩ := literal_of_tokenize htext hkind hdepth
  have hsql := hspells.toSql
  rw [String.ofList_toList] at hsql
  exact ⟨hparse, hsql⟩

/-- Bytes that are spelled in lower case, between blanks. -/
theorem literal_codec_blob :
    parseRule .literal (Rule.toSql .literal (.string "it''s")) 1 = .ok (.string "it''s") ∧
      parseRule .literal (Rule.toSql .literal (.blob [0, 255])) 1 = .ok (.blob [0, 255]) ∧
      parseRule .literal " x'0aF1' " 1 = .ok (.blob [10, 241]) ∧
      Rule.toSql .literal (.blob [10, 241]) = "X'0AF1'" := by
  obtain ⟨hstring, hblob, hread⟩ := literal_codec Nat.one_pos
  have htokens : tokenize " x'0aF1' " =
      .ok [⟨.blob [10, 241], "x'0aF1'", ⟨1, 8⟩⟩, .eof 9] := ok_of_toOption (by decide)
  obtain ⟨hparse, hsql⟩ := hread _ _ _ _ htokens rfl
  exact ⟨hstring _, hblob _, hparse, hsql.trans (by decide)⟩

end SqlGrammar
