import SqlGrammar.Proofs.Lexer.Names

/-!
# Kinds and spellings

A scan finds a token or a fault, and the characters it has used are those of what it has found
(`scan_finds`): numbers and parameters carry the text they were written with, a keyword is spelled
by its word, a name in one of the ways to spell it, and a blob has nothing but digits between its
quotes. A text is a number or a parameter
exactly if it stands alone as one.
-/

set_option autoImplicit false

namespace SqlGrammar

namespace Lexer

open Text

/-! ## What a scan finds -/

/-- What stands at `c`, in front of `cs`: a token of some kind or a fault, and its characters. A
string is its value with the quotes doubled. A blob that is closed holds nothing but digits, also if
one of them is left over. -/
inductive Finding (c : Char) (cs : List Char) : Except Fault TokenKind → List Char → Prop
  | number {lexeme : List Char} : startsNumber c cs = true →
      Finding c cs (.ok (.number (String.ofList lexeme))) lexeme
  | keyword {word : Keyword} {lexeme : List Char} :
      Keyword.ofText? (String.ofList lexeme) = some word → Finding c cs (.ok (.keyword word)) lexeme
  | identifier {own : String} {lexeme : List Char} :
      SpellsName own lexeme → Finding c cs (.ok (.identifier own)) lexeme
  | string {value : String} :
      Finding c cs (.ok (.string value)) (Quoted.enclose '\'' value).toList
  | blob {bytes : List UInt8} {digits : List Char} :
      c = 'x' ∨ c = 'X' → (∀ d ∈ digits, HexBytes.isDigit d = true) →
      HexBytes.decode? digits = some bytes →
      Finding c cs (.ok (.blob bytes)) (c :: '\'' :: (digits ++ ['\'']))
  | parameter {lexeme : List Char} : isSigil c = true →
      Finding c cs (.ok (.parameter (String.ofList lexeme))) lexeme
  | operator {sign : Operator} {lexeme : List Char} : Finding c cs (.ok (.operator sign)) lexeme
  | oddBlob {digits : List Char} :
      c = 'x' ∨ c = 'X' → (∀ d ∈ digits, HexBytes.isDigit d = true) →
      Finding c cs (.error .oddBlobDigits) (c :: '\'' :: (digits ++ ['\'']))
  | fault {fault : Fault} {lexeme : List Char} : fault ≠ .oddBlobDigits →
      Finding c cs (.error fault) lexeme

/-- The scan has found what stands at `c`, in front of `cs`. -/
def Scan.Finds (s : Scan) (c : Char) (cs : List Char) : Prop := Finding c cs s.verdict s.lexeme

section Finds

variable {c : Char} {cs : List Char}

theorem endNumber_finds (h : startsNumber c cs = true) (lexeme rest : List Char) :
    (endNumber lexeme rest).Finds c cs := by
  unfold endNumber
  split
  · exact .number h
  · exact .fault (by simp)

theorem scanHexNumber_finds (h : startsNumber c cs = true) (mark : Char) (rest : List Char) :
    (scanHexNumber mark rest).Finds c cs := by
  unfold scanHexNumber
  split
  · exact .fault (by simp)
  · exact endNumber_finds h _ _

theorem scanExponent_finds (h : startsNumber c cs = true) (mantissa rest : List Char) :
    (scanExponent mantissa rest).Finds c cs := by
  unfold scanExponent
  split
  · split
    · dsimp only
      split
      · exact .fault (by simp)
      · exact endNumber_finds h _ _
    · exact endNumber_finds h _ _
  · exact endNumber_finds h _ _

theorem scanNumber_finds (h : startsNumber c cs = true) (rest : List Char) :
    (scanNumber rest).Finds c cs := by
  unfold scanNumber
  split
  · exact scanHexNumber_finds h 'x' _
  · exact scanHexNumber_finds h 'X' _
  · exact scanExponent_finds h _ _

theorem scanWord_finds (h : startsWord c = true) : (scanWord (c :: cs)).Finds c cs := by
  unfold scanWord wordKind
  dsimp only
  split
  · next hword => exact .keyword hword
  · next hkeyword => exact .identifier (spellsName_word h hkeyword)

theorem Quotes.finds {quote : Char} {toKind : String → TokenKind} {unclosed : Fault}
    (h : Quotes quote toKind unclosed) (rest : List Char) :
    (scanQuoted quote toKind unclosed rest).Finds c cs := by
  unfold scanQuoted
  split
  · next q hq =>
    cases h with
    | string =>
      have hfinding : Finding c cs (.ok (.string (String.ofList q.value))) _ := .string
      rwa [toList_enclose, String.toList_ofList, ← close?_lexeme rest q hq] at hfinding
    | name => exact .identifier (spellsName_quoted (.inl rfl) hq)
    | tick => exact .identifier (spellsName_quoted (.inr rfl) hq)
  · cases h <;> exact .fault (by simp)

theorem scanBracketed_finds (rest : List Char) : (scanBracketed rest).Finds c cs := by
  unfold scanBracketed
  dsimp only
  split
  · next hdrop => exact .identifier (spellsName_bracketed hdrop)
  · exact .fault (by simp)

theorem scanBlob_finds (hmarker : c = 'x' ∨ c = 'X') (rest : List Char) :
    (scanBlob c rest).Finds c cs := by
  have hdigits := forall_takeWhile (p := HexBytes.isDigit) rest
  unfold scanBlob
  dsimp only
  split
  · exact .fault (by simp)
  · split
    · next hbytes => exact .blob hmarker hdigits hbytes
    · exact .oddBlob hmarker hdigits
  · exact .fault (by simp)

theorem scanParameter_finds (h : isSigil c = true) (rest : List Char) :
    (scanParameter c rest).Finds c cs := by
  unfold scanParameter
  split
  · exact .parameter h
  · dsimp only
    split
    · exact .fault (by simp)
    · exact .parameter h

theorem scanOperator_finds (rest : List Char) : (scanOperator c rest).Finds c cs := by
  unfold scanOperator
  split
  · exact .operator
  · exact .fault (by simp)

/-- A scan finds what stands in front of it. -/
theorem scan_finds (c : Char) (cs : List Char) : (scan c cs).Finds c cs := by
  have hclass := scansAs_scan c cs
  generalize scan c cs = s at hclass ⊢
  cases hclass with
  | number h => exact scanNumber_finds h _
  | blob hmarker _ => exact scanBlob_finds hmarker _
  | word h => exact scanWord_finds h
  | quoted hquotes => exact hquotes.finds _
  | bracketed _ => exact scanBracketed_finds _
  | parameter h => exact scanParameter_finds h _
  | operator => exact scanOperator_finds _

theorem finding_of_scan {verdict : Except Fault TokenKind} {lexeme behind : List Char}
    (h : scan c cs = ⟨verdict, lexeme, behind⟩) : Finding c cs verdict lexeme := by
  have hfinds := scan_finds c cs
  rwa [h] at hfinds

end Finds

/-! ## Spellings -/

/-- What a kind says about the characters that its token was written with. -/
def SpelledBy : TokenKind → List Char → Prop
  | .number text, lexeme | .parameter text, lexeme => text = String.ofList lexeme
  | .keyword word, lexeme => Keyword.ofText? (String.ofList lexeme) = some word
  | _, _ => True

/-- A scan reports a kind that fits the characters it has used. -/
theorem scan_spelledBy {c : Char} {cs lexeme behind : List Char} {kind : TokenKind}
    (h : scan c cs = ⟨.ok kind, lexeme, behind⟩) : SpelledBy kind lexeme := by
  cases finding_of_scan h with
  | number _ => rfl
  | keyword hword => exact hword
  | parameter _ => rfl
  | identifier => trivial
  | string => trivial
  | blob _ _ _ => trivial
  | operator => trivial

/-- What is read as a name spells it. -/
theorem spellsName_of_scan {c : Char} {cs lexeme behind : List Char} {own : String}
    (h : scan c cs = ⟨.ok (.identifier own), lexeme, behind⟩) : SpellsName own lexeme := by
  cases finding_of_scan h with
  | identifier hspells => exact hspells

/-- Only what starts like a number is read as one. -/
theorem startsNumber_of_scan {c : Char} {cs lexeme behind : List Char} {text : String}
    (h : scan c cs = ⟨.ok (.number text), lexeme, behind⟩) : startsNumber c cs = true := by
  cases finding_of_scan h with
  | number hstart => exact hstart

/-! ## Texts that are one token -/

/-- The text is read as one token of a kind. -/
def IsToken (kind : TokenKind) (text : String) : Prop :=
  (tokenize text).toOption.map (List.map Token.kind) = some [kind, .eof]

instance (kind : TokenKind) (text : String) : Decidable (IsToken kind text) :=
  inferInstanceAs (Decidable (_ = _))

theorem isToken_of_alone {kind : TokenKind} {text : String} (h : Alone kind text.toList) :
    IsToken kind text := by
  have hlexes := h.lexes_append (.nil kind) (.nil rfl)
  rw [List.append_nil] at hlexes
  obtain ⟨ts, hts, hsymbols⟩ := tokenize_of_lexes hlexes
  rw [IsToken, hts]
  exact congrArg some (map_kind_of_map_symbol hsymbols)

/-- A text that is read as one token is a gap and that token, and perhaps another gap. -/
theorem scan_of_isToken {kind : TokenKind} {text : String} (h : IsToken kind text) :
    ∃ c rest lexeme behind, (splitGap .between text.toList).2 = c :: rest ∧
      scan c rest = ⟨.ok kind, lexeme, behind⟩ := by
  obtain ⟨ts, hts, hkinds⟩ := Option.map_eq_some_iff.1 h
  obtain ⟨ss, hlexes, hsymbols⟩ := lexes_of_tokenize (ok_of_toOption hts)
  have hss : ss.map Symbol.kind = [kind] := by
    have happend : [kind] ++ [TokenKind.eof] = ss.map Symbol.kind ++ [.eof] :=
      hkinds.symm.trans (map_kind_of_map_symbol hsymbols)
    exact (List.append_cancel_right happend).symm
  cases hlexes with
  | nil => cases hss
  | cons hgap hscan _ =>
    simp only [List.map_cons, symbolOf_kind, List.cons.injEq] at hss
    obtain ⟨rfl, -⟩ := hss
    exact ⟨_, _, _, _, hgap, hscan⟩

/-- A text that is read as one token, with its characters as the spelling, stands alone. -/
theorem alone_of_isToken {kind : TokenKind} {text : String} (h : IsToken kind text)
    (hspelled : ∀ lexeme, SpelledBy kind lexeme → text = String.ofList lexeme) :
    Alone kind text.toList := by
  obtain ⟨c, rest, lexeme, behind, -, hscan⟩ := scan_of_isToken h
  rw [hspelled _ (scan_spelledBy hscan), String.toList_ofList]
  exact alone_of_scan hscan

theorem isNumber_iff_alone {text : String} :
    IsToken (.number text) text ↔ Alone (.number text) text.toList :=
  ⟨fun h => alone_of_isToken h fun _ hs => hs, isToken_of_alone⟩

theorem isParameter_iff_alone {text : String} :
    IsToken (.parameter text) text ↔ Alone (.parameter text) text.toList :=
  ⟨fun h => alone_of_isToken h fun _ hs => hs, isToken_of_alone⟩

end Lexer

end SqlGrammar
