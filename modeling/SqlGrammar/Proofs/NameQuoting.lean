import SqlGrammar.Proofs.Lexer.Spelling

/-!
# Quoting names

The dialects judge for themselves whether a name has to be quoted. Their judgement agrees with the
lexer: a name that is written as it is comes back exactly if it needs no quotes, and in quotes it
always comes back (`name_quoting`).
-/

set_option autoImplicit false

namespace SqlGrammar

open Text Lexer

/-- A dialect with a quote character of its own, and the habits of all dialects otherwise. -/
def Dialect.usual (name : String) (quote : Char) : Dialect := { name, quote }

namespace Lexer

/-! ## Lengths of spellings -/

theorem length_le_double (quote : Char) (value : List Char) :
    value.length ≤ (Quoted.double quote value).length := by
  induction value with
  | nil => exact Nat.le_refl 0
  | cons c cs ih =>
    rw [Quoted.double]
    split <;> simp only [List.length_cons] <;> omega

/-- Only a name that needs no quotes is spelled with no more characters than it has. -/
theorem SpellsName.needsQuotes_eq_false {own : String} {cs : List Char} (h : SpellsName own cs)
    (hlength : cs.length ≤ own.toList.length) : needsQuotes own = false := by
  cases h with
  | bare hneeds => exact hneeds
  | @quoted quote hquote =>
    have hle := length_le_double quote own.toList
    simp only [toList_enclose, List.length_cons, List.length_append, List.length_nil] at hlength
    omega
  | bracketed hclose =>
    simp only [List.length_cons, List.length_append, List.length_nil] at hlength
    omega

/-- A name that is read from its own characters was not quoted there. -/
theorem needsQuotes_eq_false_of_isToken {own : String} (h : IsToken (.identifier own) own) :
    needsQuotes own = false := by
  obtain ⟨c, rest, lexeme, behind, hgap, hscan⟩ := scan_of_isToken h
  have hsplit := congrArg List.length (scan_splits c rest)
  have hle := length_splitGap_le own.toList
  rw [hscan, List.length_append] at hsplit
  rw [hgap] at hle
  exact (spellsName_of_scan hscan).needsQuotes_eq_false (by dsimp only at hsplit; omega)

theorem SpellsName.isToken {own text : String} (h : SpellsName own text.toList) :
    IsToken (.identifier own) text := isToken_of_alone h.alone

/-- Whatever stands in a text for a name spells it. -/
theorem spellsName_of_mem {text own : String} {ts : List Token} {t : Token}
    (htext : tokenize text = .ok ts) (ht : t ∈ ts) (hkind : t.kind = .identifier own) :
    SpellsName own t.lexeme.toList := by
  obtain ⟨ws, hws, hwords⟩ := words_of_tokenize htext
  have hmem : t.word ∈ ws ++ [(TokenKind.eof, "")] := hwords ▸ List.mem_map_of_mem ht
  rcases List.mem_append.1 hmem with hword | heof
  · obtain ⟨c, tail, hcs, hscan⟩ := (hws.alone t.word hword).scanned
    rw [Token.word, hkind] at hscan
    exact spellsName_of_scan hscan
  · rw [List.mem_singleton, Token.word, hkind] at heof
    cases heof

end Lexer

/-! ## Quoting -/

/-- A name is read from its own characters exactly if no dialect `needsQuoting` for it, it is read
from `quoteName`, and from its text in brackets if none of them closes too early. Every spelling of
a name in a text `SpellsName`, and may be exchanged for the name in quotes. -/
theorem name_quoting (own dialect : String) (quote : Char) :
    (IsToken (.identifier own) own ↔ (Dialect.usual dialect quote).needsQuoting own = false) ∧
      (quote = '\x22' ∨ quote = '\x60' →
        IsToken (.identifier own) ((Dialect.usual dialect quote).quoteName own)) ∧
      (']' ∉ own.toList → IsToken (.identifier own) ("[" ++ own ++ "]")) ∧
      ∀ (text : String) (ts : List Token) (t : Token), tokenize text = .ok ts → t ∈ ts →
        t.kind = .identifier own →
          SpellsName own t.lexeme.toList ∧ IsToken t.kind (Dialect.sqlite.quoteName own) := by
  refine ⟨⟨needsQuotes_eq_false_of_isToken, fun h => ?_⟩, fun hquote => ?_, fun hclose => ?_,
    fun text ts t htext ht hkind => ⟨spellsName_of_mem htext ht hkind, ?_⟩⟩
  · exact SpellsName.isToken (.bare h)
  · exact SpellsName.isToken (.quoted hquote)
  · apply SpellsName.isToken
    have hspells := SpellsName.bracketed hclose
    rwa [String.toList_append, String.toList_append]
  · rw [hkind]
    exact SpellsName.isToken (.quoted (.inl rfl))

/-- The tokens of a name and of another one, in quotes, with a tick in it. -/
def tickedTokens : List Token :=
  [⟨.identifier "x", "x", ⟨0, 1⟩⟩, ⟨.identifier "a\x60b", "\"a\x60b\"", ⟨2, 7⟩⟩, .eof 7]

/-- A name with a tick in it, which is written twice between ticks. -/
theorem name_quoting_tick :
    (IsToken (.identifier "a\x60b") "a\x60b" ↔
        (Dialect.usual "ticked" '\x60').needsQuoting "a\x60b" = false) ∧
      IsToken (.identifier "a\x60b") ((Dialect.usual "ticked" '\x60').quoteName "a\x60b") ∧
      IsToken (.identifier "a\x60b") ("[" ++ "a\x60b" ++ "]") ∧
      tokenize "x \"a\x60b\"" = .ok tickedTokens ∧
      SpellsName "a\x60b" "\"a\x60b\"".toList ∧
      IsToken (.identifier "a\x60b") (Dialect.sqlite.quoteName "a\x60b") := by
  obtain ⟨hbare, hquoted, hbracketed, hspelled⟩ := name_quoting "a\x60b" "ticked" '\x60'
  have htext : tokenize "x \"a\x60b\"" = .ok tickedTokens := ok_of_toOption (by decide)
  have hmem : ⟨.identifier "a\x60b", "\"a\x60b\"", ⟨2, 7⟩⟩ ∈ tickedTokens := by decide
  obtain ⟨hspells, hagain⟩ := hspelled _ _ _ htext hmem rfl
  exact ⟨hbare, hquoted (.inr rfl), hbracketed (by decide), htext, hspells, hagain⟩

end SqlGrammar
