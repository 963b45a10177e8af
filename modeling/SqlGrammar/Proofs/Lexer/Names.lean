import SqlGrammar.Proofs.Lexer.Reread

/-!
# Names and how they are spelled

A name is written as it is, if it is a word and no keyword, or in quotes, in ticks or in brackets.
Brackets cannot hold a name with a closing bracket in it; quotes and ticks hold any name, each of
their own kind written twice. Whatever a scan takes for a name is spelled in one of these ways.
-/

set_option autoImplicit false

namespace SqlGrammar.Lexer

open Text

/-- The characters spell the name. -/
inductive SpellsName (own : String) : List Char → Prop
  | bare : needsQuotes own = false → SpellsName own own.toList
  | quoted {quote : Char} : quote = '\x22' ∨ quote = '\x60' →
      SpellsName own (Quoted.enclose quote own).toList
  | bracketed : ']' ∉ own.toList → SpellsName own ('[' :: (own.toList ++ [']']))

variable {own : String}

/-! ## Reading spellings -/

theorem alone_bracketed (h : ']' ∉ own.toList) :
    Alone (.identifier own) ('[' :: (own.toList ++ [']'])) := by
  refine ⟨rfl, '[', _, rfl, ?_⟩
  have hall : ∀ c ∈ own.toList, decide (c ≠ ']') = true := by
    intro c hc
    rw [decide_eq_true_iff]
    rintro rfl
    exact h hc
  have hstop : ∀ c ∈ ([']'] : List Char).head?, decide (c ≠ ']') = false := by simp
  obtain ⟨htake, hrest⟩ := span_append hall hstop
  change scanBracketed (own.toList ++ [']']) = _
  rw [scanBracketed, htake, hrest, String.ofList_toList]
  rfl

/-- A spelling of a name is read as the name. -/
theorem SpellsName.alone {cs : List Char} (h : SpellsName own cs) : Alone (.identifier own) cs := by
  cases h with
  | bare hneeds => exact alone_name hneeds
  | quoted hquote => exact alone_quotedName hquote own
  | bracketed hclose => exact alone_bracketed hclose

/-! ## What is read spells a name -/

section Reading

variable {c : Char} {cs : List Char}

/-- The letters of a word that is no keyword. -/
theorem spellsName_word (hstart : startsWord c = true)
    (hkeyword : Keyword.ofText? (String.ofList ((c :: cs).takeWhile continuesWord)) = none) :
    SpellsName (String.ofList ((c :: cs).takeWhile continuesWord))
      ((c :: cs).takeWhile continuesWord) := by
  have hword : isWord ((c :: cs).takeWhile continuesWord) = true := isWord_takeWhile hstart
  have hbare : SpellsName (String.ofList ((c :: cs).takeWhile continuesWord)) _ :=
    .bare (needsQuotes_eq_false.2 ⟨by rwa [String.toList_ofList], hkeyword⟩)
  rwa [String.toList_ofList] at hbare

/-- A quoted text is its value with the quotes doubled, and a quote behind it. -/
theorem close?_lexeme {quote : Char} :
    ∀ (cs : List Char) (q : Quoted.Reading), Quoted.close? quote cs = some q →
      q.lexeme = Quoted.double quote q.value ++ [quote] := by
  intro cs
  fun_induction Quoted.close? quote cs with
  | case1 => simp
  | case2 =>
    rintro q ⟨⟩
    rfl
  | case3 => simp
  | case4 cs ih =>
    intro q hq
    obtain ⟨q', hq', rfl⟩ := Option.map_eq_some_iff.1 hq
    simp [Quoted.double, ih q' hq']
  | case5 d cs hd =>
    rintro q ⟨⟩
    rfl
  | case6 c d cs hc ih =>
    intro q hq
    obtain ⟨q', hq', rfl⟩ := Option.map_eq_some_iff.1 hq
    simp [Quoted.double, hc, ih q' hq']

theorem spellsName_quoted {quote : Char} {q : Quoted.Reading}
    (hquote : quote = '\x22' ∨ quote = '\x60') (hq : Quoted.close? quote cs = some q) :
    SpellsName (String.ofList q.value) (quote :: q.lexeme) := by
  have hquoted : SpellsName (String.ofList q.value) _ := .quoted hquote
  rwa [toList_enclose, String.toList_ofList, ← close?_lexeme cs q hq] at hquoted

theorem spellsName_bracketed {close : Char} {rest : List Char}
    (hdrop : cs.dropWhile (· ≠ ']') = close :: rest) :
    SpellsName (String.ofList (cs.takeWhile (· ≠ ']')))
      ('[' :: (cs.takeWhile (· ≠ ']') ++ [close])) := by
  obtain rfl : close = ']' := by simpa using of_dropWhile_eq_cons hdrop
  have hclose : ']' ∉ (String.ofList (cs.takeWhile (· ≠ ']'))).toList := by
    rw [String.toList_ofList]
    intro hmem
    exact absurd (forall_takeWhile (p := (· ≠ ']')) cs ']' hmem) (by decide)
  have hbracketed := SpellsName.bracketed hclose
  rwa [String.toList_ofList] at hbracketed

end Reading

end SqlGrammar.Lexer
