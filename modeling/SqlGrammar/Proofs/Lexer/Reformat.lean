import SqlGrammar.Proofs.Lexer.Reread
import SqlGrammar.Proofs.Lexer.Skipped

/-!
# Texts with other gaps

The tokens of a text stand alone, so they can be written with any other gaps between them, as long
as every gap starts with a blank and leaves no comment open. The new text has the same tokens
(`tokenize_weave`).
-/

set_option autoImplicit false

namespace SqlGrammar

open Text

namespace Lexer

/-! ## Gaps in front -/

theorem blankRanges_disjoint_numberRanges : blankRanges.disjoint numberRanges = true := by
  decide

/-- A blank goes on no token. -/
theorem endsToken_of_isBlank {c : Char} (h : isBlank c = true) : endsToken c = true := by
  have hletter : isLetter c = false := by
    rw [Bool.eq_false_iff]
    intro hletter
    rw [not_isBlank_of_isLetter hletter] at h
    cases h
  have hdigit : c.isDigit = false := by
    rw [Bool.eq_false_iff]
    intro hdigit
    rw [isBlank_of_isDigit hdigit] at h
    cases h
  have hnumeric : isNumeric c = false := by
    rw [isNumeric, hdigit, CodeRanges.not_contains_of_disjoint blankRanges_disjoint_numberRanges h,
      Bool.and_false, Bool.or_false]
  -- the signs that go on a word, a number, an operator or a quoted text
  have hmark : ∀ d ∈ ['_', '$', '=', '<', '>', '|', '\'', '\x22', '\x60', '+', '-', '*'],
      c ≠ d := by
    intro d hd
    have hall : ['_', '$', '=', '<', '>', '|', '\'', '\x22', '\x60', '+', '-', '*'].all
        (fun d => !isBlank d) = true := rfl
    exact ne_of_isBlank h (by simpa using List.all_eq_true.1 hall d hd)
  simp only [List.mem_cons, List.not_mem_nil, or_false, forall_eq_or_imp, forall_eq] at hmark
  simp [endsToken, continuesWord, isLetterOrNumeric, hletter, hnumeric, hmark]

/-- A closed gap in front of a text makes no difference. -/
theorem Words.skip {gap cs : List Char} {ws : List (TokenKind × String)}
    (hgap : Skipped false gap) (h : Words cs ws) : Words (gap ++ cs) ws := by
  have hsplit : (splitGap .between (gap ++ cs)).2 = (splitGap .between cs).2 := by
    rw [splitGap_append_of_skipped hgap]
  cases h with
  | nil hnil => exact .nil (hsplit.trans hnil)
  | cons hcons hscan hrest => exact .cons (hsplit.trans hcons) hscan hrest

/-! ## Separators -/

/-- A text that separates tokens: blanks and closed comments, a blank first. -/
structure Separator where
  text : String
  blank : ∃ c ∈ text.toList.head?, isBlank c = true
  skipped : Skipped false text.toList

/-- The text of a separator that may be missing. -/
def Separator.textOf : Option Separator → String
  | some s => s.text
  | none => ""

theorem Separator.skipped_textOf (s : Option Separator) :
    Skipped false (textOf s).toList := by
  cases s with
  | none => exact .nil
  | some s => exact s.skipped

/-- A separator ends every token. -/
theorem Separator.detached (s : Separator) (kind : TokenKind) (rest : List Char) :
    Detached kind (s.text.toList ++ rest) := by
  obtain ⟨c, hc, hblank⟩ := s.blank
  intro d hd
  obtain ⟨tail, htail⟩ := List.head?_eq_some_iff.1 hc
  rw [htail] at hd
  cases hd
  exact ⟨endsToken_of_isBlank hblank, fun _ => ne_of_isBlank hblank (by decide)⟩

theorem Separator.detached_textOf (s : Option Separator) (kind : TokenKind) :
    Detached kind (textOf s).toList := by
  cases s with
  | none => exact Detached.nil kind
  | some s =>
    have hdetached := s.detached kind []
    rwa [List.append_nil] at hdetached

/-- Texts with separators between them; the first separator stands behind the first text. -/
def weave (sep : Nat → Separator) : List String → String
  | [] => ""
  | [only] => only
  | first :: second :: more =>
    first ++ (sep 0).text ++ weave (fun n => sep (n + 1)) (second :: more)

/-- Words that stand alone are read again from `weave`, which puts separators between them. -/
theorem words_weave {ws : List (TokenKind × String)} (h : ∀ w ∈ ws, Alone w.1 w.2.toList)
    (back : Option Separator) : ∀ sep : Nat → Separator,
      Words ((weave sep (ws.map Prod.snd)).toList ++ (Separator.textOf back).toList) ws := by
  have hback : Words (Separator.textOf back).toList [] := by
    have hnil : Words [] [] := .nil rfl
    have hskip := Words.skip (Separator.skipped_textOf back) hnil
    rwa [List.append_nil] at hskip
  induction ws with
  | nil => exact fun sep => hback
  | cons w ws ih =>
    intro sep
    have hw := h w (by simp)
    have hmore := ih fun v hv => h v (by simp [hv])
    cases ws with
    -- behind the last word only the separator at the end is left
    | nil =>
      have hword := hw.words_append (Separator.detached_textOf back w.1) hback
      rwa [String.ofList_toList] at hword
    | cons v ws =>
      have hword := hw.words_append ((sep 0).detached w.1 _)
        (Words.skip (sep 0).skipped (hmore fun n => sep (n + 1)))
      rw [String.ofList_toList] at hword
      simpa [weave, List.append_assoc] using hword

/-- A blank, which separates whatever stands before it and behind it. -/
def blankSeparator : Separator where
  text := " "
  blank := ⟨' ', rfl, rfl⟩
  skipped := .blank rfl .nil

/-- Words that stand alone are those of some text. -/
theorem exists_text_of_words {ws : List (TokenKind × String)}
    (h : ∀ w ∈ ws, Alone w.1 w.2.toList) : ∃ text : String, Words text.toList ws := by
  refine ⟨weave (fun _ => blankSeparator) (ws.map Prod.snd), ?_⟩
  have hwords := words_weave h none fun _ => blankSeparator
  rwa [Separator.textOf, String.toList_empty, List.append_nil] at hwords

/-- The spellings of tokens, but for the end of the input. -/
def spellings (ts : List Token) : List String :=
  (ts.filter fun t => !t.isEof).map Token.lexeme

theorem spellings_eq {ts : List Token} {ws : List (TokenKind × String)}
    (h : ts.map Token.word = ws ++ [(.eof, "")]) (hws : ∀ w ∈ ws, w.1 ≠ .eof) :
    spellings ts = ws.map Prod.snd := by
  have hinner : ws.filter (fun w => !(w.1 == .eof)) = ws := by
    rw [List.filter_eq_self]
    intro w hw
    simpa using hws w hw
  calc spellings ts
      = ((ts.map Token.word).filter fun w => !(w.1 == .eof)).map Prod.snd := by
        rw [List.filter_map, List.map_map]
        rfl
    _ = ws.map Prod.snd := by
        rw [h, List.filter_append, hinner, List.map_append]
        exact List.append_nil _

/-- The tokens of a text are read again, with the same kinds and lexemes, from their `spellings`,
whatever `Separator` stands between each two of them and at the ends. -/
theorem tokenize_weave {text : String} {ts : List Token} (h : tokenize text = .ok ts)
    (sep : Nat → Separator) (front back : Option Separator) :
    ∃ ts', tokenize (Separator.textOf front ++ weave sep (spellings ts) ++
        Separator.textOf back) = .ok ts' ∧
      ts'.map Token.kind = ts.map Token.kind ∧ ts'.map Token.lexeme = ts.map Token.lexeme ∧
      ∃ kinds, ts'.map Token.kind = kinds ++ [.eof] ∧ .eof ∉ kinds := by
  obtain ⟨ws, hws, hwords⟩ := words_of_tokenize h
  have halone := hws.alone
  have hne : ∀ w ∈ ws, w.1 ≠ .eof := fun w hw => (halone w hw).kind_ne_eof
  -- the new text is read as the words of the old one
  have hread : Words (Separator.textOf front ++ weave sep (spellings ts) ++
      Separator.textOf back).toList ws := by
    rw [spellings_eq hwords hne, String.append_assoc, String.toList_append, String.toList_append]
    exact Words.skip (Separator.skipped_textOf front) (words_weave halone back sep)
  obtain ⟨ts', hts', hwords'⟩ := tokenize_of_words hread
  have hsame : ts'.map Token.word = ts.map Token.word := hwords'.trans hwords.symm
  have hkinds : ts'.map Token.kind = (ts'.map Token.word).map Prod.fst := by
    rw [List.map_map]
    rfl
  refine ⟨ts', hts', ?_, ?_, ws.map Prod.fst, ?_, ?_⟩
  · rw [hkinds, hsame, List.map_map]
    rfl
  · have hlexemes := congrArg (List.map Prod.snd) hsame
    rwa [List.map_map, List.map_map] at hlexemes
  · rw [hkinds, hwords', List.map_append]
    rfl
  · intro heof
    obtain ⟨w, hw, hkind⟩ := List.mem_map.1 heof
    exact hne w hw hkind

/-- A line comment behind a blank. -/
def lineSeparator : Separator where
  text := " --*/\n"
  blank := ⟨' ', rfl, rfl⟩
  skipped := .blank rfl (@Skipped.line _ ['*', '/'] [] (by decide) .nil)

/-- A block comment behind a newline. -/
def blockSeparator : Separator where
  text := "\n/*--'*/"
  blank := ⟨'\n', rfl, rfl⟩
  skipped := .blank rfl (@Skipped.block _ ['-', '-', '\''] [] (by decide) .nil)

/-- The tokens of a text without gaps, in which each token stands next to one that it could run
together with. -/
def crowdedTokens : List Token :=
  [⟨.operator .minus, "-", ⟨0, 1⟩⟩, ⟨.number ".5", ".5", ⟨1, 3⟩⟩, ⟨.operator .lt, "<", ⟨3, 4⟩⟩,
   ⟨.string "a", "'a'", ⟨4, 7⟩⟩, ⟨.blob [10], "x'0A'", ⟨7, 12⟩⟩, ⟨.identifier "b", "b", ⟨12, 13⟩⟩,
   ⟨.operator .slash, "/", ⟨13, 14⟩⟩, ⟨.parameter "?1", "?1", ⟨14, 16⟩⟩, .eof 16]

theorem tokenize_weave_crowded :
    tokenize "-.5<'a'x'0A'b/?1" = .ok crowdedTokens ∧
      ∃ ts', tokenize (Separator.textOf none ++
          weave (fun n => if n % 2 = 0 then lineSeparator else blockSeparator)
            (spellings crowdedTokens) ++ Separator.textOf (some blockSeparator)) = .ok ts' ∧
        ts'.map Token.kind = crowdedTokens.map Token.kind ∧
        ts'.map Token.lexeme = crowdedTokens.map Token.lexeme ∧
        ∃ kinds, ts'.map Token.kind = kinds ++ [.eof] ∧ .eof ∉ kinds := by
  have htokens : tokenize "-.5<'a'x'0A'b/?1" = .ok crowdedTokens :=
    ok_of_toOption (by decide)
  exact ⟨htokens, tokenize_weave htokens _ none (some blockSeparator)⟩

end Lexer

end SqlGrammar
