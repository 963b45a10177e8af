import SqlGrammar.Proofs.Lexer.Numerals
import SqlGrammar.Proofs.Lexer.Tiling

/-!
# Numbers are read by their grammar

A text is one number exactly if it is a numeral. Wherever a numeral stands in a text, the longest
one is read as a number, unless a word goes on behind it: then a fault is reported, so that no
number is ever followed by a word without a gap (`number_grammar`).
-/

set_option autoImplicit false

namespace SqlGrammar

open Text

namespace Lexer

/-! ## Texts that are numbers -/

theorem Numeral.longestNumeral {num : List Char} (h : Numeral num) : LongestNumeral num [] num :=
  ⟨h, List.append_nil num, fun _ _ hprefix => hprefix.length_le⟩

theorem isNumber_iff_numeral {text : String} :
    IsToken (.number text) text ↔ Numeral text.toList := by
  rw [isNumber_iff_alone]
  constructor
  · rintro ⟨-, c, cs, hcs, hscan⟩
    have hstart := startsNumber_of_scan hscan
    rw [scan_number hstart] at hscan
    exact (scanNumber_numeral hstart hscan).1
  · intro h
    obtain ⟨c, cs, hcs⟩ := List.exists_cons_of_ne_nil h.ne_nil
    have hlongest : LongestNumeral text.toList [] (c :: cs) := hcs ▸ h.longestNumeral
    have hscan := hlongest.scan_ok (by simp [EndsWord])
    rw [String.ofList_toList] at hscan
    exact ⟨hcs ▸ startsGap_of_startsNumber hlongest.startsNumber, c, cs, hcs, hscan⟩

instance (cs : List Char) : Decidable (Numeral cs) :=
  decidable_of_iff (IsToken (.number (String.ofList cs)) (String.ofList cs))
    (by rw [isNumber_iff_numeral, String.toList_ofList])

example : (Numeral ".5".toList ∧ Numeral "1.e5".toList ∧ Numeral "0X1f".toList) ∧
    ¬ (Numeral "0x".toList ∨ Numeral "1e+".toList ∨ Numeral "1.5.".toList) := by decide

theorem isRun_toDigits (n : Nat) : IsRun Char.isDigit (Nat.toDigits 10 n) := by
  refine ⟨Nat.toDigits_ne_nil, fun c hc => ?_⟩
  exact Nat.isDigit_of_mem_toDigits (by decide) (by decide) hc

/-- A natural number in digits is the text of a number. -/
theorem isToken_toString (n : Nat) : IsToken (.number (toString n)) (toString n) := by
  rw [isNumber_iff_numeral, Nat.toString_eq_repr, Nat.toList_repr]
  have hnumeral := Numeral.decimal (.digits (isRun_toDigits n) .none) .none
  rwa [List.append_nil, List.append_nil] at hnumeral

/-! ## Numbers in texts -/

/-- Where a text is read without a fault, no call reports one. -/
theorem Words.exists_result {cs : List Char} {ws : List (TokenKind × String)} (h : Words cs ws) :
    ∀ offset n, ∃ t, (Lexer.mk offset cs).result n = .ok t := by
  induction h with
  | @nil cs hgap =>
    intro offset n
    have hnext := next_of_gap (l := ⟨offset, cs⟩) hgap
    exact ⟨_, result_of_eof (congrArg Prod.fst hnext) rfl n⟩
  | @cons cs rest lexeme behind c kind ws hgap hscan _ ih =>
    intro offset n
    have hnext := next_of_scan (l := ⟨offset, cs⟩) hgap
    rw [hscan] at hnext
    cases n with
    | zero => exact ⟨_, congrArg Prod.fst hnext⟩
    | succ n =>
      rw [result, after, hnext]
      exact ih _ n

theorem exists_fault_of_result {text : String} {n : Nat} {error : ParseError}
    (h : (ofText text).result n = .error error) : ∃ error, tokenize text = .error error := by
  cases htext : tokenize text with
  | error error => exact ⟨error, rfl⟩
  | ok ts =>
    obtain ⟨ws, hws, -⟩ := words_of_tokenize htext
    obtain ⟨t, ht⟩ := hws.exists_result 0 n
    cases h.symm.trans ht

/-- A number that is reported is the longest numeral where it stands, and no word goes on behind
it. -/
theorem On.number {text : String} {l : Lexer} (h : l.On text) {t : Token} {s : String}
    (ht : l.next.1 = .ok t) (hkind : t.kind = .number s) :
    ∃ before behind, text = before ++ s ++ behind ∧
      t = ⟨.number s, s, ⟨before.utf8ByteSize, (before ++ s).utf8ByteSize⟩⟩ ∧
      LongestNumeral s.toList behind.toList (s ++ behind).toList ∧ EndsWord behind.toList := by
  obtain ⟨before, htext, hoffset⟩ := (h.advance (splitGap_append .between l.rest).symm).1
  dsimp only at htext hoffset
  cases hrest : (splitGap .between l.rest).2 with
  | nil =>
    rw [next_of_gap hrest] at ht
    cases ht
    cases hkind
  | cons c rest =>
    rw [next_of_scan hrest] at ht
    rcases hscan : scan c rest with ⟨verdict, lexeme, behind⟩
    rw [hscan] at ht
    cases verdict with
    | error fault => cases ht
    | ok kind =>
      cases ht
      obtain rfl : kind = .number s := hkind
      obtain rfl : s = String.ofList lexeme := scan_spelledBy hscan
      have hstart := startsNumber_of_scan hscan
      rw [scan_number hstart] at hscan
      obtain ⟨hlongest, hend⟩ := longestNumeral_of_scanNumber hstart hscan
      refine ⟨before, String.ofList behind, ?_, ?_, ?_, ?_⟩
      · rw [htext, hrest, ← hlongest.parts, String.ofList_append, String.append_assoc]
      · rw [String.utf8ByteSize_append, utf8ByteSize_ofList, ← hoffset]
        rfl
      · rw [← String.ofList_append, String.toList_ofList, String.toList_ofList,
          String.toList_ofList, hlongest.parts]
        exact hlongest
      · rwa [String.toList_ofList]

/-- What is reported where the next thing in a text is a numeral. -/
theorem LongestNumeral.next {l : Lexer} {num behind : List Char}
    (h : LongestNumeral num behind l.skipGap.rest) :
    (EndsWord behind → ∃ span, l.next.1 =
        .ok ⟨.number (String.ofList num), String.ofList num, span⟩) ∧
      (¬ EndsWord behind → ∃ message span, l.next.1 = .error (.lexical message span)) := by
  obtain ⟨c, rest, hrest⟩ : ∃ c rest, (splitGap .between l.rest).2 = c :: rest := by
    refine List.exists_cons_of_ne_nil fun hnil => ?_
    have hparts : num ++ behind = (splitGap .between l.rest).2 := h.parts
    rw [hnil] at hparts
    exact h.numeral.ne_nil (List.append_eq_nil_iff.1 hparts).1
  have hlongest : LongestNumeral num behind (c :: rest) := hrest ▸ h
  rw [next_of_scan hrest]
  constructor
  · intro hend
    rw [hlongest.scan_ok hend]
    exact ⟨_, rfl⟩
  · intro hend
    obtain ⟨fault, hfault⟩ := hlongest.scan_error hend
    rw [report, hfault]
    exact ⟨_, _, rfl⟩

/-- A text is read as one number exactly if it is a `Numeral`. In every text, a number that is read
is the `LongestNumeral` where it stands, and no character behind it `continuesWord`. Where the next
thing in a text is a numeral, the longest one is read as a number if no such character is behind it;
otherwise a fault is reported there, and the text is refused. -/
theorem number_grammar (text : String) :
    (IsToken (.number text) text ↔ Numeral text.toList) ∧
      (∀ n t s, (ofText text).result n = .ok t → t.kind = .number s →
        ∃ before behind, text = before ++ s ++ behind ∧
          t = ⟨.number s, s, ⟨before.utf8ByteSize, (before ++ s).utf8ByteSize⟩⟩ ∧
          LongestNumeral s.toList behind.toList (s ++ behind).toList ∧
          ∀ c ∈ behind.toList.head?, continuesWord c = false) ∧
      ∀ n num behind, LongestNumeral num behind ((ofText text).after n).skipGap.rest →
        ((∀ c ∈ behind.head?, continuesWord c = false) → ∃ span, (ofText text).result n =
          .ok ⟨.number (String.ofList num), String.ofList num, span⟩) ∧
        ((∃ c ∈ behind.head?, continuesWord c = true) →
          (∃ message span, (ofText text).result n = .error (.lexical message span)) ∧
            ∃ error, tokenize text = .error error) := by
  refine ⟨isNumber_iff_numeral, fun n t s ht hkind => (on_after text n).number ht hkind,
    fun n num behind hlongest => ⟨hlongest.next.1, ?_⟩⟩
  rintro ⟨c, hc, hword⟩
  have hend : ¬ EndsWord behind := by
    intro hend
    rw [hend c hc] at hword
    cases hword
  obtain ⟨message, span, hresult⟩ := hlongest.next.2 hend
  exact ⟨⟨message, span, hresult⟩, exists_fault_of_result hresult⟩

/-- A number with an exponent, and a digit of another script behind it. -/
theorem number_grammar_runOn :
    LongestNumeral "1.e-3".toList ['٣'] ((ofText "007 1.e-3٣").after 1).skipGap.rest ∧
      (∃ message span, (ofText "007 1.e-3٣").result 1 = .error (.lexical message span)) ∧
      ∃ error, tokenize "007 1.e-3٣" = .error error := by
  have hlongest : LongestNumeral "1.e-3".toList ['٣']
      ((ofText "007 1.e-3٣").after 1).skipGap.rest := by
    refine ⟨by decide, by decide, fun other hother hprefix => ?_⟩
    rcases List.prefix_concat_iff.1 (show other <+: "1.e-3".toList ++ ['٣'] from hprefix) with
      rfl | hprefix
    · exact absurd hother (by decide +kernel)
    · exact hprefix.length_le
  have hword : ∃ c ∈ ['٣'].head?, continuesWord c = true := ⟨'٣', rfl, by decide +kernel⟩
  exact ⟨hlongest, ((number_grammar "007 1.e-3٣").2.2 1 _ _ hlongest).2 hword⟩

end Lexer

end SqlGrammar
