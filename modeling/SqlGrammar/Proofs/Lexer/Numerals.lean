import SqlGrammar.Proofs.Lexer.Spelling

/-!
# Numerals

The numbers of the language by their grammar, and not by how they are scanned. What a scan takes
for a number is a numeral in front of a character that goes on no word (`scanNumber_numeral`); no
scan stops inside a numeral (`Numeral.prefix_scanNumber`), so that the longest numeral is taken.
-/

set_option autoImplicit false

namespace SqlGrammar.Lexer

open Text

/-! ## The grammar of numbers -/

/-- One or more characters of a class. -/
def IsRun (p : Char → Bool) (cs : List Char) : Prop := cs ≠ [] ∧ ∀ c ∈ cs, p c = true

/-- A point with any number of digits behind it, or nothing. -/
inductive Fraction : List Char → Prop
  | none : Fraction []
  | point {digits : List Char} : (∀ d ∈ digits, d.isDigit = true) → Fraction ('.' :: digits)

/-- Digits with a fraction, or digits behind a point. -/
inductive Mantissa : List Char → Prop
  | digits {digits fraction : List Char} : IsRun Char.isDigit digits → Fraction fraction →
      Mantissa (digits ++ fraction)
  | point {digits : List Char} : IsRun Char.isDigit digits → Mantissa ('.' :: digits)

/-- A mark, a sign that may be missing, and digits, or nothing. -/
inductive Exponent : List Char → Prop
  | none : Exponent []
  | marked {mark : Char} {sign digits : List Char} : mark = 'e' ∨ mark = 'E' →
      sign = [] ∨ sign = ['+'] ∨ sign = ['-'] → IsRun Char.isDigit digits →
      Exponent (mark :: (sign ++ digits))

/-- The characters of a number. -/
inductive Numeral : List Char → Prop
  | hexadecimal {mark : Char} {digits : List Char} : mark = 'x' ∨ mark = 'X' →
      IsRun HexBytes.isDigit digits → Numeral ('0' :: mark :: digits)
  | decimal {mantissa exponent : List Char} : Mantissa mantissa → Exponent exponent →
      Numeral (mantissa ++ exponent)

/-- The longest numeral at the front of some characters, and what stands behind it. -/
structure LongestNumeral (num behind cs : List Char) : Prop where
  numeral : Numeral num
  parts : num ++ behind = cs
  longest : ∀ other, Numeral other → other <+: cs → other.length ≤ num.length

/-- No word goes on at the front of the characters. -/
def EndsWord (cs : List Char) : Prop := ∀ c ∈ cs.head?, continuesWord c = false

/-! ## What is scanned is a numeral -/

section Sound

variable {c : Char} {cs lexeme behind : List Char} {kind : TokenKind}

theorem takeWhile_eq_nil {p : Char → Bool} (h : cs.takeWhile p = []) :
    ∀ c ∈ cs.head?, p c = false := by
  cases cs with
  | nil => simp
  | cons c cs =>
    rintro d ⟨⟩
    rw [Bool.eq_false_iff]
    intro hc
    rw [List.takeWhile_cons_of_pos hc] at h
    cases h

theorem isRun_takeWhile {p : Char → Bool} {d : Char} {ds : List Char}
    (h : cs.takeWhile p = d :: ds) : IsRun p (cs.takeWhile p) :=
  ⟨h ▸ List.cons_ne_nil d ds, forall_takeWhile cs⟩

theorem endsWord_of_endNumber {digits : List Char}
    (h : endNumber digits cs = ⟨.ok kind, lexeme, behind⟩) : lexeme = digits ∧ EndsWord behind := by
  unfold endNumber at h
  split at h
  · next hnone =>
    cases h
    exact ⟨rfl, takeWhile_eq_nil hnone⟩
  · cases h

theorem scanHexNumber_numeral {mark : Char}
    (h : scanHexNumber mark cs = ⟨.ok kind, lexeme, behind⟩) :
    ∃ digits, lexeme = '0' :: mark :: digits ∧ IsRun HexBytes.isDigit digits ∧
      EndsWord behind := by
  unfold scanHexNumber at h
  cases hd : cs.takeWhile HexBytes.isDigit with
  | nil => simp [hd] at h
  | cons d ds =>
    rw [hd] at h
    obtain ⟨rfl, hend⟩ := endsWord_of_endNumber h
    exact ⟨d :: ds, rfl, hd ▸ isRun_takeWhile hd, hend⟩

theorem splitSign_cases (cs : List Char) :
    (splitSign cs).1 = [] ∨ (splitSign cs).1 = ['+'] ∨ (splitSign cs).1 = ['-'] := by
  fun_cases splitSign cs <;> simp

theorem scanExponent_numeral {mantissa : List Char}
    (h : scanExponent mantissa cs = ⟨.ok kind, lexeme, behind⟩) :
    ∃ exponent, lexeme = mantissa ++ exponent ∧ Exponent exponent ∧ EndsWord behind := by
  -- without an exponent the number ends with its mantissa
  have hnone : ∀ cs, endNumber mantissa cs = ⟨.ok kind, lexeme, behind⟩ →
      ∃ exponent, lexeme = mantissa ++ exponent ∧ Exponent exponent ∧ EndsWord behind := by
    intro cs h
    obtain ⟨rfl, hend⟩ := endsWord_of_endNumber h
    exact ⟨[], (List.append_nil _).symm, .none, hend⟩
  unfold scanExponent at h
  split at h
  · next mark cs =>
    split at h
    · next hmark =>
      dsimp only at h
      cases hd : (splitSign cs).2.takeWhile Char.isDigit with
      | nil => simp [hd] at h
      | cons d ds =>
        rw [hd] at h
        obtain ⟨rfl, hend⟩ := endsWord_of_endNumber h
        exact ⟨mark :: ((splitSign cs).1 ++ d :: ds), by simp,
          .marked hmark (splitSign_cases cs) (hd ▸ isRun_takeWhile hd), hend⟩
    · exact hnone _ h
  · exact hnone _ h

theorem splitFraction_fraction (cs : List Char) : Fraction (splitFraction cs).1 := by
  fun_cases splitFraction cs with
  | case1 cs => exact .point (forall_takeWhile cs)
  | case2 => exact .none

/-- What starts like a number has digits before its point or behind it. -/
theorem mantissa_of_startsNumber (h : startsNumber c cs = true) :
    Mantissa ((c :: cs).takeWhile Char.isDigit ++
      (splitFraction ((c :: cs).dropWhile Char.isDigit)).1) := by
  cases hc : c.isDigit with
  | true =>
    exact .digits (isRun_takeWhile (List.takeWhile_cons_of_pos hc)) (splitFraction_fraction _)
  | false =>
    simp only [startsNumber, hc, Bool.false_or, Bool.and_eq_true, beq_iff_eq] at h
    obtain ⟨rfl, hany⟩ := h
    cases cs with
    | nil => cases hany
    | cons d cs => exact .point (isRun_takeWhile (List.takeWhile_cons_of_pos hany))

theorem scanDecimal_numeral (hstart : startsNumber c cs = true)
    (h : scanDecimal (c :: cs) = ⟨.ok kind, lexeme, behind⟩) :
    Numeral lexeme ∧ EndsWord behind := by
  obtain ⟨exponent, rfl, hexponent, hend⟩ := scanExponent_numeral h
  exact ⟨.decimal (mantissa_of_startsNumber hstart) hexponent, hend⟩

/-- What a scan takes for a number is a numeral, and no word goes on behind it. -/
theorem scanNumber_numeral (hstart : startsNumber c cs = true)
    (h : scanNumber (c :: cs) = ⟨.ok kind, lexeme, behind⟩) : Numeral lexeme ∧ EndsWord behind := by
  unfold scanNumber at h
  split at h
  · obtain ⟨digits, rfl, hdigits, hend⟩ := scanHexNumber_numeral h
    exact ⟨.hexadecimal (.inl rfl) hdigits, hend⟩
  · obtain ⟨digits, rfl, hdigits, hend⟩ := scanHexNumber_numeral h
    exact ⟨.hexadecimal (.inr rfl) hdigits, hend⟩
  · exact scanDecimal_numeral hstart h

end Sound

/-! ## Numerals are scanned -/

section Complete

variable {mantissa exponent num rest : List Char}

/-- A mantissa is any number of digits and a fraction. -/
theorem Mantissa.exists_parts (h : Mantissa mantissa) :
    ∃ digits fraction, mantissa = digits ++ fraction ∧ (∀ d ∈ digits, d.isDigit = true) ∧
      Fraction fraction := by
  cases h with
  | digits hdigits hfraction => exact ⟨_, _, rfl, hdigits.2, hfraction⟩
  | point hdigits => exact ⟨[], _, rfl, nofun, .point hdigits.2⟩

theorem endNumber_of_endsWord (h : EndsWord rest) (digits : List Char) :
    endNumber digits rest = ⟨.ok (.number (String.ofList digits)), digits, rest⟩ := by
  have hstop : rest.takeWhile continuesWord = [] := by
    cases rest with
    | nil => rfl
    | cons c rest => exact List.takeWhile_cons_of_neg (by simp [h c rfl])
  rw [endNumber, hstop]

/-- An exponent is scanned with all the digits that follow. -/
theorem scanExponent_marked {mark : Char} {sign digits : List Char}
    (hmark : mark = 'e' ∨ mark = 'E') (hsign : sign = [] ∨ sign = ['+'] ∨ sign = ['-'])
    (hdigits : IsRun Char.isDigit digits) (mantissa rest : List Char) :
    scanExponent mantissa (mark :: (sign ++ (digits ++ rest))) =
      endNumber (mantissa ++ mark :: (sign ++ (digits ++ rest.takeWhile Char.isDigit)))
        (rest.dropWhile Char.isDigit) := by
  obtain ⟨d, ds, rfl⟩ := List.exists_cons_of_ne_nil hdigits.1
  have hsplit : splitSign (sign ++ (d :: ds ++ rest)) = (sign, d :: ds ++ rest) := by
    have hd := hdigits.2 d List.mem_cons_self
    have hplus : d ≠ '+' := by rintro rfl; cases hd
    have hminus : d ≠ '-' := by rintro rfl; cases hd
    rcases hsign with rfl | rfl | rfl
    · simp [splitSign, hplus, hminus]
    · rfl
    · rfl
  simp only [scanExponent, hmark, if_true, hsplit, List.takeWhile_append_of_pos hdigits.2,
    List.dropWhile_append_of_pos hdigits.2]
  simp

/-- A mantissa is scanned as one in front of what does not go on with it. -/
theorem scanDecimal_mantissa {digits fraction tail : List Char}
    (hdigits : ∀ d ∈ digits, d.isDigit = true) (hfraction : Fraction fraction)
    (hdigit : ∀ c ∈ tail.head?, c.isDigit = false)
    (hpoint : fraction = [] → ∀ c ∈ tail.head?, c ≠ '.') :
    scanDecimal (digits ++ (fraction ++ tail)) = scanExponent (digits ++ fraction) tail := by
  cases hfraction with
  | none =>
    obtain ⟨htake, hdrop⟩ := span_append hdigits hdigit
    have hsplit := splitFraction_append (hpoint rfl) hdigit []
    rw [List.nil_append] at hsplit
    rw [scanDecimal, List.nil_append, htake, hdrop, hsplit]
    rfl
  | @point behind hbehind =>
    have hstop : ∀ c ∈ ('.' :: (behind ++ tail)).head?, c.isDigit = false := by
      rintro c ⟨⟩
      rfl
    obtain ⟨htake, hdrop⟩ := span_append hdigits hstop
    obtain ⟨htake', hdrop'⟩ := span_append hbehind hdigit
    rw [scanDecimal, List.cons_append, htake, hdrop, splitFraction, htake', hdrop']

/-- A mantissa with an exponent is scanned with all the digits that follow. -/
theorem scanDecimal_marked {digits fraction sign digits' : List Char} {mark : Char}
    (hdigits : ∀ d ∈ digits, d.isDigit = true) (hfraction : Fraction fraction)
    (hmark : mark = 'e' ∨ mark = 'E') (hsign : sign = [] ∨ sign = ['+'] ∨ sign = ['-'])
    (hdigits' : IsRun Char.isDigit digits') (rest : List Char) :
    scanDecimal (digits ++ (fraction ++ mark :: (sign ++ (digits' ++ rest)))) =
      endNumber (digits ++ fraction ++
          mark :: (sign ++ (digits' ++ rest.takeWhile Char.isDigit)))
        (rest.dropWhile Char.isDigit) := by
  have hne : mark.isDigit = false ∧ mark ≠ '.' := by rcases hmark with rfl | rfl <;> decide
  have hhead : ∀ c ∈ (mark :: (sign ++ (digits' ++ rest))).head?, c = mark := by
    rintro c ⟨⟩
    rfl
  rw [scanDecimal_mantissa hdigits hfraction (fun c hc => hhead c hc ▸ hne.1)
    (fun _ c hc => hhead c hc ▸ hne.2), scanExponent_marked hmark hsign hdigits']

/-! The mark of a hexadecimal number is a character of no other number. -/

theorem ne_hexMark_of_isDigit {c : Char} (h : c.isDigit = true) : c ≠ 'x' ∧ c ≠ 'X' := by
  constructor <;> rintro rfl <;> cases h

theorem Mantissa.ne_hexMark (h : Mantissa mantissa) :
    ∀ c ∈ mantissa, c ≠ 'x' ∧ c ≠ 'X' := by
  obtain ⟨digits, fraction, rfl, hdigits, hfraction⟩ := h.exists_parts
  refine List.forall_mem_append.2 ⟨fun c hc => ne_hexMark_of_isDigit (hdigits c hc), ?_⟩
  cases hfraction with
  | none => nofun
  | point hdigits =>
    exact List.forall_mem_cons.2 ⟨by decide, fun c hc => ne_hexMark_of_isDigit (hdigits c hc)⟩

theorem Exponent.ne_hexMark (h : Exponent exponent) :
    ∀ c ∈ exponent, c ≠ 'x' ∧ c ≠ 'X' := by
  cases h with
  | none => nofun
  | marked hmark hsign hdigits =>
    refine List.forall_mem_cons.2 ⟨?_, List.forall_mem_append.2
      ⟨?_, fun c hc => ne_hexMark_of_isDigit (hdigits.2 c hc)⟩⟩
    · rcases hmark with rfl | rfl <;> decide
    · rcases hsign with rfl | rfl | rfl <;> simp

theorem hexMark_not_mem {mark : Char} (hmark : mark = 'x' ∨ mark = 'X') (hm : Mantissa mantissa)
    (he : Exponent exponent) : mark ∉ mantissa ++ exponent := by
  intro hmem
  have hne := List.forall_mem_append.2 ⟨hm.ne_hexMark, he.ne_hexMark⟩ mark hmem
  rcases hmark with rfl | rfl
  · exact hne.1 rfl
  · exact hne.2 rfl

theorem Mantissa.ne_nil (h : Mantissa mantissa) : mantissa ≠ [] := by
  cases h with
  | digits hdigits _ => exact List.append_ne_nil_of_left_ne_nil hdigits.1 _
  | point _ => exact List.cons_ne_nil _ _

theorem scanNumber_hex {mark : Char} (h : mark = 'x' ∨ mark = 'X') (cs : List Char) :
    scanNumber ('0' :: mark :: cs) = scanHexNumber mark cs := by
  rcases h with rfl | rfl <;> rfl

theorem scanNumber_of_not_hex {cs : List Char} (hx : ∀ ds, cs ≠ '0' :: 'x' :: ds)
    (hX : ∀ ds, cs ≠ '0' :: 'X' :: ds) : scanNumber cs = scanDecimal cs := by
  unfold scanNumber
  split
  · next ds => exact absurd rfl (hx ds)
  · next ds => exact absurd rfl (hX ds)
  · rfl

/-- No class of word characters goes on where no word does. -/
theorem EndsWord.stops (h : EndsWord rest) {p : Char → Bool}
    (hp : ∀ c, p c = true → continuesWord c = true) : ∀ c ∈ rest.head?, p c = false := by
  intro c hc
  rw [Bool.eq_false_iff]
  exact fun hpc => Bool.eq_false_iff.1 (h c hc) (hp c hpc)

/-- Without the mark of an exponent the number ends with its mantissa. -/
theorem scanExponent_of_endsWord (h : EndsWord rest) (mantissa : List Char) :
    scanExponent mantissa rest = endNumber mantissa rest := by
  cases rest with
  | nil => rfl
  | cons c rest =>
    have hmark : ¬ (c = 'e' ∨ c = 'E') := by
      rintro (rfl | rfl) <;> exact absurd (h _ rfl) (by decide)
    rw [scanExponent, if_neg hmark]

/-- A decimal number is scanned as one in front of what goes on no word and is no point of it. -/
theorem scanNumber_decimal (hm : Mantissa mantissa) (he : Exponent exponent) (hend : EndsWord rest)
    (hpoint : rest.head? = some '.' → ¬ Numeral (mantissa ++ exponent ++ ['.'])) :
    scanNumber (mantissa ++ exponent ++ rest) = endNumber (mantissa ++ exponent) rest := by
  have hnot : ∀ mark, mark = 'x' ∨ mark = 'X' →
      ∀ ds, mantissa ++ exponent ++ rest ≠ '0' :: mark :: ds := by
    intro mark hmark ds hds
    have hword : continuesWord mark = true := by rcases hmark with rfl | rfl <;> decide
    obtain ⟨tail, htail⟩ := eq_cons_of_append_eq hword hend
      (List.append_ne_nil_of_left_ne_nil hm.ne_nil exponent) hds
    exact hexMark_not_mem hmark hm he (htail ▸ by simp)
  rw [scanNumber_of_not_hex (hnot 'x' (.inl rfl)) (hnot 'X' (.inr rfl))]
  have hdigit := hend.stops fun c => continuesWord_of_isDigit
  obtain ⟨digits, fraction, rfl, hdigits, hfraction⟩ := hm.exists_parts
  simp only [List.append_assoc]
  cases he with
  | none =>
    have hfirst : fraction = [] → ∀ c ∈ rest.head?, c ≠ '.' := by
      rintro rfl c hc rfl
      rw [List.append_nil] at hm hpoint
      have hlonger : Numeral (digits ++ ['.'] ++ []) :=
        .decimal (.digits ⟨hm.ne_nil, hdigits⟩ (.point nofun)) .none
      exact hpoint hc (by simpa using hlonger)
    rw [List.nil_append, scanDecimal_mantissa hdigits hfraction hdigit hfirst,
      scanExponent_of_endsWord hend, List.append_nil]
  | @marked mark sign digits' hmark hsign hdigits' =>
    have htake := takeWhile_append_stop hdigit []
    have hdrop := dropWhile_append_stop hdigit []
    rw [List.nil_append] at htake hdrop
    rw [List.cons_append, List.append_assoc,
      scanDecimal_marked hdigits hfraction hmark hsign hdigits', htake, hdrop]
    simp

/-- A numeral is scanned as a number in front of what goes on no word and is no point of it. -/
theorem Numeral.scanNumber_append (h : Numeral num) (hend : EndsWord rest)
    (hpoint : rest.head? = some '.' → ¬ Numeral (num ++ ['.'])) :
    scanNumber (num ++ rest) = ⟨.ok (.number (String.ofList num)), num, rest⟩ := by
  rw [← endNumber_of_endsWord hend]
  cases h with
  | hexadecimal hmark hdigits =>
    obtain ⟨htake, hdrop⟩ := span_append hdigits.2 (hend.stops fun c => continuesWord_of_hexDigit)
    obtain ⟨d, ds, rfl⟩ := List.exists_cons_of_ne_nil hdigits.1
    rw [List.cons_append, List.cons_append, scanNumber_hex hmark, scanHexNumber, htake, hdrop]
  | decimal hm he => exact scanNumber_decimal hm he hend hpoint

/-! ## No scan stops inside a numeral -/

theorem prefix_endNumber (digits rest : List Char) : digits <+: (endNumber digits rest).lexeme := by
  unfold endNumber
  split
  · exact List.prefix_rfl
  · exact List.prefix_append _ _

theorem prefix_scanExponent (mantissa rest : List Char) :
    mantissa <+: (scanExponent mantissa rest).lexeme := by
  unfold scanExponent
  split
  · split
    · dsimp only
      split
      · exact List.prefix_append _ _
      · rw [List.append_assoc]
        exact (List.prefix_append _ _).trans (prefix_endNumber _ _)
    · exact prefix_endNumber _ _
  · exact prefix_endNumber _ _

theorem prefix_scanHexNumber (mark : Char) (rest : List Char) :
    ['0', mark] <+: (scanHexNumber mark rest).lexeme := by
  unfold scanHexNumber
  split
  · exact List.prefix_rfl
  · exact (List.prefix_append ['0', mark] _).trans (prefix_endNumber _ _)

/-- Digits and a fraction belong to the mantissa that is scanned. -/
theorem prefix_scanDecimal_mantissa {digits fraction : List Char}
    (hdigits : ∀ d ∈ digits, d.isDigit = true) (hfraction : Fraction fraction)
    (rest : List Char) :
    digits ++ fraction <+: (scanDecimal (digits ++ (fraction ++ rest))).lexeme := by
  refine List.IsPrefix.trans ?_ (prefix_scanExponent _ _)
  rw [List.takeWhile_append_of_pos hdigits, List.dropWhile_append_of_pos hdigits, List.append_assoc]
  cases hfraction with
  | none => exact (List.prefix_append_right_inj digits).2 (List.nil_prefix)
  | @point behind hbehind =>
    -- the point ends the digits and starts the fraction
    change digits ++ '.' :: behind <+: digits ++ '.' :: (behind ++ rest).takeWhile Char.isDigit
    rw [List.takeWhile_append_of_pos hbehind, ← List.cons_append, ← List.append_assoc]
    exact List.prefix_append _ _

theorem prefix_scanDecimal (hm : Mantissa mantissa) (he : Exponent exponent) (rest : List Char) :
    mantissa ++ exponent <+: (scanDecimal (mantissa ++ exponent ++ rest)).lexeme := by
  obtain ⟨digits, fraction, rfl, hdigits, hfraction⟩ := hm.exists_parts
  cases he with
  | none =>
    rw [List.append_nil, List.append_assoc]
    exact prefix_scanDecimal_mantissa hdigits hfraction rest
  | @marked mark sign digits' hmark hsign hdigits' =>
    have hcs : digits ++ fraction ++ mark :: (sign ++ digits') ++ rest =
        digits ++ (fraction ++ mark :: (sign ++ (digits' ++ rest))) := by
      simp
    rw [hcs, scanDecimal_marked hdigits hfraction hmark hsign hdigits']
    exact List.IsPrefix.trans ⟨rest.takeWhile Char.isDigit, by simp⟩ (prefix_endNumber _ _)

/-- Characters that end before the second one of a text are its first one, if they are any. -/
theorem prefix_of_not_mem {a b : Char} {cs : List Char} (h : num ++ rest = a :: b :: cs)
    (hb : b ∉ num) : num <+: [a, b] := by
  rcases num with _ | ⟨c, _ | ⟨d, num⟩⟩
  · exact List.nil_prefix
  · obtain rfl : c = a := (List.cons.inj h).1
    exact List.prefix_append [c] [b]
  · obtain rfl : d = b := (List.cons.inj (List.cons.inj h).2).1
    exact absurd (List.mem_cons_of_mem c List.mem_cons_self) hb

/-- A numeral at the front of some characters is part of the number that is scanned there. -/
theorem Numeral.prefix_scanNumber (h : Numeral num) (rest : List Char) :
    num <+: (scanNumber (num ++ rest)).lexeme := by
  cases h with
  | @hexadecimal mark digits hmark hdigits =>
    obtain ⟨d, ds, rfl⟩ := List.exists_cons_of_ne_nil hdigits.1
    rw [List.cons_append, List.cons_append, scanNumber_hex hmark, scanHexNumber,
      List.takeWhile_append_of_pos hdigits.2]
    exact List.IsPrefix.trans ⟨rest.takeWhile HexBytes.isDigit, rfl⟩ (prefix_endNumber _ _)
  | decimal hm he =>
    unfold scanNumber
    split
    -- of a zero in front of the mark of a hexadecimal number only the zero is a numeral
    · next ds hds =>
      exact (prefix_of_not_mem hds (hexMark_not_mem (.inl rfl) hm he)).trans
        (prefix_scanHexNumber 'x' ds)
    · next ds hds =>
      exact (prefix_of_not_mem hds (hexMark_not_mem (.inr rfl) hm he)).trans
        (prefix_scanHexNumber 'X' ds)
    · exact prefix_scanDecimal hm he rest

end Complete

/-! ## The longest numeral -/

section Longest

variable {c : Char} {num behind cs : List Char}

theorem Numeral.startsNumber_append (h : Numeral (c :: num)) (rest : List Char) :
    startsNumber c (num ++ rest) = true := by
  generalize hcs : c :: num = whole at h
  cases h with
  | hexadecimal _ _ =>
    cases hcs
    rfl
  | decimal hm he =>
    cases hm with
    | digits hdigits _ =>
      obtain ⟨d, ds, rfl⟩ := List.exists_cons_of_ne_nil hdigits.1
      cases hcs
      rw [startsNumber, hdigits.2 c List.mem_cons_self, Bool.true_or]
    | point hdigits =>
      obtain ⟨d, ds, rfl⟩ := List.exists_cons_of_ne_nil hdigits.1
      cases hcs
      exact hdigits.2 d List.mem_cons_self

theorem Numeral.ne_nil (h : Numeral num) : num ≠ [] := by
  cases h with
  | hexadecimal _ _ => exact List.cons_ne_nil _ _
  | decimal hm _ => exact List.append_ne_nil_of_left_ne_nil hm.ne_nil _

theorem LongestNumeral.startsNumber (h : LongestNumeral num behind (c :: cs)) :
    startsNumber c cs = true := by
  obtain ⟨d, ds, rfl⟩ := List.exists_cons_of_ne_nil h.numeral.ne_nil
  obtain ⟨rfl, rfl⟩ := List.cons.inj h.parts
  exact h.numeral.startsNumber_append behind

theorem LongestNumeral.scan_eq (h : LongestNumeral num behind (c :: cs)) :
    scan c cs = scanNumber (num ++ behind) := by
  rw [h.parts]
  exact scan_number h.startsNumber

/-- The longest numeral is scanned as a number if no word goes on behind it. -/
theorem LongestNumeral.scan_ok (h : LongestNumeral num behind (c :: cs)) (hend : EndsWord behind) :
    scan c cs = ⟨.ok (.number (String.ofList num)), num, behind⟩ := by
  rw [h.scan_eq]
  refine h.numeral.scanNumber_append hend fun hpoint hlonger => ?_
  -- with a point behind it the numeral would not be the longest one
  obtain ⟨tail, rfl⟩ : ∃ tail, behind = '.' :: tail := List.head?_eq_some_iff.1 hpoint
  have hle := h.longest _ hlonger ⟨tail, by rw [← h.parts, List.append_assoc]; rfl⟩
  rw [List.length_append] at hle
  exact Nat.not_succ_le_self _ hle

theorem LongestNumeral.unique {num' behind' : List Char} (h : LongestNumeral num behind cs)
    (h' : LongestNumeral num' behind' cs) : num = num' ∧ behind = behind' := by
  have hprefix : num <+: cs := ⟨behind, h.parts⟩
  have hprefix' : num' <+: cs := ⟨behind', h'.parts⟩
  have hle := h'.longest num h.numeral hprefix
  have hsame : num = num' := (List.prefix_of_prefix_length_le hprefix hprefix' hle).eq_of_length
    (Nat.le_antisymm hle (h.longest num' h'.numeral hprefix'))
  subst hsame
  exact ⟨rfl, List.append_cancel_left (h.parts.trans h'.parts.symm)⟩

/-- What is scanned as a number is the longest numeral, and no word goes on behind it. -/
theorem longestNumeral_of_scanNumber {lexeme : List Char} {kind : TokenKind}
    (hstart : startsNumber c cs = true) (h : scanNumber (c :: cs) = ⟨.ok kind, lexeme, behind⟩) :
    LongestNumeral lexeme behind (c :: cs) ∧ EndsWord behind := by
  obtain ⟨hnumeral, hend⟩ := scanNumber_numeral hstart h
  have hsplits := scanNumber_splits (c :: cs)
  rw [h] at hsplits
  refine ⟨⟨hnumeral, hsplits, fun other hother hprefix => ?_⟩, hend⟩
  obtain ⟨rest, hrest⟩ := hprefix
  have hscanned := hother.prefix_scanNumber rest
  rw [hrest, h] at hscanned
  exact hscanned.length_le

/-- The longest numeral is a fault if a word goes on behind it. -/
theorem LongestNumeral.scan_error (h : LongestNumeral num behind (c :: cs))
    (hend : ¬ EndsWord behind) : ∃ fault, (scan c cs).verdict = .error fault := by
  rcases hscan : scan c cs with ⟨verdict, lexeme, rest⟩
  cases verdict with
  | error fault => exact ⟨fault, rfl⟩
  | ok kind =>
    have hnumber := h.scan_eq.symm.trans hscan
    rw [h.parts] at hnumber
    obtain ⟨hlongest, hends⟩ := longestNumeral_of_scanNumber h.startsNumber hnumber
    obtain ⟨-, rfl⟩ := h.unique hlongest
    exact absurd hends hend

end Longest

end SqlGrammar.Lexer
