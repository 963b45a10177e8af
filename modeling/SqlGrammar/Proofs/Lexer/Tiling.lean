import SqlGrammar.Proofs.Lexer.Skipped
import SqlGrammar.Proofs.Lexer.Spelling

/-!
# The lexer tiles its text

Calls of the lexer one after the other cut a text into gaps and tokens, also behind faults. Each
call starts where the one before it has stopped; it skips a gap, and reports what stands behind it
with the place where it stands, or the end of the text (`Reports`). Every call but those at the end
gets on, so the end is reported after as many calls as the text has characters, and from then on
(`calls_tile`).
-/

set_option autoImplicit false

namespace SqlGrammar

/-! ## Bytes and characters -/

theorem utf8Length_append (cs ds : List Char) :
    utf8Length (cs ++ ds) = utf8Length cs + utf8Length ds := by
  induction cs with
  | nil => exact (Nat.zero_add _).symm
  | cons c cs ih => rw [List.cons_append, utf8Length, utf8Length, ih, Nat.add_assoc]

theorem utf8ByteSize_ofList (cs : List Char) : (String.ofList cs).utf8ByteSize = utf8Length cs := by
  induction cs with
  | nil => rfl
  | cons c cs ih =>
    rw [String.ofList_cons, String.utf8ByteSize_append, String.utf8ByteSize_singleton, ih]
    rfl

/-- The span cuts a slice out of a text: it starts and stops between characters, at byte offsets of
the text, and the slice is what stands between them. -/
def Span.Cuts (span : Span) (text slice : String) : Prop :=
  ∃ before after, text = before ++ slice ++ after ∧ span.start = before.utf8ByteSize ∧
    span.stop = (before ++ slice).utf8ByteSize

/-- What stands between the quotes of a blob at the span: a slice of the text, made of digits. -/
def Span.HoldsDigits (span : Span) (text : String) : Prop :=
  ∃ digits, (Span.mk (span.start + 2) (span.stop - 1)).Cuts text digits ∧
    ∀ d ∈ digits.toList, Text.HexBytes.isDigit d = true

namespace Lexer

/-! ## Calls -/

/-- The place after a number of calls, whether they give tokens or faults. -/
def after : Nat → Lexer → Lexer
  | 0, l => l
  | n + 1, l => after n l.next.2

/-- What the call after a number of calls reports. -/
def result (n : Nat) (l : Lexer) : Except ParseError Token := (l.after n).next.1

theorem after_add (n m : Nat) : ∀ l : Lexer, l.after (n + m) = (l.after n).after m := by
  induction n with
  | zero =>
    intro l
    rw [Nat.zero_add, after]
  | succ n ih =>
    intro l
    rw [Nat.add_right_comm]
    exact ih l.next.2

theorem after_succ (n : Nat) (l : Lexer) : l.after (n + 1) = (l.after n).next.2 :=
  after_add n 1 l

/-- What a call may report that starts at an offset of a text, and the offset where it stops: a
token or a fault behind a gap, with characters of its own, or the end of the text. A blob that is
closed holds digits, also if one of them is left over. -/
inductive Reports (text : String) (start : Nat) : Except ParseError Token → Nat → Prop
  | token {gap lexeme : String} {kind : TokenKind} {span : Span} :
      (Span.mk start span.start).Cuts text gap → Skipped false gap.toList →
        span.Cuts text lexeme → span.start < span.stop → kind ≠ .eof →
        (∀ bytes, kind = .blob bytes → span.HoldsDigits text) →
        Reports text start (.ok ⟨kind, lexeme, span⟩) span.stop
  | fault {gap lexeme message : String} {span : Span} :
      (Span.mk start span.start).Cuts text gap → Skipped false gap.toList →
        span.Cuts text lexeme → span.start < span.stop →
        (message = Fault.oddBlobDigits.message → span.HoldsDigits text) →
        Reports text start (.error (.lexical message span)) span.stop
  | eof {gap : String} :
      (Span.mk start text.utf8ByteSize).Cuts text gap → Skipped true gap.toList →
        Reports text start (.ok (.eof text.utf8ByteSize)) text.utf8ByteSize

/-! ## One call -/

/-- The place is one in the text: what is ahead is what stands behind its offset. -/
def On (text : String) (l : Lexer) : Prop :=
  ∃ before, text = before ++ String.ofList l.rest ∧ l.offset = before.utf8ByteSize

theorem on_ofText (text : String) : (ofText text).On text :=
  ⟨"", by rw [ofText, String.ofList_toList, String.empty_append], rfl⟩

/-- Characters that `advance` uses up are cut out of the text. -/
theorem On.advance {text : String} {l : Lexer} {used behind : List Char} (h : l.On text)
    (hrest : l.rest = used ++ behind) :
    (Lexer.mk (l.offset + utf8Length used) behind).On text ∧
      (Span.mk l.offset (l.offset + utf8Length used)).Cuts text (String.ofList used) := by
  obtain ⟨before, rfl, hoffset⟩ := h
  have htext : before ++ String.ofList l.rest =
      before ++ String.ofList used ++ String.ofList behind := by
    rw [hrest, String.ofList_append, String.append_assoc]
  have hsize : l.offset + utf8Length used = (before ++ String.ofList used).utf8ByteSize := by
    rw [String.utf8ByteSize_append, utf8ByteSize_ofList, hoffset]
  exact ⟨⟨_, htext, hsize⟩, before, _, htext, hoffset, hsize⟩

/-- With nothing ahead, the offset is the length of the text. -/
theorem On.offset_eq {text : String} {l : Lexer} (h : l.On text) (hrest : l.rest = []) :
    l.offset = text.utf8ByteSize := by
  obtain ⟨before, rfl, hoffset⟩ := h
  rw [hrest, String.ofList_nil, String.append_empty, hoffset]

theorem utf8Length_pos {cs : List Char} (h : cs ≠ []) : 0 < utf8Length cs := by
  cases cs with
  | nil => exact absurd rfl h
  | cons c cs => exact Nat.add_pos_left c.utf8Size_pos _

/-- Where a blob stands ahead, its digits are a slice of the text. -/
theorem On.holdsDigits {text : String} {l : Lexer} {marker : Char} {digits behind : List Char}
    (h : l.On text) (hrest : l.rest = marker :: '\'' :: (digits ++ ['\'']) ++ behind)
    (hmarker : marker = 'x' ∨ marker = 'X')
    (hdigits : ∀ d ∈ digits, Text.HexBytes.isDigit d = true) :
    (Span.mk l.offset
      (l.offset + utf8Length (marker :: '\'' :: (digits ++ ['\''])))).HoldsDigits text := by
  have hopened : l.rest = [marker, '\''] ++ (digits ++ '\'' :: behind) := by simp [hrest]
  obtain ⟨-, hcuts⟩ := On.advance (h.advance hopened).1 rfl
  have hsize : utf8Length [marker, '\''] = 2 := by
    rcases hmarker with rfl | rfl <;> rfl
  -- the marker and the quotes are one byte each
  have hstop : l.offset + utf8Length (marker :: '\'' :: (digits ++ ['\''])) - 1 =
      l.offset + 2 + utf8Length digits := by
    have happend : utf8Length (marker :: '\'' :: (digits ++ ['\''])) =
        utf8Length [marker, '\''] + (utf8Length digits + utf8Length ['\'']) := by
      rw [← utf8Length_append, ← utf8Length_append]
      rfl
    have hquote : utf8Length ['\''] = 1 := rfl
    omega
  rw [hsize, ← hstop] at hcuts
  exact ⟨String.ofList digits, hcuts, by rwa [String.toList_ofList]⟩

/-- A text starts with the first character of its first part. -/
theorem head?_toList_append {s : String} {c : Char} (h : s.toList.head? = some c) (t : String) :
    (s ++ t).toList.head? = some c := by
  rw [String.toList_append, List.head?_append, h, Option.some_or]

/-- The message about a digit that is left over is that of no other fault. -/
theorem Fault.eq_oddBlobDigits {fault : Fault} (h : fault.message = Fault.oddBlobDigits.message) :
    fault = .oddBlobDigits := by
  have hfirst : fault.message.toList.head? = some 'o' := by
    rw [h]
    decide
  have hunexpected : ("unexpected character '" : String).toList.head? = some 'u' := by
    decide
  have hnameless : ("parameter name expected after '" : String).toList.head? = some 'p' := by
    decide
  cases fault with
  | oddBlobDigits => rfl
  | unexpectedChar c =>
    have hother := head?_toList_append (head?_toList_append hunexpected c.toString) "'"
    exact absurd (Option.some.inj (hother.symm.trans hfirst)) (by decide)
  | namelessParameter sigil =>
    have hother := head?_toList_append (head?_toList_append hnameless sigil.toString) "'"
    exact absurd (Option.some.inj (hother.symm.trans hfirst)) (by decide)
  | _ => exact absurd hfirst (by decide)

/-- One call of `next` reports what `Reports` asks for, and stops at a place in the text. -/
theorem On.next {text : String} {l : Lexer} (h : l.On text) :
    Reports text l.offset l.next.1 l.next.2.offset ∧ l.next.2.On text := by
  obtain ⟨hon, hgap⟩ := h.advance (splitGap_append .between l.rest).symm
  have hskipped := skipped_splitGap l.rest
  rw [← @String.toList_ofList (splitGap .between l.rest).1] at hskipped
  cases hrest : (splitGap .between l.rest).2 with
  | nil =>
    have hend : l.skipGap.offset = text.utf8ByteSize := hon.offset_eq hrest
    rw [hrest] at hskipped
    rw [next_of_gap hrest]
    refine ⟨?_, hon⟩
    rw [hend]
    exact .eof (hend ▸ hgap) hskipped
  | cons c rest =>
    rw [hrest] at hskipped
    rcases hscan : scan c rest with ⟨verdict, lexeme, behind⟩
    have hproper := scan_proper c rest
    have hsplit := scan_splits c rest
    have hfinding := finding_of_scan hscan
    rw [next_of_scan hrest, hscan]
    rw [hscan] at hproper hsplit
    -- the scan uses a first part of what stands behind the gap
    have hahead : l.skipGap.rest = lexeme ++ behind := hrest.trans hsplit.symm
    obtain ⟨hon', hlexeme⟩ := On.advance hon hahead
    have hlt := Nat.lt_add_of_pos_right (n := l.skipGap.offset) (utf8Length_pos hproper.1)
    refine ⟨?_, hon'⟩
    cases verdict with
    | ok kind =>
      -- of all tokens only a blob has something more to show
      refine .token hgap hskipped hlexeme hlt (fun heof => hproper.2 (congrArg _ heof)) ?_
      rintro bytes rfl
      cases hfinding with
      | blob hmarker hdigits _ => exact hon.holdsDigits hahead hmarker hdigits
    | error fault =>
      refine .fault hgap hskipped hlexeme hlt fun hmessage => ?_
      have hodd := Fault.eq_oddBlobDigits hmessage
      cases hfinding with
      | oddBlob hmarker hdigits => exact hon.holdsDigits hahead hmarker hdigits
      | fault hne => exact absurd hodd hne

/-! ## Many calls -/

theorem on_after (text : String) (n : Nat) : ((ofText text).after n).On text := by
  induction n with
  | zero => exact on_ofText text
  | succ n ih =>
    rw [after_succ]
    exact ih.next.2

/-- With nothing ahead, a call reports the end and stays where it is. -/
theorem next_of_nil {l : Lexer} (h : l.rest = []) : l.next = (.ok (.eof l.offset), l) := by
  obtain ⟨offset, rest⟩ := l
  subst h
  rfl

theorem after_of_nil {l : Lexer} (h : l.rest = []) (n : Nat) : l.after n = l := by
  induction n with
  | zero => rfl
  | succ n ih => rw [after_succ, ih, next_of_nil h]

/-- A call that reports the end has nothing ahead but a gap; any other call uses characters. -/
theorem next_cases (l : Lexer) :
    (∃ offset, l.next = (.ok (.eof offset), ⟨offset, []⟩)) ∨
      (∀ t, l.next.1 = .ok t → t.kind ≠ .eof) ∧ l.next.2.rest.length < l.rest.length := by
  cases hrest : (splitGap .between l.rest).2 with
  | nil =>
    have hnil : l.skipGap = ⟨l.skipGap.offset, []⟩ := congrArg (Lexer.mk l.skipGap.offset) hrest
    exact .inl ⟨l.skipGap.offset, (next_of_gap hrest).trans (congrArg _ hnil)⟩
  | cons c rest =>
    refine .inr ?_
    rw [next_of_scan hrest]
    constructor
    · intro t ht heof
      have hkind := (scan_proper c rest).2
      unfold report at ht
      cases hverdict : (scan c rest).verdict with
      | error fault =>
        rw [hverdict] at ht
        cases ht
      | ok kind =>
        rw [hverdict] at ht hkind
        cases ht
        exact hkind (congrArg _ heof)
    · have hlt := length_scan_rest_lt c rest
      have hle := length_splitGap_le l.rest
      rw [hrest] at hle
      exact Nat.lt_of_lt_of_le hlt hle

/-- The end of the text is reported again and again. -/
theorem result_of_eof {l : Lexer} {t : Token} (h : l.next.1 = .ok t) (hkind : t.kind = .eof)
    (n : Nat) : l.result n = .ok t := by
  obtain ⟨offset, hnext⟩ | ⟨hother, -⟩ := next_cases l
  · rw [hnext] at h
    -- the call has left nothing ahead, and the calls behind it stay there
    cases n with
    | zero => rw [← h, result, after, hnext]
    | succ n =>
      rw [← h, result, after, hnext, after_of_nil rfl, next_of_nil rfl]
  · exact absurd hkind (hother t h)

/-- The end is reported after no more calls than there are characters ahead. -/
theorem exists_result_eof (n : Nat) :
    ∀ l : Lexer, l.rest.length ≤ n → ∃ m ≤ n, ∃ offset, l.result m = .ok (.eof offset) := by
  induction n with
  | zero =>
    intro l hl
    have hnil := List.eq_nil_of_length_eq_zero (Nat.le_zero.1 hl)
    exact ⟨0, Nat.le_refl 0, l.offset, congrArg Prod.fst (next_of_nil hnil)⟩
  | succ n ih =>
    intro l hl
    -- a call that does not report the end has used one of the characters at least
    obtain ⟨offset, hnext⟩ | ⟨-, hlt⟩ := next_cases l
    · exact ⟨0, Nat.zero_le _, offset, congrArg Prod.fst hnext⟩
    · obtain ⟨m, hm, offset, hresult⟩ := ih l.next.2 (by omega)
      exact ⟨m + 1, by omega, offset, hresult⟩

/-- The end is reported at the end of the text only. -/
theorem Reports.offset_eq {text : String} {start stop offset : Nat}
    (h : Reports text start (.ok (.eof offset)) stop) : offset = text.utf8ByteSize := by
  cases h with
  | token _ _ _ _ hkind _ => exact absurd rfl hkind
  | eof _ _ => rfl

/-- Calls of `Lexer.next` one after the other, faults included, tile the text. Each `result` is what
`Reports` asks for, from where the call before it has stopped; behind an `eof` nothing else is
reported; and `eof` is reached after no more calls than the text has characters. -/
theorem calls_tile (text : String) :
    (∀ n, Reports text ((ofText text).after n).offset ((ofText text).result n)
        ((ofText text).after (n + 1)).offset) ∧
      (∀ n t, (ofText text).result n = .ok t → t.kind = .eof →
        ∀ m ≥ n, (ofText text).result m = .ok t) ∧
      ∃ n ≤ text.length, (ofText text).result n = .ok (.eof text.utf8ByteSize) := by
  have hreports : ∀ n, Reports text ((ofText text).after n).offset ((ofText text).result n)
      ((ofText text).after (n + 1)).offset := by
    intro n
    rw [after_succ]
    exact (on_after text n).next.1
  refine ⟨hreports, ?_, ?_⟩
  · intro n t hresult hkind m hm
    obtain ⟨k, rfl⟩ := Nat.exists_eq_add_of_le hm
    rw [result, after_add]
    exact result_of_eof hresult hkind k
  · obtain ⟨n, hn, offset, hresult⟩ := exists_result_eof text.length (ofText text) (Nat.le_refl _)
    have hend := hreports n
    rw [hresult] at hend
    exact ⟨n, hn, hend.offset_eq ▸ hresult⟩

end Lexer

end SqlGrammar
