import SqlGrammar.Build.BindValue
import SqlGrammar.Proofs.NumberGrammar
import SqlGrammar.Proofs.Reading.Statement
import SqlGrammar.Proofs.Reading.Within

/-!
# Values in texts

A value that is written into a text, instead of being bound, is one literal there, or a minus sign
with a number behind it, whatever it holds: no value breaks out of its place. With three levels its
text is parsed as the expression of the value (`BindValue.inline_values`).
-/

set_option autoImplicit false

namespace SqlGrammar

open Lexer SqlGrammar.Parser Grammar

/-! ## Texts of numbers -/

namespace Decimal

/-- A decimal is written with digits on both sides of a point, and without an exponent. -/
theorem positional_parts (digits : Nat) (k : Int) : ∃ whole fraction,
    IsRun Char.isDigit whole ∧ IsRun Char.isDigit fraction ∧
      (positional digits k).toList = whole ++ '.' :: fraction := by
  obtain ⟨hne, hall⟩ := isRun_toDigits digits
  -- zeros are digits, on whatever side they fill up
  have hzeros : ∀ n, ∀ c ∈ List.replicate n '0', c.isDigit = true := by
    intro n c hc
    rw [List.eq_of_mem_replicate hc]
    rfl
  unfold positional
  dsimp only
  split
  · refine ⟨Nat.toDigits 10 digits ++ List.replicate k.toNat '0', ['0'], ⟨by simp [hne], ?_⟩,
      ⟨by simp, by simp⟩, by simp⟩
    intro c hc
    exact (List.mem_append.1 hc).elim (hall c) (hzeros _ c)
  · generalize hpadded : List.replicate ((-k).toNat + 1 - (Nat.toDigits 10 digits).length) '0' ++
      Nat.toDigits 10 digits = padded
    have hlength : (-k).toNat + 1 ≤ padded.length := by
      rw [← hpadded, List.length_append, List.length_replicate]
      omega
    have hdigits : ∀ c ∈ padded, c.isDigit = true := by
      intro c hc
      rw [← hpadded] at hc
      exact (List.mem_append.1 hc).elim (hzeros _ c) (hall c)
    refine ⟨padded.take (padded.length - (-k).toNat), padded.drop (padded.length - (-k).toNat),
      ⟨?_, fun c hc => hdigits c (List.mem_of_mem_take hc)⟩,
      ⟨?_, fun c hc => hdigits c (List.mem_of_mem_drop hc)⟩, by rw [String.toList_ofList]⟩
    · apply List.ne_nil_of_length_pos
      rw [List.length_take]
      omega
    · apply List.ne_nil_of_length_pos
      rw [List.length_drop]
      omega

theorem isNumber_text (mantissa : Nat) (exponent : Int) :
    IsToken (.number (text mantissa exponent)) (text mantissa exponent) := by
  obtain ⟨whole, fraction, hwhole, hfraction, htext⟩ :=
    positional_parts (shortest mantissa exponent).1 (shortest mantissa exponent).2
  rw [isNumber_iff_numeral, text, htext]
  have hnumeral := Numeral.decimal (.digits hwhole (.point hfraction.2)) .none
  rwa [List.append_nil] at hnumeral

end Decimal

theorem BindValue.isNumber_magnitudeText {m : Magnitude} {digits : String}
    (h : magnitudeText? m = some digits) : IsToken (.number digits) digits := by
  cases m with
  | notANumber => cases h
  | infinite =>
    cases h
    decide
  | finite mantissa exponent =>
    cases h
    exact Decimal.isNumber_text mantissa exponent

/-! ## The forms of values -/

/-- The expression is a literal, or a minus sign in front of a number. -/
inductive Expr.IsConstant : Expr → Prop
  | literal {value : Literal} : value.WellMade → IsConstant (.literal value)
  | negative {text : String} : IsToken (.number text) text → IsConstant (.negate (.number text))

/-- The kinds of the tokens of a constant: those of a literal, or of a minus sign and a number. -/
inductive Expr.ConstantTokens : Expr → List TokenKind → Prop
  | literal {value : Literal} {kind : TokenKind} : Literal.ofKind? kind = some value →
      ConstantTokens (.literal value) [kind, .eof]
  | negative (text : String) :
      ConstantTokens (.negate (.number text)) [.operator .minus, .number text, .eof]

/-- A number behind the sign of its value. -/
theorem Expr.isConstant_signed {text : String} (h : IsToken (.number text) text)
    (negative : Prop) [Decidable negative] :
    (if negative then (number text).negate else number text).IsConstant := by
  split
  · exact .negative h
  · exact .literal h

theorem BindValue.isConstant_toExpr (v : BindValue) : v.toExpr.IsConstant := by
  cases v with
  | null => exact .literal trivial
  | int value => exact Expr.isConstant_signed (isToken_toString _) _
  | real value =>
    rw [toExpr]
    split
    · exact .literal trivial
    · next digits hdigits => exact Expr.isConstant_signed (isNumber_magnitudeText hdigits) _
  | text value => exact .literal trivial
  | blob bytes => exact .literal trivial

/-! ## Reading constants -/

namespace Grammar

/-- A constant at the end of the input takes a level for its operand, and the number of a negative
one another level. -/
theorem readsWithin_operand_literal (least : Nat) {value : Literal} {s : Symbol}
    (h : Literal.ofKind? s.kind = some value) :
    ReadsWithin productions 1 (operandOf least) [s] (.literal value) [] :=
  readsWithin_goal (g := Goal.operand least)
    (readsWithin_operand (UnaryOp.ofKind?_of_literal h) (readsWithin_literal h)
      (readsWithin_iterate_stop (readsWithin_extend_none rfl)))

theorem readsWithin_operand_negative (text : String) :
    ReadsWithin productions 2 (operandOf 0) [.operator .minus, .leaf (.number text)]
      (.negate (.number text)) [] := by
  have hhead : ReadsWithin productions 1 operandHead [.operator .minus, .leaf (.number text)]
      (.negate (.number text)) [] :=
    readsWithin_bind (readsWithin_of_flat flat_kind (reads_kind _))
      (readsWithin_bind (readsWithin_of_flat flat_advance (reads_advance nofun))
        (readsWithin_bind (readsWithin_operand_literal _ rfl) (readsWithin_pure _ _)))
  exact readsWithin_goal (g := Goal.operand 0)
    (readsWithin_bind hhead (readsWithin_iterate_stop (readsWithin_extend_none rfl)))

end Grammar

theorem Expr.symbols_negative {text : String} (h : IsToken (.number text) text) :
    (Expr.negate (.number text)).symbols = [.operator .minus, .leaf (.number text)] := by
  have hfits : (Expr.number text).fitsRight UnaryOp.neg.power = true := rfl
  have hnumber : (Expr.number text).symbols = [.leaf (.number text)] := by
    simp [symbols, number, pieces, Literal.pieces, Piece.symbols, textSymbols_number h]
  rw [negate, symbols_unary, rightSymbols_eq, if_pos hfits, hnumber]
  rfl

namespace Expr.IsConstant

variable {e : Expr}

theorem wellFormed (h : e.IsConstant) : e.WellFormed Phrase.Unambiguous := by
  cases h with
  | literal hmade => exact .leaf hmade trivial rfl
  | negative hnumber => exact .single trivial trivial rfl (.leaf hnumber trivial rfl)

/-- What a constant is written as. -/
theorem symbols (h : e.IsConstant) :
    (∃ value s, e = .literal value ∧ Literal.ofKind? s.kind = some value ∧ e.symbols = [s]) ∨
      ∃ text, e = .negate (.number text) ∧
        e.symbols = [.operator .minus, .leaf (.number text)] := by
  cases h with
  | literal hmade =>
    obtain ⟨s, hs, hkind⟩ := Literal.symbols_pieces hmade
    exact .inl ⟨_, s, rfl, hkind, hs⟩
  | negative hnumber => exact .inr ⟨_, rfl, symbols_negative hnumber⟩

theorem lexes_toSql (h : e.IsConstant) :
    Lexes (Rule.toSql .expr e).toList e.symbols :=
  Rule.lexes_toSql (r := .expr) h.wellFormed

/-- The text of a constant is parsed as the constant. -/
theorem parseRule_toSql (h : e.IsConstant) {depth : Nat} (hdepth : 3 ≤ depth) :
    parseRule .expr (Rule.toSql .expr e) depth = .ok e := by
  have hlexes := h.lexes_toSql
  rcases h.symbols with ⟨value, s, rfl, hkind, hs⟩ | ⟨text, rfl, hs⟩
  · rw [hs] at hlexes
    have hread : ReadsWithin productions 1 (rule .expr) [s] (.literal value) [] :=
      readsWithin_operand_literal 0 hkind
    exact parseRule_of_readsWithin hlexes (readsWithin_whole hread) (by omega)
  · rw [hs] at hlexes
    have hread : ReadsWithin productions 2 (rule .expr) [.operator .minus, .leaf (.number text)]
        (.negate (.number text)) [] := readsWithin_operand_negative text
    exact parseRule_of_readsWithin hlexes (readsWithin_whole hread) hdepth

/-- The text of a constant has no tokens but those of the constant. -/
theorem tokenize_toSql (h : e.IsConstant) :
    ∃ ts, tokenize (Rule.toSql .expr e) = .ok ts ∧ e.ConstantTokens (ts.map Token.kind) := by
  obtain ⟨ts, hts, hsymbols⟩ := tokenize_of_lexes h.lexes_toSql
  have hkinds := map_kind_of_map_symbol hsymbols
  refine ⟨ts, hts, ?_⟩
  rcases h.symbols with ⟨value, s, rfl, hkind, hs⟩ | ⟨text, rfl, hs⟩
  · rw [hkinds, hs]
    exact .literal hkind
  · rw [hkinds, hs]
    exact .negative text

end Expr.IsConstant

namespace BindValue

/-- The text that `toInlineSql` gives has the tokens of one literal, or of a minus sign and a number
(`ConstantTokens`), and with three levels it is parsed as `toExpr` of the value. -/
theorem inline_values (v : BindValue) {depth : Nat} (hdepth : 3 ≤ depth) :
    (∃ ts, tokenize v.toInlineSql = .ok ts ∧ v.toExpr.ConstantTokens (ts.map Token.kind)) ∧
      parseRule .expr v.toInlineSql depth = .ok v.toExpr :=
  ⟨v.isConstant_toExpr.tokenize_toSql, v.isConstant_toExpr.parseRule_toSql hdepth⟩

/-- The least whole number, whose magnitude is no whole number of its size. -/
theorem inline_values_least :
    (int Int64.minValue).toInlineSql = "-9223372036854775808" ∧
      (∃ ts, tokenize "-9223372036854775808" = .ok ts ∧
        (int Int64.minValue).toExpr.ConstantTokens (ts.map Token.kind)) ∧
      parseRule .expr "-9223372036854775808" 3 =
        .ok (.negate (.number "9223372036854775808")) := by
  have hsql : (int Int64.minValue).toInlineSql = "-9223372036854775808" := by decide
  have hvalues := inline_values (int Int64.minValue) (Nat.le_refl 3)
  rw [hsql] at hvalues
  exact ⟨hsql, hvalues⟩

end BindValue

end SqlGrammar
