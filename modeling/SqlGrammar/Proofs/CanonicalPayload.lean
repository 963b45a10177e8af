import SqlGrammar.Proofs.Parsed.Statement

/-!
# The payload of canonical texts

No name, value or sign of a statement is lost, added or moved when the statement is parsed and
written again: its canonical text has the payload of the text that it came from
(`payload_canonical`). This is so for texts that are written plainly; a final semicolon is not part
of the statement.
-/

set_option autoImplicit false

namespace SqlGrammar

open Lexer SqlGrammar.Parser Grammar

/-! ## A final semicolon -/

/-- The symbols without a semicolon at their end. -/
def withoutFinalSemicolon (ss : List Symbol) : List Symbol :=
  if ss.getLast?.any fun s => s.kind == .operator .semicolon then ss.dropLast else ss

theorem withoutFinalSemicolon_concat {used : List Symbol} {s : Symbol}
    (h : s.kind = .operator .semicolon) : withoutFinalSemicolon (used ++ [s]) = used := by
  simp [withoutFinalSemicolon, h]

theorem withoutFinalSemicolon_of_last {ss : List Symbol}
    (h : ∀ before s, ss = before ++ [s] → s.kind ≠ .operator .semicolon) :
    withoutFinalSemicolon ss = ss := by
  cases hlast : ss.getLast? with
  | none => simp [withoutFinalSemicolon, hlast]
  | some s =>
    obtain ⟨before, hss⟩ := List.getLast?_eq_some_iff.1 hlast
    have hkind := h before s hss
    simp [withoutFinalSemicolon, hlast, hkind]

/-! ## Statements -/

theorem Finishes.payload_eq {ss mid : List Symbol} {kinds : List TokenKind}
    (h : Finishes ss kinds mid) (hplain : PlainlyWritten ss)
    (hmid : mid = [] ∨ Next mid (.operator .semicolon) []) :
    payload (withoutFinalSemicolon ss) = kinds := by
  obtain ⟨used, hss, hused⟩ := h.moves
  rcases hmid with rfl | ⟨s, rfl, hs⟩
  · rw [withoutFinalSemicolon_of_last h.last, hss, List.append_nil]
    exact hused hplain
  · rw [hss, withoutFinalSemicolon_concat hs]
    exact hused hplain

/-- For a text that is `PlainlyWritten`, the tokens of the canonical text have the same `payload`,
that is the same names, values and signs in the same order, as those of the text itself, but for a
final semicolon (`withoutFinalSemicolon`). -/
theorem payload_canonical {text : String} {depth : Nat} {statement : Statement}
    (h : parseRule .statement text depth = .ok statement)
    (hplain : PlainlyWritten (textSymbols text)) :
    ∃ written, tokenize (Rule.toSql .statement statement) = .ok written ∧
      payload (written.map Token.symbol) = payload (withoutFinalSemicolon (textSymbols text)) := by
  obtain ⟨ss, mid, hlexes, ⟨hfinishes, hwf⟩, hmid⟩ := parsed_of_parseRule h
  rw [textSymbols_of_lexes hlexes] at hplain ⊢
  have hwritten : Lexes (Rule.toSql .statement statement).toList
      (Pieces.symbols (Rule.pieces .statement statement)) :=
    Rule.lexes_toSql (r := .statement) hwf
  obtain ⟨written, htokens, hsymbols⟩ := tokenize_of_lexes hwritten
  refine ⟨written, htokens, ?_⟩
  calc payload (written.map Token.symbol)
      = payload (Pieces.symbols (Rule.pieces .statement statement) ++ [.leaf .eof]) := by
        rw [hsymbols]
    _ = payload (Pieces.symbols (Rule.pieces .statement statement)) := by
        rw [payload_append]
        exact List.append_nil _
    _ = payload (withoutFinalSemicolon ss) := (hfinishes.payload_eq hplain hmid).symm

/-! ## Texts without bounds -/

/-- Whether three names stand in a row, or two behind an `AS`. -/
def hasLongType : List Symbol → Bool
  | a :: b :: c :: rest =>
    ((a.kind.isIdentifier || a.kind == .keyword .AS) && b.kind.isIdentifier &&
      c.kind.isIdentifier) || hasLongType (b :: c :: rest)
  | _ => false

/-- Whether the symbol is neither `LIMIT` nor `WITHOUT` nor a name spelled like a keyword that is
also the name of a function. -/
def Symbol.isPlain (s : Symbol) : Bool :=
  match s.kind with
  | .keyword .LIMIT | .keyword .WITHOUT => false
  | .identifier own => !(Keyword.ofText? own).any Keyword.namesFunction
  | _ => true

theorem not_hasLongType_suffix {ss rest : List Symbol} (h : hasLongType ss = false)
    (hrest : rest <:+ ss) : hasLongType rest = false := by
  induction ss with
  | nil =>
    rw [List.suffix_nil.1 hrest]
    rfl
  | cons a ss ih =>
    rcases List.suffix_cons_iff.1 hrest with rfl | hrest
    · exact h
    · refine ih ?_ hrest
      obtain _ | ⟨b, _ | ⟨c, ss⟩⟩ := ss
      · rfl
      · rfl
      · rw [hasLongType, Bool.or_eq_false_iff] at h
        exact h.2

/-- A text without `LIMIT` is written plainly if no symbol and no type in it forbids that. -/
theorem plainlyWritten_of_unbounded {ss : List Symbol} (htypes : hasLongType ss = false)
    (hsymbols : ss.all Symbol.isPlain = true) : PlainlyWritten ss := by
  have hplain : ∀ s ∈ ss, s.isPlain = true := List.all_eq_true.1 hsymbols
  constructor
  · intro a b c rest hsuffix ha hb
    have hfirst := not_hasLongType_suffix htypes hsuffix
    rw [hasLongType, Bool.or_eq_false_iff] at hfirst
    rcases ha with ha | ha <;> simpa [ha, hb] using hfirst.1
  · intro s rest hsuffix hs
    have hmem : s ∈ ss := hsuffix.subset (List.mem_cons_self ..)
    have := hplain s hmem
    simp [Symbol.isPlain, hs] at this
  · intro s hmem hs
    have := hplain s hmem
    simp [Symbol.isPlain, hs] at this
  · intro s hmem own word hs hword
    have := hplain s hmem
    simpa [Symbol.isPlain, hs, hword] using this

/-- The steps of a trigger keep their semicolons, and the one behind the trigger is left out. -/
theorem payload_canonical_trigger :
    let text := "create trigger g after update of a on t begin delete from t where b <> 1.5; end;"
    ∃ statement, parseRule .statement text 200 = .ok statement ∧
      PlainlyWritten (textSymbols text) ∧
      ∃ written, tokenize (Rule.toSql .statement statement) = .ok written ∧
        payload (written.map Token.symbol) =
          [.identifier "g", .identifier "a", .identifier "t", .identifier "t", .identifier "b",
            .operator .notEq, .number "1.5", .operator .semicolon] := by
  intro text
  let deletion : Delete := ⟨⟨none, "t"⟩,
    some (.binary (.column none none "b") .notEq (.literal (.number "1.5")))⟩
  let statement : CreateTrigger :=
    { temporary := false, ifNotExists := false, name := ⟨none, "g"⟩, timing := some .after,
      event := .update ["a"], table := "t", forEachRow := false, condition := none,
      body := [.delete deletion] }
  have ⟨hok, htypes, hsymbols, hkept⟩ :
      (parseRule .statement text 200).toOption = some (.createTrigger statement) ∧
      hasLongType (textSymbols text) = false ∧
      (textSymbols text).all Symbol.isPlain = true ∧
      payload (withoutFinalSemicolon (textSymbols text)) =
        [.identifier "g", .identifier "a", .identifier "t", .identifier "t", .identifier "b",
          .operator .notEq, .number "1.5", .operator .semicolon] := by decide +kernel
  have hparse : parseRule .statement text 200 = .ok (.createTrigger statement) :=
    ok_of_toOption hok
  have hplain : PlainlyWritten (textSymbols text) := plainlyWritten_of_unbounded htypes hsymbols
  obtain ⟨written, htokens, hpayload⟩ := payload_canonical hparse hplain
  exact ⟨.createTrigger statement, hparse, hplain, written, htokens, hpayload.trans hkept⟩

end SqlGrammar
