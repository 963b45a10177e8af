import SqlGrammar.Grammar.Statement
import SqlGrammar.Proofs.Parser.Ensures
import SqlGrammar.Proofs.Writing.Symbols

/-!
# The payload of a text

The payload of symbols is what is left of them without keywords and parentheses: names, numbers,
strings, blobs, parameters and all other signs. `Passes` says which payload a production takes from
the symbols ahead. It does so for texts that are written plainly (`PlainlyWritten`), in which
nothing stands that is read and then left out or turned round.
-/

set_option autoImplicit false

namespace SqlGrammar

open SqlGrammar.Parser

/-! ## Payload -/

/-- Whether a symbol of this kind is neither a keyword nor a parenthesis nor the end. -/
def TokenKind.isPayload : TokenKind → Bool
  | .keyword _ | .operator .leftParen | .operator .rightParen | .eof => false
  | _ => true

/-- The payload of a symbol of a kind. -/
def TokenKind.payload (kind : TokenKind) : List TokenKind :=
  if kind.isPayload then [kind] else []

/-- The kinds of the symbols that are neither keywords nor parentheses. -/
def payload (ss : List Symbol) : List TokenKind := (ss.map Symbol.kind).filter TokenKind.isPayload

@[simp] theorem payload_nil : payload [] = [] := rfl

/-- `payload` of a first symbol and the others, as `TokenKind.payload` of its kind in front. -/
@[simp] theorem payload_cons (s : Symbol) (ss : List Symbol) :
    payload (s :: ss) = s.kind.payload ++ payload ss := by
  cases h : s.kind.isPayload <;> simp [payload, TokenKind.payload, h]

/-- `payload` goes through a concatenation. -/
@[simp] theorem payload_append (ss ts : List Symbol) :
    payload (ss ++ ts) = payload ss ++ payload ts := by
  simp [payload]

/-- `payload` goes through `List.flatMap`. -/
theorem payload_flatMap {α : Type} (f : α → List Symbol) (as : List α) :
    payload (as.flatMap f) = as.flatMap fun a => payload (f a) := by
  induction as with
  | nil => rfl
  | cons a as ih => rw [List.flatMap_cons, payload_append, ih, List.flatMap_cons]

namespace TokenKind

/-- Keywords and parentheses have no payload, and names, numbers and parameters are their own. -/
@[simp] theorem payload_keyword (word : Keyword) : (keyword word).payload = [] := rfl
@[simp] theorem payload_leftParen : (operator .leftParen).payload = [] := rfl
@[simp] theorem payload_rightParen : (operator .rightParen).payload = [] := rfl
@[simp] theorem payload_identifier (own : String) :
    (identifier own).payload = [identifier own] := rfl
@[simp] theorem payload_number (text : String) : (number text).payload = [number text] := rfl
@[simp] theorem payload_parameter (text : String) :
    (parameter text).payload = [parameter text] := rfl

end TokenKind

/-- Keywords in a row have no payload. -/
@[simp] theorem payload_map_keyword (words : List Keyword) :
    payload (words.map Symbol.keyword) = [] := by
  induction words with
  | nil => rfl
  | cons word words ih => simp [ih]

/-! ## The payload of written groups -/

namespace Pieces

/-- A `flag` is made of keywords. -/
@[simp] theorem payload_flag (words : List Keyword) (set : Bool) :
    payload (symbols (flag words set)) = [] := by
  cases set <;> simp

/-- The payload of a `clause` is that of what its keywords introduce. -/
@[simp] theorem payload_clause (words : List Keyword) (o : Option (List Piece)) :
    payload (symbols (clause words o)) = payload (symbols (o.getD [])) := by
  cases o <;> simp

/-- The payload of a `listClause` is that of its items with their commas. -/
@[simp] theorem payload_listClause (words : List Keyword) (items : List (List Piece)) :
    payload (symbols (listClause words items)) = payload (symbols (commaList items)) := by
  cases items with
  | nil => rfl
  | cons ps items => simp [symbols_listClause_cons]

/-- The payload of items with commas between them, which are payload too. -/
theorem payload_commaList_cons (ps : List Piece) (items : List (List Piece)) :
    payload (symbols (commaList (ps :: items))) =
      payload (symbols ps) ++
        items.flatMap fun qs => .operator .comma :: payload (symbols qs) := by
  rw [symbols_commaList_cons, payload_append, payload_flatMap]
  rfl

end Pieces

/-- An optional `NOT` has no payload. -/
@[simp] theorem payload_notSymbols (negated : Bool) : payload (notSymbols negated) = [] :=
  Pieces.payload_flag _ negated

/-- Parentheses around a left operand are no payload. -/
@[simp] theorem Expr.payload_leftSymbols (power : Nat) (e : Expr) :
    payload (e.leftSymbols power) = payload e.symbols := by
  rw [leftSymbols_eq]
  split
  · rfl
  · simp [symbols_paren]

/-- Parentheses around a right operand are no payload. -/
@[simp] theorem Expr.payload_rightSymbols (least : Nat) (e : Expr) :
    payload (e.rightSymbols least) = payload e.symbols := by
  rw [rightSymbols_eq]
  split
  · rfl
  · simp [symbols_paren]

/-! ## Plainly written texts -/

/-- The symbols are written plainly: no type has more than one word, which would be three names in a
row or two behind `AS`, no `LIMIT` has its offset before a comma, no table is made `WITHOUT ROWID`,
and no quoted name is spelled like a keyword that is also the name of a function. -/
structure PlainlyWritten (ss : List Symbol) : Prop where
  types : ∀ a b c rest, a :: b :: c :: rest <:+ ss →
    (a.kind.isIdentifier = true ∨ a.kind = .keyword .AS) → b.kind.isIdentifier = true →
      c.kind.isIdentifier = false
  limits : ∀ s rest, s :: rest <:+ ss → s.kind = .keyword .LIMIT → ∀ room first left,
    Yields Grammar.productions room Rule.expr.parse rest first left →
      kindAhead left 0 ≠ .operator .comma
  rowid : ∀ s ∈ ss, s.kind ≠ .keyword .WITHOUT
  names : ∀ s ∈ ss, ∀ own word, s.kind = .identifier own → Keyword.ofText? own = some word →
    word.namesFunction = false

/-- What is left of symbols that are written plainly is written plainly: each field of
`PlainlyWritten` speaks of suffixes or of single symbols. -/
theorem PlainlyWritten.suffix {ss rest : List Symbol} (h : PlainlyWritten ss)
    (hrest : rest <:+ ss) : PlainlyWritten rest where
  types a b c left hleft := h.types a b c left (hleft.trans hrest)
  limits s left hleft := h.limits s left (hleft.trans hrest)
  rowid s hs := h.rowid s (hrest.subset hs)
  names s hs := h.names s (hrest.subset hs)

/-! ## Taking payload -/

/-- The first symbol is of a kind, and the others are left. -/
def Next (input : List Symbol) (kind : TokenKind) (rest : List Symbol) : Prop :=
  ∃ s, input = s :: rest ∧ s.kind = kind

/-- The symbols before the rest have a payload, if they are written plainly. -/
def Moves (input : List Symbol) (kinds : List TokenKind) (rest : List Symbol) : Prop :=
  ∃ used, input = used ++ rest ∧ (PlainlyWritten input → payload used = kinds)

/-- The symbols before the rest have a payload, if they are written plainly, and no semicolon is
among them. -/
def Passes (input : List Symbol) (kinds : List TokenKind) (rest : List Symbol) : Prop :=
  ∃ used, input = used ++ rest ∧ (PlainlyWritten input → payload used = kinds) ∧
    ∀ s ∈ used, s.kind ≠ .operator .semicolon

section Taking

variable {input mid rest : List Symbol} {kinds more : List TokenKind} {kind : TokenKind}

/-- `Moves` one after the other: their payloads are appended. -/
theorem Moves.trans (h : Moves input kinds mid) (h' : Moves mid more rest) :
    Moves input (kinds ++ more) rest := by
  obtain ⟨used, rfl, hused⟩ := h
  obtain ⟨used', rfl, hused'⟩ := h'
  refine ⟨used ++ used', by rw [List.append_assoc], fun hplain => ?_⟩
  rw [payload_append, hused hplain, hused' (hplain.suffix (List.suffix_append _ _))]

/-- The payload of `Moves` may be given by an equal list. -/
theorem Moves.cast (h : Moves input kinds rest) (heq : kinds = more) : Moves input more rest :=
  heq ▸ h

/-- `Passes` is `Moves` without semicolons. -/
theorem Passes.moves (h : Passes input kinds rest) : Moves input kinds rest := by
  obtain ⟨used, hinput, hused, -⟩ := h
  exact ⟨used, hinput, hused⟩

/-- What `Passes` leaves is a suffix. -/
theorem Passes.suffix (h : Passes input kinds rest) : rest <:+ input := by
  obtain ⟨used, rfl, -⟩ := h
  exact List.suffix_append _ _

/-- Where nothing is taken there is no payload. -/
theorem Passes.refl (input : List Symbol) : Passes input [] input :=
  ⟨[], rfl, fun _ => rfl, by simp⟩

/-- `Passes` one after the other: their payloads are appended, and neither takes a semicolon. -/
theorem Passes.trans (h : Passes input kinds mid) (h' : Passes mid more rest) :
    Passes input (kinds ++ more) rest := by
  obtain ⟨used, rfl, hused, hfree⟩ := h
  obtain ⟨used', rfl, hused', hfree'⟩ := h'
  refine ⟨used ++ used', by rw [List.append_assoc], fun hplain => ?_, ?_⟩
  · rw [payload_append, hused hplain, hused' (hplain.suffix (List.suffix_append _ _))]
  · simp only [List.mem_append]
    rintro s (hs | hs)
    · exact hfree s hs
    · exact hfree' s hs

/-- The payload of `Passes` may be given by an equal list. -/
theorem Passes.cast (h : Passes input kinds rest) (heq : kinds = more) : Passes input more rest :=
  heq ▸ h

/-- What is not written plainly may have any payload. -/
theorem Passes.of_not_plain (h : Passes input kinds rest) (hnot : ¬ PlainlyWritten input) :
    Passes input more rest := by
  obtain ⟨used, rfl, -, hfree⟩ := h
  exact ⟨used, rfl, fun hplain => absurd hplain hnot, hfree⟩

/-- Taking one symbol `Passes` its payload, unless it is a semicolon. -/
theorem Next.passes (h : Next input kind rest) (hkind : kind ≠ .operator .semicolon) :
    Passes input kind.payload rest := by
  obtain ⟨s, rfl, rfl⟩ := h
  exact ⟨[s], rfl, fun _ => by simp, by simpa using hkind⟩

/-- Taking a name `Passes` that name. -/
theorem Next.passes_name {own : String} (h : Next input (.identifier own) rest) :
    Passes input [.identifier own] rest := h.passes (by simp)

/-- Taking a keyword `Passes` no payload. -/
theorem Next.passes_keyword {word : Keyword} (h : Next input (.keyword word) rest) :
    Passes input [] rest := h.passes (by simp)

/-- The kind ahead is that of `Next`. -/
theorem Next.kindAhead (h : Next input kind rest) : kindAhead input 0 = kind := by
  obtain ⟨s, rfl, rfl⟩ := h
  rfl

theorem Next.suffix (h : Next input kind rest) : rest <:+ input := by
  obtain ⟨s, rfl, -⟩ := h
  exact List.suffix_cons s rest

theorem Next.length (h : Next input kind rest) : input.length = rest.length + 1 := by
  obtain ⟨s, rfl, -⟩ := h
  rfl

theorem Next.mem (h : Next input kind rest) : ∃ s ∈ input, s.kind = kind := by
  obtain ⟨s, rfl, hs⟩ := h
  exact ⟨s, by simp, hs⟩

end Taking

end SqlGrammar
