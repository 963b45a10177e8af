import Mathlib.Data.List.Chain
import SqlGrammar.Proofs.Reading.Start

/-!
# One token for each piece

Pieces that are one token each stay so when they are written one after the other, whatever they
are: the text has as many tokens as pieces, in the same order and of the kinds that the pieces name
(`tokenize_render`). No space is put behind a sign and around a point, so a minus must not stand in
front of a minus, and a point not next to a number.
-/

set_option autoImplicit false

namespace SqlGrammar

open Lexer

/-- No two operators have the same spelling. -/
theorem Operator.spelled?_of_mem {text : String} {sign : Operator}
    (h : (text.toList, sign) ∈ spellings) : spelled? text = some sign := by
  have hfirst : ∀ entry ∈ spellings,
      (spellings.find? fun other => other.1 == entry.1) = some entry := by decide
  rw [spelled?, hfirst _ h]
  rfl

/-- The kind of the one token that a piece stands for. A raw text stands for a token only if it is
that token when it is read by itself. -/
inductive Piece.Names : Piece → TokenKind → Prop
  | keyword (word : Keyword) : Names (.keyword word) (.keyword word)
  | operator {text : String} {sign : Operator} :
      (text.toList, sign) ∈ Operator.spellings → Names (.operator text) (.operator sign)
  | sign (sign : Operator) :
      sign ∈ [Operator.minus, .plus, .bitNot] → Names (.sign sign.text) (.operator sign)
  | name (own : String) : Names (.name own) (.identifier own)
  | number {text : String} : IsToken (.number text) text → Names (.raw text) (.number text)
  | parameter {text : String} :
      IsToken (.parameter text) text → Names (.raw text) (.parameter text)
  | star : Names (.raw "*") (.operator .star)
  | string (value : String) : Names (.string value) (.string value)
  | blob (bytes : List UInt8) : Names (.blob bytes) (.blob bytes)
  | openParen : Names .openParen (.operator .leftParen)
  | callParen : Names .callParen (.operator .leftParen)
  | closeParen : Names .closeParen (.operator .rightParen)
  | comma : Names .comma (.operator .comma)
  | dot : Names .dot (.operator .dot)
  | semicolon : Names .semicolon (.operator .semicolon)

namespace Piece.Names

variable {d : Dialect} {p : Piece} {kind : TokenKind}

/-- By itself, the text of the piece is the token that the piece stands for. -/
theorem alone (hd : d.Standard) (h : p.Names kind) : Alone kind (p.text d).toList := by
  cases h with
  | keyword word => exact alone_keyword word
  | operator hmem => exact alone_spelling hmem
  | sign sign _ => exact alone_spelling (text_mem_spellings sign)
  | name own => exact Pieces.alone_writeName hd own
  | number htext => exact isNumber_iff_alone.1 htext
  | parameter htext => exact isParameter_iff_alone.1 htext
  | star => exact alone_spelling (text_mem_spellings .star)
  | string value => exact alone_string value
  | blob bytes => exact alone_blob bytes
  | openParen => exact alone_spelling (text_mem_spellings .leftParen)
  | callParen => exact alone_spelling (text_mem_spellings .leftParen)
  | closeParen => exact alone_spelling (text_mem_spellings .rightParen)
  | comma => exact alone_spelling (text_mem_spellings .comma)
  | dot => exact alone_spelling (text_mem_spellings .dot)
  | semicolon => exact alone_spelling (text_mem_spellings .semicolon)

/-- The kind that a piece names is the kind that it is read as. -/
theorem symbols (h : p.Names kind) : p.symbols.map Symbol.kind = [kind] := by
  cases h with
  | operator hmem => simp [Piece.symbols, Operator.spelled?_of_mem hmem]
  | sign sign _ => simp [Piece.symbols, Operator.spelled?_text]
  | number htext => simp [Piece.symbols, textSymbols_number htext]
  | parameter htext => simp [Piece.symbols, textSymbols_parameter htext]
  | star =>
    have hstar : Alone (.operator .star) "*".toList := alone_spelling (text_mem_spellings .star)
    simp [Piece.symbols, textSymbols_of_alone hstar]
  | _ => rfl

theorem readable (h : p.Names kind) : p.Readable d := by
  cases h with
  | operator hmem => exact Option.isSome_of_mem (Operator.spelled?_of_mem hmem)
  | sign sign hmem =>
    simp only [List.mem_cons, List.not_mem_nil, or_false] at hmem
    rcases hmem with rfl | rfl | rfl
    · exact .inl rfl
    · exact .inr (.inl rfl)
    · exact .inr (.inr rfl)
  | number htext => exact rawToken_of_isNumber htext
  | parameter htext => exact rawToken_of_isParameter htext
  | star => exact .single _ (alone_spelling (text_mem_spellings .star))
  | _ => trivial

theorem isNumeric_eq (h : p.Names kind) : p.isNumeric = kind.isNumber := by
  cases h with
  | number htext => simp [isNumeric, textSymbols_number htext]
  | parameter htext => simp [isNumeric, textSymbols_parameter htext, TokenKind.isNumber]
  | star =>
    have hstar : Alone (.operator .star) "*".toList := alone_spelling (text_mem_spellings .star)
    simp [isNumeric, textSymbols_of_alone hstar, TokenKind.isNumber]
  | _ => rfl

end Piece.Names

/-- A piece that stands for one token, and the kind of that token. -/
structure NamedPiece where
  piece : Piece
  kind : TokenKind
  names : piece.Names kind

namespace NamedPiece

variable {d : Dialect}

/-- The second piece may be written behind the first: it is no number behind a point and no point
behind a number, and does not start with a minus behind a minus sign. -/
structure Separate (d : Dialect) (a b : NamedPiece) : Prop where
  number : a.piece = .dot → b.kind.isNumber = false
  point : b.piece = .dot → a.kind.isNumber = false
  minus : a.piece = .sign "-" → (b.piece.text d).toList.head? ≠ some '-'

instance (d : Dialect) (a b : NamedPiece) : Decidable (Separate d a b) :=
  decidable_of_iff
    ((a.piece = .dot → b.kind.isNumber = false) ∧ (b.piece = .dot → a.kind.isNumber = false) ∧
      (a.piece = .sign "-" → (b.piece.text d).toList.head? ≠ some '-'))
    ⟨fun ⟨number, point, minus⟩ => ⟨number, point, minus⟩,
      fun h => ⟨h.number, h.point, h.minus⟩⟩

theorem Separate.apart (hd : d.Standard) {a b : NamedPiece} (h : Separate d a b) :
    a.piece.Apart d b.piece where
  minus := h.minus
  digit hdot := head?_not_isDigit (b.names.alone hd) (h.number hdot)
  point hdot := by
    rw [a.names.isNumeric_eq]
    exact h.point hdot

/-- Pieces that stand for tokens can be read if all neighbours may stand next to each other. -/
theorem legible (hd : d.Standard) {ps : List NamedPiece} (h : ps.IsChain (Separate d)) :
    Pieces.Legible d (ps.map piece) := by
  induction ps with
  | nil => trivial
  | cons a ps ih =>
    -- each piece has to be apart from the next one only
    cases ps with
    | nil => exact a.names.readable
    | cons b ps =>
      rw [List.isChain_cons_cons] at h
      exact ⟨a.names.readable, h.1.apart hd, ih h.2⟩

theorem symbols_pieces (ps : List NamedPiece) :
    (Pieces.symbols (ps.map piece)).map Symbol.kind = ps.map kind := by
  induction ps with
  | nil => rfl
  | cons a ps ih =>
    rw [List.map_cons, Pieces.symbols_cons, List.map_append, ih, a.names.symbols]
    rfl

/-- Pieces of which all neighbours are `Separate` are rendered as a text with one token for each of
them, of its `NamedPiece.kind` and in their order, and `eof` behind. -/
theorem tokenize_render (hd : d.Standard) {ps : List NamedPiece} (h : ps.IsChain (Separate d)) :
    ∃ ts, tokenize (d.render (ps.map piece)) = .ok ts ∧
      ts.map Token.kind = ps.map kind ++ [.eof] := by
  obtain ⟨ts, hts, hsymbols⟩ := tokenize_of_lexes (Pieces.lexes_render hd (legible hd h))
  refine ⟨ts, hts, ?_⟩
  have hkinds := congrArg (List.map Symbol.kind) hsymbols
  rw [List.map_map, List.map_append, symbols_pieces] at hkinds
  exact hkinds

/-- A minus and a number without a space between them, names that have to be quoted and a second
spelling of an operator: `-.5 <> ` and what follows is read piece by piece. -/
def signedComparison : List NamedPiece :=
  [⟨.sign "-", .operator .minus, .sign .minus (by decide)⟩,
   ⟨.raw ".5", .number ".5", .number (by decide)⟩,
   ⟨.operator "<>", .operator .notEq, .operator (by decide)⟩,
   ⟨.name "order", .identifier "order", .name _⟩,
   ⟨.dot, .operator .dot, .dot⟩,
   ⟨.name "a\x60b", .identifier "a\x60b", .name _⟩,
   ⟨.callParen, .operator .leftParen, .callParen⟩,
   ⟨.sign "-", .operator .minus, .sign .minus (by decide)⟩,
   ⟨.string "it's", .string "it's", .string _⟩,
   ⟨.closeParen, .operator .rightParen, .closeParen⟩]

theorem tokenize_render_signedComparison :
    ∃ ts, tokenize (Dialect.render { name := "backticks", quote := '\x60' }
        (signedComparison.map piece)) = .ok ts ∧
      ts.map Token.kind = signedComparison.map kind ++ [.eof] :=
  tokenize_render ⟨.inr rfl, rfl, rfl⟩ (by decide)

end NamedPiece

end SqlGrammar
