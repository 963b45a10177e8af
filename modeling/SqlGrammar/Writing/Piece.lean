import SqlGrammar.Text.HexBytes
import SqlGrammar.Token
import SqlGrammar.Writing.Dialect

/-!
# Pieces of text

A text is written piece by piece. A piece is a word, a punctuation mark or a parenthesis; it knows
whether it stands next to what is before it, and whether it draws what comes after it next to
itself. Which pieces a tree is written with does not depend on the dialect.
-/

set_option autoImplicit false

namespace SqlGrammar

/-- A piece of text. -/
inductive Piece where
  | keyword (word : Keyword)
  | operator (text : String)
  | sign (text : String)
  | name (name : String)
  | raw (text : String)
  | string (value : String)
  | blob (bytes : List UInt8)
  | placeholder
  | openParen
  | callParen
  | closeParen
  | comma
  | dot
  | semicolon
  deriving DecidableEq, Repr

namespace Piece

/-- The piece that writes a terminal as a word of its own. -/
def ofTerminal : Terminal → Piece
  | .keyword word => keyword word
  | .operator o => operator o.text

/-- A string in single quotes. -/
def quoteString (value : String) : String := Text.Quoted.enclose '\'' value

/-- Bytes in hexadecimal, marked and quoted. -/
def quoteBlob (bytes : List UInt8) : String :=
  "X'" ++ String.ofList (Text.HexBytes.encode bytes) ++ "'"

/-- The text of the piece in a dialect. -/
def text (d : Dialect) : Piece → String
  | keyword word => word.text
  | operator text | sign text | raw text => text
  | name own => d.writeName own
  | string value => quoteString value
  | blob bytes => quoteBlob bytes
  | placeholder => d.placeholder
  | openParen | callParen => "("
  | closeParen => ")"
  | comma => ","
  | dot => "."
  | semicolon => ";"

/-- Whether the piece stands next to what is before it. -/
def attaches : Piece → Bool
  | callParen | closeParen | comma | dot | semicolon => true
  | _ => false

/-- Whether what comes after the piece stands next to it. -/
def gluesNext : Piece → Bool
  | sign _ | openParen | callParen | dot => true
  | _ => false

end Piece

/-! ## Groups of pieces -/

namespace Pieces

/-- Keywords, one after the other. -/
def keywords (words : List Keyword) : List Piece := words.map .keyword

/-- A name behind its schema, if it has one. -/
def qualified (schema : Option String) (own : String) : List Piece :=
  match schema with
  | some schema => [.name schema, .dot, .name own]
  | none => [.name own]

/-- Groups of pieces with commas between them. -/
def commaList : List (List Piece) → List Piece
  | [] => []
  | [only] => only
  | first :: second :: rest => first ++ .comma :: commaList (second :: rest)

/-- Pieces in parentheses that stand apart from what is before them. -/
def inParens (inner : List Piece) : List Piece := .openParen :: inner ++ [.closeParen]

/-- Names with commas between them. -/
def names (names : List String) : List Piece := commaList (names.map fun n => [.name n])

/-- Keywords and a clause behind them, if there is a clause. -/
def clause (words : List Keyword) : Option (List Piece) → List Piece
  | some inner => keywords words ++ inner
  | none => []

/-- Keywords and a list behind them, unless the list is empty. -/
def listClause (words : List Keyword) : List (List Piece) → List Piece
  | [] => []
  | items => keywords words ++ commaList items

/-- Keywords, if a flag is set. -/
def flag (words : List Keyword) (set : Bool) : List Piece :=
  if set then keywords words else []

end Pieces

end SqlGrammar
