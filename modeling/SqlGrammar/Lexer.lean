import SqlGrammar.Lexer.Gap
import SqlGrammar.Lexer.Scan
import SqlGrammar.ParseError

/-!
# The lexer

Reads a text token by token. Positions are byte offsets in UTF-8. A fault is reported with the
characters it has used, and reading goes on behind them; at the end of the text every further read
gives the same end-of-input token.
-/

set_option autoImplicit false

namespace SqlGrammar

/-- The number of bytes of a text in UTF-8. -/
def utf8Length : List Char → Nat
  | [] => 0
  | c :: cs => c.utf8Size + utf8Length cs

/-- A place in a text: the characters still to be read, and the offset of the first of them. -/
structure Lexer where
  offset : Nat
  rest : List Char
  deriving DecidableEq, Repr

namespace Lexer

/-- The start of a text. -/
def ofText (text : String) : Lexer := ⟨0, text.toList⟩

/-- The place behind the gap that stands here. -/
def skipGap (l : Lexer) : Lexer :=
  let (gap, rest) := splitGap .between l.rest
  ⟨l.offset + utf8Length gap, rest⟩

/-- What a scan that started at an offset reports. -/
def report (start : Nat) (s : Scan) : Except ParseError Token :=
  let span : Span := ⟨start, start + utf8Length s.lexeme⟩
  match s.verdict with
  | .ok kind => .ok ⟨kind, String.ofList s.lexeme, span⟩
  | .error fault => .error (.lexical fault.message span)

/-- The next token or fault, and the place behind it. -/
def next (l : Lexer) : Except ParseError Token × Lexer :=
  let l := l.skipGap
  match l.rest with
  | [] => (.ok (.eof l.offset), l)
  | c :: cs =>
    let s := scan c cs
    (report l.offset s, ⟨l.offset + utf8Length s.lexeme, s.rest⟩)

/-- The first `n` results of reading on and on, or those up to the first end of input. -/
def results : Nat → Lexer → List (Except ParseError Token)
  | 0, _ => []
  | n + 1, l =>
    match l.next with
    | (.ok token, l') => .ok token :: if token.isEof then [] else results n l'
    | (.error e, l') => .error e :: results n l'

/-- The tokens in a list of results, or the first error among them. -/
def collect : List (Except ParseError Token) → Except ParseError (List Token)
  | [] => .ok []
  | .ok token :: results => (collect results).map (token :: ·)
  | .error e :: _ => .error e

end Lexer

/-- All tokens of a text, the last of them the end of the input, or the first fault. Every result
but the end of the input uses a character, so the length of the text bounds their number. -/
def tokenize (text : String) : Except ParseError (List Token) :=
  let l := Lexer.ofText text
  Lexer.collect (l.results (l.rest.length + 1))

end SqlGrammar
