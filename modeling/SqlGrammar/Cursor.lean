import SqlGrammar.ParseError

/-!
# Cursors

A cursor is a place among the tokens of a text: the tokens still ahead, and the end-of-input token
behind them all. Moving forward stops at any end-of-input token, and looking ahead never sees past
the last one. A cursor is a value, so that keeping one is all it takes to come back to its place.
-/

set_option autoImplicit false

namespace SqlGrammar

/-- A place among tokens. The last token of all marks the end of the input. -/
structure Cursor where
  ahead : List Token
  final : Token
  final_isEof : final.isEof = true
  deriving DecidableEq

namespace Cursor

/-- The start of a list of tokens. If the list does not end with the end of the input, an
end-of-input token is added where its last token stops. -/
def ofTokens (tokens : List Token) : Cursor :=
  match tokens.getLast? with
  | none => ⟨[], .eof 0, rfl⟩
  | some last =>
    if h : last.isEof = true then ⟨tokens.dropLast, last, h⟩
    else ⟨tokens, .eof last.span.stop, rfl⟩

/-- The token under the cursor. -/
def current (c : Cursor) : Token := c.ahead.headD c.final

/-- The token `n` places ahead, or the last one of all. -/
def peek (c : Cursor) (n : Nat) : Token := c.ahead[n]?.getD c.final

/-- The kind of the token `n` places ahead. -/
def kindAt (c : Cursor) (n : Nat) : TokenKind := (c.peek n).kind

/-- The number of tokens before the last one. -/
def remaining (c : Cursor) : Nat := c.ahead.length

/-- The cursor one token further on; it stays where it is at the end of the input. -/
def advance (c : Cursor) : Cursor :=
  match c.ahead with
  | [] => c
  | token :: ahead => if token.isEof then c else { c with ahead }

/-- Whether the cursor is at the end of the input. -/
def atEnd (c : Cursor) : Bool := c.current.isEof

/-- The error that something else was expected here. -/
def unexpected (c : Cursor) (expected : List String) : ParseError :=
  .unexpected expected c.current.kind c.current.span

/-- The error that a construct which starts here is not supported. -/
def unsupported (c : Cursor) (construct : String) : ParseError :=
  .unsupported construct c.current.span

/-- The error that more than `limit` levels are nested here. -/
def tooDeep (c : Cursor) (limit : Nat) : ParseError :=
  .tooDeep limit c.current.span

end Cursor

/-- The name under which the token calls a function: the name of an identifier, or the spelling of
a keyword that is also the name of a function. -/
def Token.callee? (t : Token) : Option String :=
  match t.kind with
  | .identifier name => some name
  | .keyword word => if word.namesFunction then some t.lexeme else none
  | _ => none

end SqlGrammar
