/-!
# Quoted text

Text between two quote characters, in which the quote character itself is written twice. Main
definitions: `double`, which writes the inside of a quoted text, and `close?`, which reads it up to
and including the closing quote.
-/

set_option autoImplicit false

namespace SqlGrammar.Text.Quoted

/-- Writes every quote character twice and all others once. -/
def double (quote : Char) : List Char → List Char
  | [] => []
  | c :: cs => if c = quote then quote :: quote :: double quote cs else c :: double quote cs

/-- A quoted text without its opening quote: the value it stands for, the characters it is written
with (closing quote included), and what follows. -/
structure Reading where
  value : List Char
  lexeme : List Char
  rest : List Char
  deriving DecidableEq, Repr

/-- Reads up to the first quote character that is not doubled; nothing if there is none. -/
def close? (quote : Char) : List Char → Option Reading
  | [] => none
  | [c] => if c = quote then some ⟨[], [c], []⟩ else none
  | c :: d :: cs =>
    if c = quote then
      if d = quote then
        (close? quote cs).map fun r => ⟨c :: r.value, c :: d :: r.lexeme, r.rest⟩
      else some ⟨[], [c], d :: cs⟩
    else (close? quote (d :: cs)).map fun r => ⟨c :: r.value, c :: r.lexeme, r.rest⟩

/-- The whole quoted text of a string. -/
def enclose (quote : Char) (value : String) : String :=
  String.ofList (quote :: double quote value.toList ++ [quote])

end SqlGrammar.Text.Quoted
