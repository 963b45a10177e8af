import SqlGrammar.Keyword
import SqlGrammar.Operator
import SqlGrammar.Span

/-!
# Tokens

A token is a kind together with its spelling and its place in the source text. The grammar looks at
kinds; spelling and place serve messages, and the spelling also names the functions that are called
by a keyword.
-/

set_option autoImplicit false

namespace SqlGrammar

/-- What a token is, with the value that it carries. -/
inductive TokenKind where
  | keyword (word : Keyword)
  | operator (sign : Operator)
  | identifier (name : String)
  | number (text : String)
  | string (value : String)
  | blob (bytes : List UInt8)
  | parameter (text : String)
  | eof
  deriving DecidableEq, Repr, Inhabited

namespace TokenKind

/-- The words for a kind in messages. -/
def describe : TokenKind → String
  | keyword word => "keyword " ++ word.text
  | operator sign => "'" ++ sign.text ++ "'"
  | identifier name => "identifier \"" ++ name ++ "\""
  | number text => "number " ++ text
  | string value => "string '" ++ value ++ "'"
  | blob bytes => "blob of " ++ toString bytes.length ++ " bytes"
  | parameter text => "parameter " ++ text
  | eof => "end of input"

/-- The keyword that the kind is. -/
def keyword? : TokenKind → Option Keyword
  | keyword word => some word
  | _ => none

/-- The name that the kind carries, if it is an identifier. -/
def identifier? : TokenKind → Option String
  | identifier name => some name
  | _ => none

/-- Whether the kind is an identifier. -/
def isIdentifier : TokenKind → Bool
  | identifier _ => true
  | _ => false

/-- Whether the kind is a number. -/
def isNumber : TokenKind → Bool
  | number _ => true
  | _ => false

end TokenKind

/-- A token of the source text: its kind, the text as written and where that text stands. -/
structure Token where
  kind : TokenKind
  lexeme : String
  span : Span
  deriving DecidableEq, Repr, Inhabited

namespace Token

/-- The end-of-input token at an offset. -/
def eof (offset : Nat) : Token := ⟨.eof, "", .point offset⟩

/-- Whether the token marks the end of the input. -/
def isEof (t : Token) : Bool := t.kind == .eof

end Token

/-- A fixed word or sign of the grammar. -/
inductive Terminal where
  | keyword (word : Keyword)
  | operator (sign : Operator)
  deriving DecidableEq, Repr, Inhabited

namespace Terminal

instance : Coe Keyword Terminal := ⟨keyword⟩
instance : Coe Operator Terminal := ⟨operator⟩

/-- The canonical spelling. -/
def text : Terminal → String
  | keyword word => word.text
  | operator sign => sign.text

/-- The kind of the tokens that the terminal stands for. -/
def kind : Terminal → TokenKind
  | keyword word => .keyword word
  | operator sign => .operator sign

/-- Whether a token of this kind is the terminal. -/
def accepts (t : Terminal) (kind : TokenKind) : Bool := kind == t.kind

end Terminal

end SqlGrammar
