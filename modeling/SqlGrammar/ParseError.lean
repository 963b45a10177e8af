import SqlGrammar.Token

/-!
# Parse errors

The four causes why a text is refused, where each was met, and the wording of its message.
-/

set_option autoImplicit false

namespace SqlGrammar

/-- Why a text is refused, and where. -/
inductive ParseError where
  | lexical (message : String) (span : Span)
  | unexpected (expected : List String) (found : TokenKind) (span : Span)
  | unsupported (construct : String) (span : Span)
  | tooDeep (limit : Nat) (span : Span)
  deriving DecidableEq, Repr

namespace ParseError

/-- Where the fault was met. -/
def span : ParseError → Span
  | lexical _ span => span
  | unexpected _ _ span => span
  | unsupported _ span => span
  | tooDeep _ span => span

/-- What would have been accepted instead; empty unless the error is an unexpected token. -/
def expected : ParseError → List String
  | unexpected expected _ _ => expected
  | _ => []

/-- Whether the error is an unexpected token that starts at the offset. -/
def isMismatchAt (offset : Nat) : ParseError → Bool
  | unexpected _ _ span => span.start == offset
  | _ => false

/-- A list of choices in words: commas between them and an `or` before the last. -/
def choices : List String → String
  | [] => "something else"
  | [only] => only
  | first :: rest =>
    ", ".intercalate (first :: rest.dropLast) ++ " or " ++ rest.getLastD ""

/-- The message for a reader. -/
def message : ParseError → String
  | lexical message span => message ++ " at position " ++ toString span.start
  | unexpected expected found span =>
    "expected " ++ choices expected ++ " but found " ++ found.describe ++ " at position " ++
      toString span.start
  | unsupported construct span =>
    "unsupported construct: " ++ construct ++ " at position " ++ toString span.start
  | tooDeep limit span =>
    "nesting deeper than " ++ toString limit ++ " levels at position " ++ toString span.start

end ParseError

end SqlGrammar
