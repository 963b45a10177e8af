import SqlGrammar.Text.CharClass

/-!
# Gaps between tokens

A gap is what stands between two tokens: blanks, comments from `--` to the end of the line, and
comments from a slash and star to the first star and slash. Either kind of comment may also end
with the text. `splitGap` cuts the longest gap off the front of a text.
-/

set_option autoImplicit false

namespace SqlGrammar.Lexer

/-- Where in a gap the reader stands. -/
inductive GapPlace where
  | between
  | lineComment
  | blockComment
  deriving DecidableEq, Repr

/-- The longest gap at the front of a text, and the rest. The newline that ends a line comment is
read as a blank after it. -/
def splitGap : GapPlace → List Char → List Char × List Char
  | _, [] => ([], [])
  | .between, '-' :: '-' :: cs =>
    let (gap, rest) := splitGap .lineComment cs
    ('-' :: '-' :: gap, rest)
  | .between, '/' :: '*' :: cs =>
    let (gap, rest) := splitGap .blockComment cs
    ('/' :: '*' :: gap, rest)
  | .between, c :: cs =>
    if Text.isBlank c then
      let (gap, rest) := splitGap .between cs
      (c :: gap, rest)
    else ([], c :: cs)
  | .lineComment, '\n' :: cs =>
    let (gap, rest) := splitGap .between cs
    ('\n' :: gap, rest)
  | .lineComment, c :: cs =>
    let (gap, rest) := splitGap .lineComment cs
    (c :: gap, rest)
  | .blockComment, '*' :: '/' :: cs =>
    let (gap, rest) := splitGap .between cs
    ('*' :: '/' :: gap, rest)
  | .blockComment, c :: cs =>
    let (gap, rest) := splitGap .blockComment cs
    (c :: gap, rest)

/-- The gap and what follows it make up the text. -/
theorem splitGap_append (place : GapPlace) (cs : List Char) :
    (splitGap place cs).1 ++ (splitGap place cs).2 = cs := by
  fun_induction splitGap place cs <;> simp_all

end SqlGrammar.Lexer
