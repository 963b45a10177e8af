import SqlGrammar.Grammar.Statement
import SqlGrammar.Lexer
import SqlGrammar.Parser.Run

/-!
# Parsing texts

The entry points: a text, or a cursor over tokens, is parsed as one rule of the grammar.
-/

set_option autoImplicit false

namespace SqlGrammar

/-- The number of levels that may be nested unless another number is given. -/
def defaultMaxDepth : Nat := 200

/-- A cursor at the start of a text. -/
def Cursor.ofText (text : String) : Except ParseError Cursor :=
  (tokenize text).map .ofTokens

namespace Grammar

/-- What a parser does with a cursor before any level has been used. -/
def run {α : Type} (maxDepth : Nat) (p : Production α) : Action α :=
  p.runTop productions maxDepth

/-- A tree of a rule, up to the end of the input. -/
def whole (r : Rule) : Production r.Tree := do
  let tree ← r.parse
  Parser.expectEnd
  return tree

end Grammar

/-- Parses a whole text, but for a final semicolon, as one tree of a rule. -/
def parseRule (r : Rule) (text : String) (maxDepth : Nat) : Except ParseError r.Tree := do
  let cursor ← Cursor.ofText text
  (Grammar.run maxDepth (Grammar.whole r) cursor).toExcept

/-- Parsing a text is running the rule from the start of its tokens. -/
theorem parseRule_of_ofText {r : Rule} {text : String} {maxDepth : Nat} {c : Cursor}
    (h : Cursor.ofText text = .ok c) :
    parseRule r text maxDepth = (Grammar.run maxDepth (Grammar.whole r) c).toExcept := by
  simp only [parseRule, h, bind, Except.bind]

theorem parseRule_of_fault {r : Rule} {text : String} {maxDepth : Nat} {error : ParseError}
    (h : Cursor.ofText text = .error error) : parseRule r text maxDepth = .error error := by
  simp only [parseRule, h, bind, Except.bind]

/-- Parses a whole text as one statement. -/
def parseStatement (text : String) : Except ParseError Statement :=
  parseRule .statement text defaultMaxDepth

end SqlGrammar
