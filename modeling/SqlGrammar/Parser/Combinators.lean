import SqlGrammar.Parser.Basic

/-!
# Combinators

What the productions of the grammar are put together from: single terminals and sequences of them,
names, lists and choices.
-/

set_option autoImplicit false

namespace SqlGrammar.Parser

variable {G : Type} {Tree : G → Type} {α β : Type}

/-! ## Looking ahead -/

/-- The kind of the token under the cursor. -/
def kind : Parser Tree TokenKind := look 0

/-- Whether the terminal is under the cursor. -/
def isAt (t : Terminal) : Parser Tree Bool := do
  return t.accepts (← look 0)

/-- Whether the terminal is behind the token under the cursor. -/
def isNext (t : Terminal) : Parser Tree Bool := do
  return t.accepts (← look 1)

/-- Whether the terminals are ahead, the first of them at a distance. -/
def areAhead (distance : Nat) : List Terminal → Parser Tree Bool
  | [] => pure true
  | t :: ts => do
    if t.accepts (← look distance) then areAhead (distance + 1) ts else pure false

/-! ## Terminals -/

/-- Moves on by several tokens. -/
def advanceBy : Nat → Parser Tree Unit
  | 0 => pure ()
  | n + 1 => do advance; advanceBy n

/-- Takes the terminal if it is under the cursor, and says whether it was. -/
def accept (t : Terminal) : Parser Tree Bool := do
  if ← isAt t then
    advance
    return true
  else
    return false

/-- Takes the terminal. -/
def expect (t : Terminal) : Parser Tree Unit := do
  if ← accept t then return () else unexpected [t.text]

/-- Takes the terminals if all of them are ahead, and says whether they were. -/
def acceptAll (ts : List Terminal) : Parser Tree Bool := do
  if ← areAhead 0 ts then
    advanceBy ts.length
    return true
  else
    return false

/-- Takes the terminals one after the other. -/
def expectAll : List Terminal → Parser Tree Unit
  | [] => pure ()
  | t :: ts => do expect t; expectAll ts

/-- The parser behind the terminal, if the terminal is under the cursor. -/
def behind? (t : Terminal) (p : Parser Tree α) : Parser Tree (Option α) := do
  if ← accept t then return some (← p) else return none

/-! ## Names -/

/-- Takes an identifier if one is under the cursor. -/
def identifier? : Parser Tree (Option String) := do
  match ← kind with
  | .identifier name =>
    advance
    return some name
  | _ => return none

/-- Takes an identifier. -/
def identifier : Parser Tree String := do
  match ← identifier? with
  | some name => return name
  | none => unexpected ["identifier"]

/-- Takes an identifier that spells a word, whatever the case of its ASCII letters. Such a word has
a meaning in one place only and is not reserved. -/
def expectWord (word : String) : Parser Tree Unit := do
  match ← kind with
  | .identifier name =>
    if Text.upper name == Text.upper word then advance else unexpected [word]
  | _ => unexpected [word]

/-! ## Repetition -/

/-- All that a parser finds until it finds nothing. -/
def many (p : Parser Tree (Option α)) : Parser Tree (List α) :=
  iterate (fun found => do
    match ← p with
    | some x => return some (found ++ [x])
    | none => return none) []

/-- One or more items with a separator between them. -/
def separated (separator : Terminal) (item : Parser Tree α) : Parser Tree (List α) := do
  let first ← item
  let others ← many (behind? separator item)
  return first :: others

/-- One or more items with commas between them. -/
def commaSeparated (item : Parser Tree α) : Parser Tree (List α) :=
  separated Operator.comma item

/-- The parser in parentheses. -/
def parenthesized (p : Parser Tree α) : Parser Tree α := do
  expect Operator.leftParen
  let value ← p
  expect Operator.rightParen
  return value

/-- Names in parentheses, with commas between them. -/
def identifierList : Parser Tree (List String) :=
  parenthesized (commaSeparated identifier)

/-! ## Choice and end -/

/-- The entries of both lists, those of the second only where they are new. -/
def mergeExpected (known more : List String) : List String :=
  more.foldl (fun all item => if all.contains item then all else all ++ [item]) known

/-- The first of the parsers that does not fail before it has taken a token. If all of them fail
so, everything that they expected was expected. -/
def firstOf (known : List String) : List (Parser Tree α) → Parser Tree α
  | [] => unexpected known
  | p :: ps => do
    match ← attempt p with
    | .ok value => return value
    | .error expected => firstOf (mergeExpected known expected) ps

/-- Takes a final semicolon, if there is one, and then finds the end of the input. -/
def expectEnd : Parser Tree Unit := do
  let _ ← accept Operator.semicolon
  match ← kind with
  | .eof => return ()
  | _ => unexpected ["end of input"]

end SqlGrammar.Parser
