import SqlGrammar.Grammar.Definition

/-!
# The grammar of data statements

Insertions, updates and deletions.
-/

set_option autoImplicit false

namespace SqlGrammar.Grammar

open SqlGrammar.Parser Keyword

/-! ## Insertions -/

/-- How an insertion treats rows that are in the way. -/
def insertVerb : Production InsertVerb := do
  if ← accept REPLACE then
    return .replace
  else
    expect INSERT
    match ← behind? OR conflictResolution with
    | some resolution => return .insertOr resolution
    | none => return .insert

/-- A row of values. -/
def row : Production (List Expr) := parenthesized (commaSeparated Rule.expr.parse)

/-- Where inserted rows come from. -/
def insertSource : Production InsertSource := do
  if ← acceptAll [DEFAULT, VALUES] then
    return .defaults
  else if ← accept VALUES then
    return .values (← commaSeparated row)
  else if (← isAt SELECT) || (← isAt WITH) then
    return .query (← Rule.select.parse)
  else
    unexpected ["VALUES", "SELECT", "DEFAULT"]

/-- An insertion. -/
def insert : Production Insert := do
  let verb ← insertVerb
  expect INTO
  let table ← qualifiedName
  let columns ← identifierList?
  return ⟨verb, table, columns, ← insertSource⟩

/-! ## Updates and deletions -/

/-- A new value for a column. -/
def assignment : Production Assignment := do
  let column ← identifier
  expect Operator.eq
  return ⟨column, ← Rule.expr.parse⟩

/-- The condition that picks rows, if there is one. -/
def filter? : Production (Option Expr) := behind? WHERE Rule.expr.parse

/-- An update. -/
def update : Production Update := do
  expect UPDATE
  let orConflict ← behind? OR conflictResolution
  let table ← qualifiedName
  expect SET
  let assignments ← commaSeparated Rule.assignment.parse
  return ⟨orConflict, table, assignments, ← filter?⟩

/-- A deletion. -/
def delete : Production Delete := do
  expectAll [DELETE, FROM]
  let table ← qualifiedName
  return ⟨table, ← filter?⟩

end SqlGrammar.Grammar
