import SqlGrammar.Grammar.Goal

/-!
# The grammar of queries

Result columns, table sources and the clauses of a query. Joins, compound queries, common tables
and queries as sources are recognised where they would stand, and refused by name.
-/

set_option autoImplicit false

namespace SqlGrammar.Grammar

open SqlGrammar.Parser Keyword

/-! ## Columns and order -/

/-- Another name for what was just read, behind `AS` or by itself. -/
def aliasName? : Production (Option String) := do
  if ← accept AS then some <$> identifier else identifier?

/-- A result column. -/
def resultColumn : Production ResultColumn := do
  if ← accept Operator.star then
    return .all
  -- told from an expression by the star, which is two tokens behind the name
  else if (← kind).isIdentifier && (← areAhead 1 [Operator.dot, Operator.star]) then
    let table ← identifier
    expectAll [Operator.dot, Operator.star]
    return .allOf table
  else
    let value ← Rule.expr.parse
    return .expr value (← aliasName?)

/-- A sort direction, if one is there. -/
def direction? : Production (Option SortDirection) := do
  if ← accept ASC then return some .asc
  else if ← accept DESC then return some .desc
  else return none

/-- An entry of the order of a query. -/
def orderingTerm : Production OrderingTerm := do
  let key ← Rule.expr.parse
  return ⟨key, ← direction?⟩

/-! ## Sources -/

/-- A name with its schema or without. -/
def qualifiedName : Production QualifiedName := do
  let first ← identifier
  if ← accept Operator.dot then
    return ⟨some first, ← identifier⟩
  else
    return .bare first

/-- What a source says about its index. -/
def indexHint? : Production (Option IndexHint) := do
  if ← acceptAll [INDEXED, BY] then
    return some (.indexedBy (← identifier))
  else if ← acceptAll [NOT, INDEXED] then
    return some .notIndexed
  else
    return none

/-- A table as a source. -/
def tableSource : Production TableSource := do
  if ← isAt Operator.leftParen then unsupported "sub-query table source"
  else
    let table ← qualifiedName
    let aliasName ← aliasName?
    return ⟨table, aliasName, ← indexHint?⟩

/-- Whether a token of this kind starts or goes on a join. -/
def startsJoin : TokenKind → Bool
  | .keyword .JOIN | .keyword .INNER | .keyword .LEFT | .keyword .OUTER | .keyword .CROSS
  | .keyword .NATURAL | .keyword .ON | .keyword .USING => true
  | _ => false

/-- A join, which is refused wherever one could stand. -/
def joinClause : Production JoinClause := do
  let now ← kind
  if startsJoin now || now.isIdentifier || now == .operator .leftParen then
    unsupported "JOIN clause"
  else
    unexpected ["JOIN"]

/-- An entry of the list of sources. -/
def selectSource : Production SelectSource :=
  firstOf [] [.table <$> Rule.tableSource.parse, .join <$> Rule.joinClause.parse]

/-- The sources of a query. No join may follow them. -/
def sources : Production (List SelectSource) := do
  if ← accept FROM then
    let sources ← commaSeparated Rule.selectSource.parse
    if startsJoin (← kind) then unsupported "JOIN clause" else return sources
  else
    return []

/-! ## Queries -/

/-- One or more items behind the terminals, if they are there. -/
def listBehind {α : Type} (ts : List Terminal) (item : Production α) : Production (List α) := do
  if ← acceptAll ts then commaSeparated item else return []

/-- The groups of a query, and what is demanded of them. -/
def grouping : Production (List Expr × Option Expr) := do
  if ← acceptAll [GROUP, BY] then
    let groupBy ← commaSeparated Rule.expr.parse
    return (groupBy, ← behind? HAVING Rule.expr.parse)
  else
    return ([], none)

/-- The bound of a query, its `LIMIT` having been read. Before a comma stands the offset. -/
def limitClause : Production LimitClause := do
  let first ← Rule.expr.parse
  if ← accept OFFSET then
    return ⟨first, some (← Rule.expr.parse)⟩
  else if ← accept Operator.comma then
    return ⟨← Rule.expr.parse, some first⟩
  else
    return ⟨first, none⟩

/-- Refuses a query that is to be combined with another. -/
def refuseCompound : Production Unit := do
  match ← kind with
  | .keyword .UNION | .keyword .INTERSECT | .keyword .EXCEPT => unsupported "compound SELECT"
  | _ => return ()

/-- The choice between distinct rows and all rows. -/
def distinct : Production Bool := do
  if ← accept DISTINCT then
    return true
  else
    let _ ← accept ALL
    return false

/-- A query. -/
def select : Production Select := do
  if ← isAt WITH then unsupported "common table expression"
  else
    expect SELECT
    let distinct ← distinct
    let columns ← commaSeparated Rule.resultColumn.parse
    let sources ← sources
    let filter ← behind? WHERE Rule.expr.parse
    let (groupBy, having) ← grouping
    -- another query may be added here, or behind the bound
    refuseCompound
    let orderBy ← listBehind [ORDER, BY] Rule.orderingTerm.parse
    let limit ← behind? LIMIT limitClause
    refuseCompound
    return { distinct, columns, sources, filter, groupBy, having, orderBy, limit }

end SqlGrammar.Grammar
