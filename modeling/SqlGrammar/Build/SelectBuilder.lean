import SqlGrammar.Build.Expr

/-!
# Building queries

A query, put together call by call.
-/

set_option autoImplicit false

namespace SqlGrammar

/-- A query in the making: a query without its columns and its bound, which are kept apart. -/
structure SelectBuilder where
  query : Select
  columns : Option (List ResultColumn)
  limit : Option UInt64
  offset : Option UInt64

namespace SelectBuilder

/-- A query for nothing. -/
def empty : SelectBuilder := ⟨.empty, none, none, none⟩

/-! ## Columns -/

/-- Sets the result columns. -/
def resultColumns (b : SelectBuilder) (columns : List ResultColumn) : SelectBuilder :=
  { b with columns := some columns }

/-- The result column that a name stands for: all columns if the name is a star. -/
def columnOfName (name : String) : ResultColumn :=
  if name = "*" then .all else .ofExpr (.ofColumn name)

/-- Sets the result columns by their names. -/
def columnsNamed (b : SelectBuilder) (names : List String) : SelectBuilder :=
  b.resultColumns (names.map columnOfName)

/-- Makes all columns the result columns. -/
def allColumns (b : SelectBuilder) : SelectBuilder := b.resultColumns [.all]

/-- Leaves out rows that occurred before. -/
def distinct (b : SelectBuilder) : SelectBuilder := { b with query.distinct := true }

/-! ## Sources and conditions -/

/-- Adds a source. -/
def fromSource (b : SelectBuilder) (source : TableSource) : SelectBuilder :=
  { b with query.sources := b.query.sources ++ [.table source] }

/-- Adds a table as a source. -/
def fromTable (b : SelectBuilder) (table : String) : SelectBuilder := b.fromSource (.named table)

/-- Sets the condition of the rows. -/
def filterBy (b : SelectBuilder) (condition : Expr) : SelectBuilder :=
  { b with query.filter := some condition }

/-- Adds a condition to that of the rows. -/
def andFilterBy (b : SelectBuilder) (condition : Expr) : SelectBuilder :=
  match b.query.filter with
  | some existing => b.filterBy (existing.and condition)
  | none => b.filterBy condition

/-! ## Groups, order and bound -/

/-- Adds expressions by which rows are grouped. -/
def groupBy (b : SelectBuilder) (keys : List Expr) : SelectBuilder :=
  { b with query.groupBy := b.query.groupBy ++ keys }

/-- Sets the condition of the groups. -/
def having (b : SelectBuilder) (condition : Expr) : SelectBuilder :=
  { b with query.having := some condition }

/-- Adds an entry to the order of the rows. -/
def orderBy (b : SelectBuilder) (term : OrderingTerm) : SelectBuilder :=
  { b with query.orderBy := b.query.orderBy ++ [term] }

/-- Sets the greatest number of rows. -/
def limitTo (b : SelectBuilder) (rows : UInt64) : SelectBuilder := { b with limit := some rows }

/-- Sets the number of rows to skip. -/
def skip (b : SelectBuilder) (rows : UInt64) : SelectBuilder := { b with offset := some rows }

/-! ## Result -/

/-- A number of rows, or the greatest whole number if that is less. -/
def rowCount (rows : UInt64) : Expr :=
  .integer (.ofNat (min rows.toNat Int64.maxValue.toNatClampNeg))

/-- The bound of the query. Rows can be skipped only behind a bound; a negative one is none. -/
def limitClause? (b : SelectBuilder) : Option LimitClause :=
  match b.limit, b.offset with
  | none, none => none
  | some rows, offset => some ⟨rowCount rows, offset.map rowCount⟩
  | none, some rows => some ⟨.integer (-1), some (rowCount rows)⟩

/-- The query, once its columns have been set. -/
def build? (b : SelectBuilder) : Option Select :=
  b.columns.map fun columns => { b.query with columns, limit := b.limitClause? }

end SelectBuilder

end SqlGrammar
