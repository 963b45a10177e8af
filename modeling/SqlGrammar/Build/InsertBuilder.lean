import SqlGrammar.Build.BindValue

/-!
# Building insertions

An insertion of one row, put together call by call. The row is kept beside the statement: in the
statement a place is kept free for every value.
-/

set_option autoImplicit false

namespace SqlGrammar

/-- An insertion in the making. -/
structure InsertBuilder where
  verb : InsertVerb
  schema : Option String
  table : Option String
  columns : List String
  values : List BindValue
  deriving DecidableEq, Repr, Inhabited

namespace InsertBuilder

/-- An insertion of nothing into no table. -/
def empty : InsertBuilder := ⟨.insert, none, none, [], []⟩

/-- Sets what is done with rows in the way. -/
def orElse (b : InsertBuilder) (resolution : ConflictResolution) : InsertBuilder :=
  { b with verb := .insertOr resolution }

/-- Lets the row replace rows in the way. -/
def replace (b : InsertBuilder) : InsertBuilder := { b with verb := .replace }

/-- Sets the table. -/
def intoTable (b : InsertBuilder) (table : String) : InsertBuilder := { b with table := some table }

/-- Sets the schema of the table. -/
def inSchema (b : InsertBuilder) (schema : String) : InsertBuilder :=
  { b with schema := some schema }

/-- Sets the columns that get the values. -/
def intoColumns (b : InsertBuilder) (columns : List String) : InsertBuilder := { b with columns }

/-- Adds a value at the end of the row. -/
def value {α : Type} [ToBindValue α] (b : InsertBuilder) (value : α) : InsertBuilder :=
  { b with values := b.values ++ [toBindValue value] }

/-- Sets the value at a place of the row. Places before it that have no value get null. -/
def valueAt {α : Type} [ToBindValue α] (b : InsertBuilder) (index : Nat) (value : α) :
    InsertBuilder :=
  let padding := List.replicate (index + 1 - b.values.length) BindValue.null
  { b with values := (b.values ++ padding).set index (toBindValue value) }

/-- The statement and its row, once there are a table and a value. -/
def build? (b : InsertBuilder) : Option (Insert × List BindValue) :=
  match b.table, b.values with
  | some table, _ :: _ =>
    some (⟨b.verb, ⟨b.schema, table⟩, b.columns, .values [b.values.map fun _ => .placeholder]⟩,
      b.values)
  | _, _ => none

end InsertBuilder

end SqlGrammar
