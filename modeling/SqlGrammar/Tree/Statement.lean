import SqlGrammar.Tree.Definition

/-!
# Statements

The ten kinds of statements. A trigger holds statements in its body, so that these two types are
declared together, with a decidable equality of their own.
-/

set_option autoImplicit false

namespace SqlGrammar

/-! ## Data -/

/-- How an insertion treats rows that are in the way. -/
inductive InsertVerb where
  | insert
  | replace
  | insertOr (resolution : ConflictResolution)
  deriving DecidableEq, Repr, Inhabited

/-- Where inserted rows come from. -/
inductive InsertSource where
  | values (rows : List (List Expr))
  | query (query : Select)
  | defaults
  deriving DecidableEq

/-- An insertion of rows into a table. -/
structure Insert where
  verb : InsertVerb
  table : QualifiedName
  columns : List String
  source : InsertSource
  deriving DecidableEq

/-- A new value for a column. -/
structure Assignment where
  column : String
  value : Expr
  deriving DecidableEq

/-- A change of rows of a table. -/
structure Update where
  orConflict : Option ConflictResolution
  table : QualifiedName
  assignments : List Assignment
  filter : Option Expr
  deriving DecidableEq

/-- A removal of rows from a table. -/
structure Delete where
  table : QualifiedName
  filter : Option Expr
  deriving DecidableEq

/-! ## Schema -/

/-- What a new table is made of. -/
inductive TableBody where
  | columns (columns : List ColumnDefinition) (constraints : List TableConstraint)
      (withoutRowid : Bool)
  | asSelect (query : Select)
  deriving DecidableEq

/-- A new table. -/
structure CreateTable where
  temporary : Bool
  ifNotExists : Bool
  name : QualifiedName
  body : TableBody
  deriving DecidableEq

namespace CreateTable

/-- A table of these columns. -/
def withColumns (name : String) (columns : List ColumnDefinition) : CreateTable :=
  ⟨false, false, .bare name, .columns columns [] false⟩

/-- The columns that the statement itself defines. -/
def columns (statement : CreateTable) : List ColumnDefinition :=
  match statement.body with
  | .columns columns _ _ => columns
  | .asSelect _ => []

end CreateTable

/-- A new index. -/
structure CreateIndex where
  unique : Bool
  ifNotExists : Bool
  name : QualifiedName
  table : String
  columns : List IndexedColumn
  filter : Option Expr
  deriving DecidableEq

/-- A new view. -/
structure CreateView where
  temporary : Bool
  ifNotExists : Bool
  name : QualifiedName
  columns : List String
  query : Select
  deriving DecidableEq

/-- When a trigger runs, relative to the event. -/
inductive TriggerTiming where
  | before | after | insteadOf
  deriving DecidableEq, Repr, Inhabited

/-- The event that sets a trigger off. -/
inductive TriggerEvent where
  | delete
  | insert
  | update (columns : List String)
  deriving DecidableEq, Repr, Inhabited

/-- The kinds of objects that can be dropped. -/
inductive ObjectKind where
  | table | index | view | trigger
  deriving DecidableEq, Repr, Inhabited

/-- The keyword that writes the kind. -/
def ObjectKind.keyword : ObjectKind → Keyword
  | table => .TABLE
  | index => .INDEX
  | view => .VIEW
  | trigger => .TRIGGER

/-- The removal of an object of the schema. -/
structure Drop where
  kind : ObjectKind
  ifExists : Bool
  name : QualifiedName
  deriving DecidableEq, Repr

/-- What is changed about a table. -/
inductive AlterAction where
  | renameTo (name : String)
  | addColumn (column : ColumnDefinition)
  deriving DecidableEq

/-- A change of the definition of a table. -/
structure Alter where
  table : QualifiedName
  action : AlterAction
  deriving DecidableEq

/-! ## All statements -/

mutual

/-- A statement. -/
inductive Statement where
  | select (statement : Select)
  | insert (statement : Insert)
  | update (statement : Update)
  | delete (statement : Delete)
  | createTable (statement : CreateTable)
  | createIndex (statement : CreateIndex)
  | createView (statement : CreateView)
  | createTrigger (statement : CreateTrigger)
  | drop (statement : Drop)
  | alter (statement : Alter)

/-- A new trigger. -/
structure CreateTrigger where
  temporary : Bool
  ifNotExists : Bool
  name : QualifiedName
  timing : Option TriggerTiming
  event : TriggerEvent
  table : String
  forEachRow : Bool
  condition : Option Expr
  body : List Statement

end

/-! ## Equality -/

mutual

/-- Whether two statements are the same tree. -/
def Statement.same : Statement → Statement → Bool
  | .select a, .select b => a == b
  | .insert a, .insert b => a == b
  | .update a, .update b => a == b
  | .delete a, .delete b => a == b
  | .createTable a, .createTable b => a == b
  | .createIndex a, .createIndex b => a == b
  | .createView a, .createView b => a == b
  | .createTrigger a, .createTrigger b => a.same b
  | .drop a, .drop b => a == b
  | .alter a, .alter b => a == b
  | _, _ => false
termination_by structural a => a

/-- Whether two triggers are the same tree. -/
def CreateTrigger.same : CreateTrigger → CreateTrigger → Bool
  | ⟨t, i, n, m, e, b, r, c, s⟩, ⟨t', i', n', m', e', b', r', c', s'⟩ =>
    t == t' && i == i' && n == n' && m == m' && e == e' && b == b' && r == r' && c == c' &&
      sameStatements s s'
termination_by structural a => a

/-- Whether two lists of statements are the same. -/
def sameStatements : List Statement → List Statement → Bool
  | [], [] => true
  | a :: as, b :: bs => a.same b && sameStatements as bs
  | _, _ => false
termination_by structural a => a

end

mutual

/-- `Statement.same` is equality, by recursion together with triggers and their steps. -/
theorem Statement.same_iff : ∀ a b : Statement, a.same b = true ↔ a = b
  | .select _, b | .insert _, b | .update _, b | .delete _, b | .createTable _, b
  | .createIndex _, b | .createView _, b | .drop _, b | .alter _, b => by
    cases b <;> simp [Statement.same]
  | .createTrigger t, b => by cases b <;> simp [Statement.same, CreateTrigger.same_iff t]
termination_by structural a => a

theorem CreateTrigger.same_iff : ∀ a b : CreateTrigger, a.same b = true ↔ a = b
  | ⟨_, _, _, _, _, _, _, _, body⟩, ⟨_, _, _, _, _, _, _, _, _⟩ => by
    simp [CreateTrigger.same, sameStatements_iff body, and_assoc]
termination_by structural a => a

theorem sameStatements_iff : ∀ as bs : List Statement, sameStatements as bs = true ↔ as = bs
  | [], bs => by cases bs <;> simp [sameStatements]
  | a :: as, bs => by
    cases bs <;> simp [sameStatements, Statement.same_iff a, sameStatements_iff as]
termination_by structural a => a

end

instance : DecidableEq Statement := fun a b => decidable_of_iff _ (a.same_iff b)
instance : DecidableEq CreateTrigger := fun a b => decidable_of_iff _ (a.same_iff b)

end SqlGrammar
