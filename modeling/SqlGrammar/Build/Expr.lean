import SqlGrammar.Tree.Expr

/-!
# Building expressions

Short names for expressions that are put together by hand.
-/

set_option autoImplicit false

namespace SqlGrammar

namespace Expr

/-! ## Operands -/

/-- A column by its name alone. -/
def ofColumn (name : String) : Expr := column none none name

/-- A column of a table. -/
def ofTableColumn (table name : String) : Expr := column none (some table) name

/-- A number with the given text. -/
def number (text : String) : Expr := literal (.number text)

/-- A string. -/
def string (value : String) : Expr := literal (.string value)

/-- Null. -/
def null : Expr := literal .null

/-- A place for a value. -/
def placeholder : Expr := parameter "?"

/-- A call of a function. -/
def ofCall (name : String) (args : List Expr) : Expr := call ⟨name, .list false args⟩

/-- The number of rows. -/
def countAll : Expr := call ⟨"count", .star⟩

/-! ## Operators -/

/-- The expression with the other sign. -/
def negate (e : Expr) : Expr := unary .neg e

/-- The opposite of a condition. -/
def not (e : Expr) : Expr := unary .not e

/-- A whole number. A negative one is the negation of its magnitude. -/
def integer (value : Int64) : Expr :=
  let magnitude := number (toString value.toInt.natAbs)
  if value < 0 then magnitude.negate else magnitude

/-- Whether two values are equal. -/
def equals (left right : Expr) : Expr := binary left .eq right

/-- Whether two values differ. -/
def differs (left right : Expr) : Expr := binary left .notEq right

/-- Whether a value is less than another. -/
def less (left right : Expr) : Expr := binary left .lt right

/-- Whether a value is at most another. -/
def atMost (left right : Expr) : Expr := binary left .le right

/-- Whether a value is greater than another. -/
def greater (left right : Expr) : Expr := binary left .gt right

/-- Whether a value is at least another. -/
def atLeast (left right : Expr) : Expr := binary left .ge right

/-- Whether both conditions hold. -/
def and (left right : Expr) : Expr := binary left .and right

/-- Whether one of two conditions holds. -/
def or (left right : Expr) : Expr := binary left .or right

/-- Whether a value is like a pattern. -/
def isLike (subject pattern : Expr) : Expr := like subject .like pattern none false

/-- Whether a value is one of a list. -/
def isOneOf (subject : Expr) (items : List Expr) : Expr := within subject (.values items) false

/-- Whether a value is none of a list. -/
def isNoneOf (subject : Expr) (items : List Expr) : Expr := within subject (.values items) true

end Expr

namespace ResultColumn

/-- An expression under no other name. -/
def ofExpr (value : Expr) : ResultColumn := expr value none

/-- An expression under another name. -/
def aliased (value : Expr) (aliasName : String) : ResultColumn := expr value (some aliasName)

end ResultColumn

namespace OrderingTerm

/-- An ascending order. -/
def ascending (key : Expr) : OrderingTerm := ⟨key, some .asc⟩

/-- A descending order. -/
def descending (key : Expr) : OrderingTerm := ⟨key, some .desc⟩

end OrderingTerm

end SqlGrammar
