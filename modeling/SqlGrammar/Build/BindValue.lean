import SqlGrammar.Build.Expr
import SqlGrammar.Decimal.Shortest
import SqlGrammar.Writing.Statement

/-!
# Bind values

The values that are handed to a database beside the text of a statement, and how each is written
where it has to stand in the text.
-/

set_option autoImplicit false

namespace SqlGrammar

/-- A value for a place that a statement keeps free. -/
inductive BindValue where
  | null
  | int (value : Int64)
  | real (value : Double)
  | text (value : String)
  | blob (bytes : List UInt8)
  deriving DecidableEq, Repr, Inhabited

namespace BindValue

/-- The text of a number of a magnitude, if it is a number. Infinity is written as a number beyond
all doubles. -/
def magnitudeText? : Magnitude → Option String
  | .notANumber => none
  | .infinite => some "9e999"
  | .finite mantissa exponent => some (Decimal.text mantissa exponent)

/-- The expression of the value. What is no number is null. -/
def toExpr : BindValue → Expr
  | null => .null
  | int value => .integer value
  | real value =>
    match magnitudeText? value.magnitude with
    | none => .null
    | some digits => if value.isNegative then (Expr.number digits).negate else .number digits
  | text value => .string value
  | blob bytes => .literal (.blob bytes)

/-- The text of the value, to stand in a statement. -/
def toInlineSql (value : BindValue) : String := Rule.expr.toSql value.toExpr

end BindValue

/-! ## Values of other types -/

/-- Types whose values can be bound. -/
class ToBindValue (α : Type) where
  toBindValue : α → BindValue

export ToBindValue (toBindValue)

instance : ToBindValue BindValue := ⟨id⟩
instance : ToBindValue Bool := ⟨fun b => .int (if b then 1 else 0)⟩
instance : ToBindValue Int8 := ⟨fun n => .int n.toInt64⟩
instance : ToBindValue Int16 := ⟨fun n => .int n.toInt64⟩
instance : ToBindValue Int32 := ⟨fun n => .int n.toInt64⟩
instance : ToBindValue Int64 := ⟨.int⟩
instance : ToBindValue UInt8 := ⟨fun n => .int (.ofNat n.toNat)⟩
instance : ToBindValue UInt16 := ⟨fun n => .int (.ofNat n.toNat)⟩
instance : ToBindValue UInt32 := ⟨fun n => .int (.ofNat n.toNat)⟩
instance : ToBindValue Double := ⟨.real⟩
instance : ToBindValue String := ⟨.text⟩
instance : ToBindValue (List UInt8) := ⟨.blob⟩

instance {α : Type} [ToBindValue α] : ToBindValue (Option α) where
  toBindValue
    | some value => toBindValue value
    | none => .null

end SqlGrammar
