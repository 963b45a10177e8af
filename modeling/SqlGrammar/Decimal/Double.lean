/-!
# Doubles

A double is a word of 64 bits: a sign, eleven bits of exponent and 52 bits of fraction, as laid
down for binary floating-point numbers. Its fields are cut out of the word, and all else is
arithmetic on natural numbers.
-/

set_option autoImplicit false

namespace SqlGrammar

/-- A double, by its bits. -/
structure Double where
  bits : UInt64
  deriving DecidableEq, Repr, Inhabited

/-- What a double stands for, its sign apart: no number, infinity, or `mantissa * 2 ^ exponent`. -/
inductive Magnitude where
  | notANumber
  | infinite
  | finite (mantissa : Nat) (exponent : Int)
  deriving DecidableEq, Repr

namespace Double

/-- Whether the sign is a minus. -/
def isNegative (x : Double) : Bool := x.bits >>> 63 == 1

/-- The eleven bits of the exponent. -/
def exponentField (x : Double) : Nat := ((x.bits >>> 52) &&& 0x7FF).toNat

/-- The 52 bits of the fraction. -/
def fraction (x : Double) : Nat := (x.bits &&& 0xFFFFFFFFFFFFF).toNat

/-- The leading one of a mantissa, which stands above the bits of the fraction. -/
def leadingOne : Nat := 1 <<< 52

/-- What the double stands for, its sign apart. -/
def magnitude (x : Double) : Magnitude :=
  if x.exponentField = 2047 then
    if x.fraction = 0 then .infinite else .notANumber
  else if x.exponentField = 0 then .finite x.fraction (-1074)
  else .finite (leadingOne + x.fraction) ((x.exponentField : Int) - 1075)

/-- Whether the double is no number. -/
def isNaN (x : Double) : Bool := x.magnitude == .notANumber

/-- The double with these fields. -/
def ofFields (negative : Bool) (exponentField fraction : Nat) : Double :=
  ⟨UInt64.ofNat ((if negative then 1 <<< 63 else 0) + (exponentField <<< 52) + fraction)⟩

/-- The double of the same value as a number of 32 bits, which has eight bits of exponent and 23 of
fraction. Every such number but those close to zero keeps its fraction; those close to zero are
brought to a leading one. -/
def ofSingleBits (bits : UInt32) : Double :=
  let negative := bits >>> 31 == 1
  let exponentField := ((bits >>> 23) &&& 0xFF).toNat
  let fraction := (bits &&& 0x7FFFFF).toNat
  if exponentField = 255 then ofFields negative 2047 (fraction <<< 29)
  else if exponentField = 0 then
    if fraction = 0 then ofFields negative 0 0
    else
      let lead := fraction.log2
      ofFields negative (lead + 874) ((fraction - 1 <<< lead) <<< (52 - lead))
  else ofFields negative (exponentField + 896) (fraction <<< 29)

end Double

end SqlGrammar
