import SqlGrammar.Decimal.Double

/-!
# Shortest decimals

The decimal with the fewest digits that is read back as the same double. A double stands for all
reals that are rounded to it; its ends belong to it if its mantissa is even. The multiples of
`10 ^ k` form a grid; the coarsest grid of which a point lies among those reals gives the fewest
digits, and of the two points next to the double the nearer one is taken, of two equally near ones
the upper.

Texts are positional, with digits on both sides of a point.
-/

set_option autoImplicit false

namespace SqlGrammar.Decimal

/-- The reals that are rounded to a double, over a common denominator: those between
`value - below` and `value + above`, with the ends if `closed`. -/
structure RoundingInterval where
  value : Nat
  below : Nat
  above : Nat
  denominator : Nat
  closed : Bool
  deriving DecidableEq, Repr

/-- The reals that are rounded to `mantissa * 2 ^ exponent`. Below the least mantissa of an exponent
the doubles lie twice as close. -/
def roundingInterval (mantissa : Nat) (exponent : Int) : RoundingInterval :=
  let scale := 1 <<< exponent.toNat
  let closeBelow : Bool := mantissa = Double.leadingOne ∧ exponent ≠ -1074
  { value := 4 * mantissa * scale
    below := (if closeBelow then 1 else 2) * scale
    above := 2 * scale
    denominator := 4 <<< (-exponent).toNat
    closed := mantissa % 2 = 0 }

namespace RoundingInterval

/-- Whether `point / unit` lies in the interval. -/
def contains (i : RoundingInterval) (point unit : Nat) : Bool :=
  let low := (i.value - i.below) * unit
  let high := (i.value + i.above) * unit
  let point := point * i.denominator
  if i.closed then low ≤ point && point ≤ high else low < point && point < high

/-- The point of the grid of `10 ^ k` in the interval that is nearest to its value, as a multiple
of the grid's width. -/
def gridPoint? (i : RoundingInterval) (k : Int) : Option Nat :=
  let width := Nat.pow 10 k.toNat
  let unit := Nat.pow 10 (-k).toNat
  let lower := i.value * unit / (width * i.denominator)
  let upper := lower + 1
  match i.contains (lower * width) unit, i.contains (upper * width) unit with
  | false, false => none
  | true, false => some lower
  | false, true => some upper
  | true, true =>
    let toLower := i.value * unit - lower * width * i.denominator
    let toUpper := upper * width * i.denominator - i.value * unit
    some (if toLower < toUpper then lower else upper)

/-- The point in the coarsest of several grids, the first of which is that of `10 ^ k`. -/
def coarsest (i : RoundingInterval) : (grids : Nat) → (k : Int) → Nat × Int
  | 0, k => (0, k)
  | grids + 1, k =>
    match i.gridPoint? k with
    | some point => (point, k)
    | none => coarsest i grids (k - 1)

end RoundingInterval

/-- The shortest decimal `digits * 10 ^ k` for `mantissa * 2 ^ exponent`. No double reaches
`10 ^ 309`, and none is so small that the grid of `10 ^ -324` misses it. -/
def shortest (mantissa : Nat) (exponent : Int) : Nat × Int :=
  if mantissa = 0 then (0, 0) else (roundingInterval mantissa exponent).coarsest 634 309

/-- The decimal `digits * 10 ^ k` written out, with at least one digit on either side of a
point. -/
def positional (digits : Nat) (k : Int) : String :=
  let ds := Nat.toDigits 10 digits
  if 0 ≤ k then
    String.ofList (ds ++ List.replicate k.toNat '0' ++ ['.', '0'])
  else
    let places := (-k).toNat
    let padded := List.replicate (places + 1 - ds.length) '0' ++ ds
    let whole := padded.length - places
    String.ofList (padded.take whole ++ '.' :: padded.drop whole)

/-- The shortest text of `mantissa * 2 ^ exponent`. -/
def text (mantissa : Nat) (exponent : Int) : String :=
  let (digits, k) := shortest mantissa exponent
  positional digits k

end SqlGrammar.Decimal
