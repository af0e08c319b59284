import Conformance.Numeral.Width

/-!
# The range of double precision

Which decimal numbers are too large for double precision.  A number is a coefficient
scaled by a power of ten.  Of the digits of the coefficient only those count that make
up an integer of 64 bits, from the first on; they and the power of ten are rounded to
double precision, and the number is in range if the product of the two does not round
to infinity.  Close to the end of the range this differs from rounding the number
itself, once.
-/

namespace Conformance.Numeral

/-- The multiple of `unit` nearest to a number; of two that are equally near, the even
multiple. -/
def roundTo (unit n : Nat) : Nat :=
  let below := n / unit
  let rest := n % unit
  if 2 * rest < unit ∨ (2 * rest = unit ∧ below % 2 = 0) then below * unit
  else (below + 1) * unit

/-- The number of significant binary digits of double precision. -/
def doublePrecision : Nat := 53

/-- A number rounded to the significant digits of double precision. -/
def roundToDouble (n : Nat) : Nat := roundTo (Nat.pow 2 (bitLength n - doublePrecision)) n

/-- The least number that rounds to infinity: it is halfway between the largest number
of double precision and the next power of two. -/
def doubleOverflow : Nat := Nat.pow 2 1024 - Nat.pow 2 970

/-- The largest power of ten in the range of double precision. -/
def maxDoublePower : Nat := 308

/-- The number of decimal digits of a natural number. -/
def digitCount (n : Nat) : Nat := (toString n).length

/-- The longest start of the decimal digits of a number that fits 64 bits, and how many
digits it leaves out.  A number of 64 bits has at most 20 digits, and 19 digits always
fit. -/
def leadingDigits (n : Nat) : Nat × Nat :=
  if n < Nat.pow 2 64 then (n, 0)
  else
    let surplus := digitCount n - 20
    let lead := n / Nat.pow 10 surplus
    if lead < Nat.pow 2 64 then (lead, surplus) else (lead / 10, surplus + 1)

/-- Whether `coefficient * 10 ^ exponent` is in the range of double precision. -/
def inDoubleRange (coefficient : Nat) (exponent : Int) : Bool :=
  let (lead, left) := leadingDigits coefficient
  let power := exponent + left
  lead = 0 || power ≤ 0 || (power ≤ maxDoublePower &&
    roundToDouble lead * roundToDouble (Nat.pow 10 power.toNat) < doubleOverflow)

end Conformance.Numeral
