import Vivarium.Decimal.Shortest

/-!
# The double nearest to a decimal

Decimals beyond the range of doubles are settled by their magnitude, so that a huge exponent costs
nothing; all others are rounded exactly.
-/

namespace Vivarium.Decimal

/-- The power of ten just above the decimal, of which `digits` must not be zero. -/
def magnitude (d : Decimal) : Int := d.exponent + (Nat.toDigits 10 d.digits).length

/-- The double nearest to the decimal; infinite above the largest double. -/
def toFloat (d : Decimal) : Float :=
  if d.digits = 0 then 0.0
  else if 310 ≤ d.magnitude then 1.0 / 0.0
  else if d.magnitude < -330 then 0.0
  else Float.ofScientific d.digits (d.exponent < 0) d.exponent.natAbs

end Vivarium.Decimal
