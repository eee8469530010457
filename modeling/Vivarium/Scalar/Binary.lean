import Vivarium.Scalar.Power

/-!
# Doubles as integers times powers of two

A finite double is `± mantissa * 2 ^ exponent` with a mantissa below `2 ^ 53`. This view is what exact
questions about doubles are answered on: the whole number below one, what is left of one after division
by another, or its shortest decimal text.
-/

namespace Vivarium

/-- A finite double, taken apart. -/
structure Binary where
  negative : Bool
  mantissa : Nat
  exponent : Int
deriving DecidableEq, Repr

namespace Binary

/-- The parts of a finite double. The smallest exponent belongs to the subnormal numbers and to zero,
whose mantissa lacks the implicit leading bit. -/
def ofFloat (x : Float) : Binary :=
  let bits := x.toBits.toNat
  let fraction := bits % twoTo 52
  let field : Nat := bits / twoTo 52 % 2048
  { negative := twoTo 63 ≤ bits
    mantissa := if field = 0 then fraction else twoTo 52 + fraction
    exponent := if field = 0 then -1074 else (field : Int) - 1075 }

/-- The largest integer not above the value. -/
def floor (b : Binary) : Int :=
  let signed : Int := if b.negative then -b.mantissa else b.mantissa
  if 0 ≤ b.exponent then signed * twoTo b.exponent.toNat else signed / twoTo (-b.exponent).toNat

end Binary

/-- The largest integer not above a finite double. -/
def floorInt (x : Float) : Int := (Binary.ofFloat x).floor

/-- The double nearest to an integer. -/
def floatOfInt (n : Int) : Float :=
  if n < 0 then -Float.ofNat n.natAbs else Float.ofNat n.natAbs

/-- The double `2 ^ e`, for `e` between `-1022` and `1023`. -/
def powerOfTwo (e : Int) : Float := Float.ofBits ((e + 1023).toNat.toUInt64 <<< 52)

/-- The double that has these parts. The power of two is multiplied in by halves, since half of any
exponent is that of a normal number. -/
def Binary.toFloat (b : Binary) : Float :=
  let half := b.exponent / 2
  let x := Float.ofNat b.mantissa * powerOfTwo half * powerOfTwo (b.exponent - half)
  if b.negative then -x else x

/-- What is left of `x` when `y` has been taken off its magnitude as often as possible, with the sign of
`x`. Nothing is rounded: of two finite doubles the larger has no smaller exponent, so its mantissa is a
whole number of units of the other. -/
def remainder (x y : Float) : Float :=
  if !x.isFinite || y.isNaN || y == 0.0 then 0.0 / 0.0
  else if x.abs < y.abs then x
  else
    let a := Binary.ofFloat x
    let b := Binary.ofFloat y
    let left := a.mantissa * twoTo (a.exponent - b.exponent).toNat % b.mantissa
    Binary.toFloat { a with mantissa := left, exponent := b.exponent }

end Vivarium
