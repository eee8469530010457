import Vivarium.Scalar.Binary

/-!
# The length of a right triangle's long side

`hypot x y` is `√(x² + y²)`, computed so that neither square overflows or underflows: huge and tiny
operands are scaled by a power of two first. One correction step after the square root brings the
result to within one unit in the last place.
-/

namespace Vivarium.Hypot

/-- The square root of `ax² + ay²` for `ax ≥ ay` of moderate size, less half the relative error of its
square. Which of two forms of the error is exact depends on whether `ay` is more than half the root. -/
def core (ax ay : Float) : Float :=
  let h := (ax * ax + ay * ay).sqrt
  if h ≤ 2.0 * ay then
    let d := h - ay
    h - (ax * (2.0 * d - ax) + (d - 2.0 * (ax - ay)) * d) / (2.0 * h)
  else
    let d := h - ax
    h - (2.0 * d * (ax - 2.0 * ay) + ((4.0 * d - ay) * ay + d * d)) / (2.0 * h)

/-- Both operands are multiplied by this before `core` if the larger one is huge, and divided by it if
the smaller one is tiny. -/
def scale : Float := powerOfTwo (-600)

/-- The ratio below which the smaller operand does not change the larger one's last place. -/
def epsilon : Float := powerOfTwo (-54)

/-- `core` with scaling, for `ax ≥ ay ≥ 0`. -/
def ordered (ax ay : Float) : Float :=
  if ax > powerOfTwo 511 then
    if ay ≤ ax * epsilon then ax + ay else core (ax * scale) (ay * scale) / scale
  else if ay < powerOfTwo (-459) then
    if ax ≥ ay / epsilon then ax + ay else core (ax / scale) (ay / scale) * scale
  else if ay ≤ ax * epsilon then ax + ay
  else core ax ay

end Vivarium.Hypot

namespace Vivarium

/-- `√(x² + y²)`. An infinite operand makes it infinite, whatever the other one is. -/
def hypot (x y : Float) : Float :=
  if x.isFinite && y.isFinite then
    if x.abs < y.abs then Hypot.ordered y.abs x.abs else Hypot.ordered x.abs y.abs
  else if x.isInf || y.isInf then
    1.0 / 0.0
  else
    x + y

end Vivarium
