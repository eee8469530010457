import Vivarium.Fault

/-!
# Comparing doubles

`lesser` and `greater` pass over a NaN: of a NaN and a number they yield the number. A clamp is only
defined between bounds that are in order, and leaves a NaN as it is.
-/

namespace Vivarium

/-- The smaller of two numbers; of a number and a NaN, the number. -/
def lesser (a b : Float) : Float :=
  if a.isNaN then b else if b < a then b else a

/-- The larger of two numbers; of a number and a NaN, the number. -/
def greater (a b : Float) : Float :=
  if a.isNaN then b else if a < b then b else a

/-- Moves `x` to the nearer end if it lies outside `[lo, hi]`. -/
def clampTo (lo hi x : Float) : Float :=
  let x := if x < lo then lo else x
  if hi < x then hi else x

/-- `clampTo` between bounds that have to be in order. -/
def checkedClamp (lo hi x : Float) : Except Fault Float :=
  if lo ≤ hi then .ok (clampTo lo hi x) else .error .crossedBounds

/-- Whether `x` lies in `[lo, hi]`. -/
def inClosed (lo hi x : Float) : Bool := lo ≤ x && x ≤ hi

end Vivarium
