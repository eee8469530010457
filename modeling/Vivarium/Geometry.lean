import Vivarium.Scalar.Hypot

/-!
# Plane vectors and headings

Positions, forces and velocities are plane vectors in world units; headings are angles in radians,
measured from the first axis towards the second.
-/

namespace Vivarium

/-- Half a turn. -/
def halfTurn : Float := 3.141592653589793

/-- A full turn. -/
def fullTurn : Float := 6.283185307179586

/-- A vector in the plane. -/
structure Vec where
  x : Float
  y : Float
deriving DecidableEq, Repr

namespace Vec

/-- The origin. -/
def zero : Vec := ⟨0.0, 0.0⟩

instance : Inhabited Vec := ⟨zero⟩

/-- The vector of length `magnitude` with heading `angle`. -/
def ofAngle (angle magnitude : Float) : Vec := ⟨magnitude * angle.cos, magnitude * angle.sin⟩

def add (a b : Vec) : Vec := ⟨a.x + b.x, a.y + b.y⟩

def sub (a b : Vec) : Vec := ⟨a.x - b.x, a.y - b.y⟩

def scale (a : Vec) (k : Float) : Vec := ⟨a.x * k, a.y * k⟩

def length (a : Vec) : Float := hypot a.x a.y

def distance (a b : Vec) : Float := (b.sub a).length

/-- The heading from `a` to `b`. -/
def angleTo (a b : Vec) : Float := Float.atan2 (b.y - a.y) (b.x - a.x)

/-- The heading at `a` away from `b`: the heading to `b` less half a turn, brought into `[0, fullTurn]`
by adding a full turn if it is negative. A full turn backwards is exactly minus zero. -/
def angleAwayFrom (a b : Vec) : Float :=
  let back := a.angleTo b - halfTurn
  if back == -fullTurn then -0.0
  else if back < 0.0 then back + fullTurn
  else back

end Vec

end Vivarium
