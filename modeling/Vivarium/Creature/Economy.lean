import Vivarium.Physics
import Vivarium.Scalar.Order

/-!
# Mass, hunger and the laser

A creature's body is a disc whose radius is the square root of its mass, so a change of mass rescales
the body about its place. Hunger stays between zero and one. A laser counts down once a tick and is
released when its time is over or one of its two bodies is gone.
-/

namespace Vivarium.Creature

/-- Adds to hunger, within zero and one. -/
def adjustHunger (c : Creature) (delta : Float) : Creature :=
  { c with hunger := clampTo 0.0 1.0 (c.hunger + delta) }

/-- Charges one tick's metabolism, `rate` per unit of mass. -/
def starve (c : Creature) (rate : Float) : Creature := c.adjustHunger (-rate * c.mass)

/-- Sets the mass, and scales the body so that its radius follows. A mass that is not positive leaves
the body as it is. -/
def setMass {E : Type} [Physics E] (c : Creature) (mass : Float) (e : E) : Creature × E :=
  let zero : Float := 0.0
  let e :=
    -- the body has the radius of the mass, so it is rescaled only between two positive ones
    if zero < c.mass ∧ zero < mass ∧ mass != c.mass then
      match Physics.position? e c.body with
      | some anchor => Physics.rescale e c.body (mass.sqrt / c.mass.sqrt) anchor
      | none        => e
    else e
  ({ c with mass }, e)

/-- Counts a laser down by one tick and moves its ends to where the bodies are. -/
def tickLaser (c : Creature) (own target : Option Vec) : Creature :=
  match c.laser, own, target with
  | some laser, some start, some stop =>
    if 0 < laser.timer then
      { c with laser := some { laser with timer := laser.timer - 1, start, stop } }
    else
      { c with laser := none }
  | _, _, _ => { c with laser := none }

end Vivarium.Creature
