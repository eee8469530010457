import Vivarium.Creature.Basic

/-!
# The engine

The simulation neither moves bodies nor looks for contacts itself. It leaves both to an engine: it puts
discs into it, pushes and scales them, takes them out, and asks where they are and which of them overlap.
Any engine will do; `Enclosure` is the one that runs are made with.
-/

namespace Vivarium

/-- What a body belongs to. -/
inductive Layer where
  | creature
  | food
deriving DecidableEq, Repr

/-- What an engine does. A step may break off, nothing else. -/
class Physics (E : Type) where
  /-- Puts a disc of a radius at a position. The handle stands for it from then on. -/
  addBody     : E → (radius : Float) → (position : Vec) → Layer → Handle × E
  removeBody  : E → Handle → E
  /-- Pushes a body with a force. -/
  push        : E → Handle → (force : Vec) → E
  /-- Scales a body by a factor about an anchor. -/
  rescale     : E → Handle → (factor : Float) → (anchor : Vec) → E
  /-- Where a body is; nothing, if it is gone. -/
  position?   : E → Handle → Option Vec
  /-- Those of the given bodies that contain a point. -/
  bodiesAt    : E → List Handle → (point : Vec) → List Handle
  /-- Those of the given bodies that overlap the body `h`, in the given order. -/
  overlapping : E → (h : Handle) → List Handle → List Handle
  /-- Lets the bodies move for `dt` milliseconds. -/
  step        : E → (dt : Float) → Except Fault E

end Vivarium
