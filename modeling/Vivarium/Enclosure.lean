import Vivarium.Physics
import Vivarium.Scalar.Order
import Vivarium.Table

/-!
# The enclosure

Circular bodies in a walled rectangle. A creature's body is pushed by forces, slowed by the air and held
back by the walls; a pellet's body stays where it was put. Bodies are known by handles, counted from
one, which are not used again. The enclosure decides which bodies overlap; nothing else touches them.

Like ranks, handles are counted without a bound: nothing but a new body moves the count, and by one, so
that a word of 64 bits would be full after `2 ^ 64` bodies only.
-/

namespace Vivarium

structure Body where
  position : Vec
  /-- The displacement per step. -/
  velocity : Vec
  /-- The force collected since the last step. -/
  force    : Vec
  radius   : Float
  layer    : Layer
deriving DecidableEq

/-- Mass per unit of area. -/
def density : Float := 0.001

/-- The part of its velocity that a body loses in a step. -/
def airFriction : Float := 0.01

/-- The mass that resists a force; it follows from the area alone. -/
def Body.inertia (b : Body) : Float := density * halfTurn * b.radius * b.radius

structure Enclosure where
  width      : Float
  height     : Float
  /-- In the order of their handles. -/
  bodies     : Table Handle Body
  /-- The number of the next handle. -/
  nextNumber : Nat
deriving DecidableEq

namespace Enclosure

/-- An enclosure without bodies. -/
def empty (width height : Float) : Enclosure := ⟨width, height, .empty, 1⟩

def bodyCount (e : Enclosure) : Nat := e.bodies.size

def position? (e : Enclosure) (h : Handle) : Option Vec := (e.bodies.get? h).map (·.position)

def radius? (e : Enclosure) (h : Handle) : Option Float := (e.bodies.get? h).map (·.radius)

/-! ## Changing bodies -/

/-- Puts a circle at rest into the enclosure, under the next handle. -/
def addBody (e : Enclosure) (radius : Float) (position : Vec) (layer : Layer) : Handle × Enclosure :=
  let h : Handle := ⟨e.nextNumber⟩
  let body : Body := { position, velocity := .zero, force := .zero, radius, layer }
  (h, { e with bodies := e.bodies.insert h body, nextNumber := e.nextNumber + 1 })

def removeBody (e : Enclosure) (h : Handle) : Enclosure := { e with bodies := e.bodies.erase h }

/-- Adds a force to what a body has collected. -/
def push (e : Enclosure) (h : Handle) (force : Vec) : Enclosure :=
  { e with bodies := e.bodies.modify h fun b => { b with force := b.force.add force } }

/-- Scales a body by `factor` about `anchor`. -/
def rescale (e : Enclosure) (h : Handle) (factor : Float) (anchor : Vec) : Enclosure :=
  { e with
    bodies := e.bodies.modify h fun b =>
      { b with
        radius   := b.radius * factor
        position := anchor.add ((b.position.sub anchor).scale factor) } }

/-! ## Overlap -/

/-- Those of the given bodies that contain a point, in the given order. -/
def bodiesAt (e : Enclosure) (handles : List Handle) (point : Vec) : List Handle :=
  handles.filter fun h =>
    match e.bodies.get? h with
    | some b => b.position.distance point ≤ b.radius
    | none   => false

/-- Those of the given bodies that overlap the body `h`, itself apart, in the given order. -/
def overlapping (e : Enclosure) (h : Handle) (handles : List Handle) : List Handle :=
  match e.bodies.get? h with
  | none      => []
  | some body =>
    (handles.filter (· ≠ h)).filter fun other =>
      match e.bodies.get? other with
      | some b => body.position.distance b.position < body.radius + b.radius
      | none   => false

/-! ## Motion -/

/-- Keeps one coordinate at least `r` away from both walls. At a wall the velocity along the axis is
lost. -/
def holdBack (r extent : Float) (x v : Float) : Except Fault (Float × Float) :=
  if x < r ∨ extent - r < x then
    (checkedClamp r (extent - r) x).map fun x => (x, 0.0)
  else
    .ok (x, v)

/-- Keeps a body away from all four walls by its radius, or by half the shorter side of the enclosure
where that is less. -/
def contain (e : Enclosure) (b : Body) : Except Fault Body := do
  let r := lesser (lesser b.radius (e.width / 2.0)) (e.height / 2.0)
  let (x, vx) ← holdBack r e.width b.position.x b.velocity.x
  let (y, vy) ← holdBack r e.height b.position.y b.velocity.y
  return { b with position := ⟨x, y⟩, velocity := ⟨vx, vy⟩ }

/-- Moves one body by a step whose square is `dt2`. Pellets are not moved. -/
def moveBody (e : Enclosure) (dt2 : Float) (b : Body) : Except Fault Body :=
  match b.layer with
  | .food     => .ok b
  | .creature =>
    let acceleration := b.force.scale (dt2 / b.inertia)
    let velocity := (b.velocity.scale (1.0 - airFriction)).add acceleration
    e.contain { b with velocity, position := b.position.add velocity, force := .zero }

/-- Moves every body by a step of `dt` milliseconds. -/
def step (e : Enclosure) (dt : Float) : Except Fault Enclosure := do
  let entries ← e.bodies.entries.mapM fun (h, b) => do return (h, ← e.moveBody (dt * dt) b)
  return { e with bodies := ⟨entries⟩ }

instance : Physics Enclosure where
  addBody     := addBody
  removeBody  := removeBody
  push        := push
  rescale     := rescale
  position?   := position?
  bodiesAt    := bodiesAt
  overlapping := overlapping
  step        := step

end Enclosure

end Vivarium
