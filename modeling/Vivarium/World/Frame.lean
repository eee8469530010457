import Vivarium.World.Basic

/-!
# Frames

A frame is everything that a drawer of the world needs, detached from the world: places, sizes and
colours, in spawn order. A creature fades towards black as it starves.
-/

namespace Vivarium

/-- A colour: hue in degrees, saturation and lightness in percent. -/
structure Hsl where
  hue        : Float
  saturation : Float
  lightness  : Float
deriving DecidableEq

namespace Hsl

/-- The colour of a creature's disc. -/
def fill (hue hunger : Float) : Hsl := ⟨hue, 100.0 * hunger, 50.0 * hunger⟩

/-- The colour of its rim. -/
def stroke (hue : Float) : Hsl := ⟨hue, 100.0, 50.0⟩

end Hsl

/-- A creature as it is drawn. -/
structure CreatureFrame where
  id         : Ident
  position   : Vec
  radius     : Float
  fill       : Hsl
  stroke     : Hsl
  hunger     : Float
  mass       : Float
  generation : Nat
  genetic    : String

/-- A pellet as it is drawn. -/
structure PelletFrame where
  id       : Ident
  position : Vec

/-- A laser as it is drawn. -/
structure LaserFrame where
  start : Vec
  stop  : Vec

/-- The world as it is drawn. -/
structure Frame where
  tick      : Nat
  width     : Float
  height    : Float
  creatures : List CreatureFrame
  food      : List PelletFrame
  lasers    : List LaserFrame

namespace World

variable {E : Type} [Physics E]

/-- A creature as it is drawn. -/
def creatureFrame (w : World E) (c : Creature) : CreatureFrame :=
  { id         := c.id
    position   := w.placeOf c.body
    radius     := c.mass.sqrt
    fill       := Hsl.fill c.hue c.hunger
    stroke     := Hsl.stroke c.hue
    hunger     := c.hunger
    mass       := c.mass
    generation := c.lineage.generation
    genetic    := c.program.geneticString }

/-- The frame of the world as it is. -/
def frame (w : World E) : Frame :=
  { tick      := w.tick
    width     := w.config.world.width
    height    := w.config.world.height
    creatures := w.creatures.values.map w.creatureFrame
    food      := w.pellets.values.map fun p => ⟨p.id, p.position⟩
    lasers    := w.creatures.values.filterMap fun c => c.laser.map fun l => ⟨l.start, l.stop⟩ }

end World

end Vivarium
