import Vivarium.Geometry
import Vivarium.Program.Basic

/-!
# Creatures

A creature is driven by its program. Its traits are inherited, its lineage says where it comes from, and
its runtime state says where its program stands. The creature refers to a body in the engine by the
body's handle; where the body is, only the engine knows.
-/

namespace Vivarium

/-- The number of a body in the engine, never used again. -/
structure Handle where
  number : Nat
deriving DecidableEq, Repr, Inhabited

/-- The inherited parameters. -/
structure Traits where
  /-- The radius within which others and food are sensed. -/
  vision          : Float := 275.0
  attackRange     : Float := 75.0
  /-- The higher it is, the fewer creatures count as kin. -/
  familyThreshold : Float := 0.75
  /-- The probability that a child's program or traits are changed. -/
  mutationRate    : Float := 0.75
deriving DecidableEq, Repr, Inhabited

/-- Where a creature comes from. The parent may be long dead. -/
structure Lineage where
  parentId   : Option Ident := none
  generation : Nat := 1
  mutations  : Nat := 0
deriving DecidableEq, Repr, Inhabited

/-- The visible trace of an attack, held by the attacker for a number of ticks. -/
structure Laser where
  target     : Ident
  targetBody : Handle
  timer      : Nat
  start      : Vec
  stop       : Vec
deriving DecidableEq, Repr

structure Creature where
  id          : Ident
  body        : Handle
  lineage     : Lineage
  traits      : Traits
  program     : Program
  /-- The hue of the genetic string, set at birth. -/
  hue         : Float
  /-- From one, sated, to zero, starved. -/
  hunger      : Float
  mass        : Float
  /-- The heading that the creature faces. -/
  direction   : Float
  /-- The index of the gene to execute next. -/
  cursor      : Nat
  /-- Where the gene being executed wants to jump to. -/
  pendingJump : Option Nat
  /-- The ticks left until the next gene is executed. -/
  moveDelay   : Nat
  laser       : Option Laser
  birthTick   : Nat
deriving DecidableEq

namespace Creature

/-- Whether the creature has starved. -/
def isStarved (c : Creature) : Bool := c.hunger ≤ 0.0

/-- The ticks since birth; none before it. -/
def age (c : Creature) (tick : Nat) : Nat := tick - c.birthTick

end Creature

/-- A food pellet. It never moves, and is eaten whole. -/
structure Pellet where
  id       : Ident
  body     : Handle
  position : Vec
deriving DecidableEq

/-- The radius of a pellet. -/
def Pellet.radius : Float := 3.0

end Vivarium
