import Vivarium.Creature.Economy
import Vivarium.Evolution.Offspring
import Vivarium.Kinship.Hue
import Vivarium.Scalar.Power

/-!
# Birth

A creature comes into the world from a seed: its program, traits and lineage, a place and a mass. It
starts sated, at the first gene, facing a random direction. A creature without a parent gets a random
first-generation program; a child's program and traits come from its parent by evolution. What the
parent pays for the child is not settled here.
-/

namespace Vivarium

/-- What a creature is made of before it has a body. -/
structure Seed where
  program  : Program
  traits   : Traits := {}
  lineage  : Lineage := {}
  position : Vec
  mass     : Float

/-- Puts a body for the seed into the engine and draws an identity and a direction. -/
def Seed.embody {E : Type} [Physics E] (seed : Seed) (tick : Nat) (e : E) : Draw (Creature × E) := do
  let (body, e) := Physics.addBody e seed.mass.sqrt seed.position .creature
  -- the name is drawn before the heading
  let id ← Draw.ident
  let direction ← Draw.real 0.0 fullTurn
  let creature : Creature :=
    { id, body, direction
      lineage     := seed.lineage
      traits      := seed.traits
      program     := seed.program
      hue         := geneticHue seed.program.geneticString
      hunger      := 1.0
      mass        := seed.mass
      cursor      := 0
      pendingJump := none
      moveDelay   := 0
      laser       := none
      birthTick   := tick }
  return (creature, e)

/-- A newborn and, for a child, how its program and traits were changed. -/
structure Birth where
  creature : Creature
  mutated  : Bool
  operator : Option MutationOperator

namespace Birth

/-- Adds to a counter of 32 bits. -/
def addCount (n m : Nat) : Except Fault Nat :=
  if n + m < twoTo 32 then .ok (n + m) else .error .overflow

/-- The lineage of a child. -/
def childLineage (parent : Creature) (mutated : Bool) : Except Fault Lineage := do
  return { parentId   := some parent.id
           generation := ← addCount parent.lineage.generation 1
           mutations  := ← addCount parent.lineage.mutations mutated.toNat }

variable {E : Type} [Physics E]

/-- The birth of a creature without a parent. -/
def root (position : Vec) (tick : Nat) (config : Config) (e : E) : Build (Birth × E) := do
  let program ← Program.random true Program.defaultLength
  let seed : Seed := { program, position, mass := config.metabolism.birthMass }
  let (creature, e) ← seed.embody tick e
  return ({ creature, mutated := false, operator := none }, e)

/-- The birth of a child. -/
def child (parent : Creature) (position : Vec) (tick : Nat) (config : Config) (e : E) :
    Build (Birth × E) := do
  let offspring ← parent.program.evolve parent.traits config.evolution
  let lineage ← (childLineage parent offspring.mutated : Draw Lineage)
  let seed : Seed :=
    { program := offspring.program, traits := offspring.traits, lineage, position
      mass := config.metabolism.birthMass }
  let (creature, e) ← seed.embody tick e
  return ({ creature, mutated := offspring.mutated, operator := offspring.operator }, e)

end Birth

end Vivarium
