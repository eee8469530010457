import Vivarium.Creature.Economy
import Vivarium.Random.Draw
import Vivarium.Turn.Sense

/-!
# Executing one instruction

An instruction may change the acting creature's heading, hunger and delay, and may set a jump. What
reaches beyond the creature is not done here but reported: a push on its own body, and at most one
request to the world, to attack a stranger or to replicate.
-/

namespace Vivarium

/-- What a creature asks the world for. -/
inductive Interaction where
  /-- Take from the target, if both are alive when it comes to that. -/
  | attack (target : Rank) (targetId : Ident)
  | replicate
deriving DecidableEq, Repr

/-- What one instruction leads to. -/
structure Effect where
  creature : Creature
  /-- The force on the creature's own body. -/
  push     : Option Vec := none
  request  : Option Interaction := none

namespace Creature

/-- Hunger lost per unit of power. -/
def moveCost : Float := 5.0

/-- Whether the condition of a jump holds. -/
def meets (c : Creature) (position : Vec) (s : Surroundings) : Condition → Bool
  | .near who         => (s.nearestCreature c position c.traits.vision who).isSome
  | .nearFood         => (s.nearestPellet position c.traits.vision).isSome
  | .hungry threshold => c.hunger < threshold
  | .large threshold  => threshold < c.mass

/-- The heading after a turn. With nothing in sight the creature keeps its heading. -/
def facing (c : Creature) (position : Vec) (s : Surroundings) : Facing → Draw Float
  | .random          => Draw.real 0.0 fullTurn
  | .fixed direction => return direction
  | .toFood          =>
    match s.nearestPellet position c.traits.vision with
    | some food => return position.angleTo food.position
    | none      => return c.direction
  | .toward who      =>
    match s.nearestCreature c position c.traits.vision who with
    | some other => return position.angleTo other.position
    | none       => return c.direction
  | .awayFrom who    =>
    match s.nearestCreature c position c.traits.vision who with
    | some other => return position.angleAwayFrom other.position
    | none       => return c.direction

/-- Executes an instruction at a position in its surroundings. -/
def execute (c : Creature) (position : Vec) (s : Surroundings) : Instruction → Draw Effect
  | .move power =>
    return { creature := c.adjustHunger (-power * moveCost)
             push     := some (Vec.ofAngle c.direction power) }
  | .turn facing => do
    return { creature := { c with direction := ← c.facing position s facing } }
  | .jump condition goal =>
    if c.meets position s condition then
      return { creature := { c with pendingJump := some goal } }
    else
      return { creature := c }
  | .attack =>
    match s.nearestCreature c position c.traits.attackRange .stranger with
    | some target => return { creature := c, request := some (.attack target.rank target.id) }
    | none        => return { creature := { c with moveDelay := s.config.combat.missDelay } }
  | .replicate =>
    if s.config.metabolism.replicateMass ≤ c.mass ∧ s.population < s.config.world.populationCap then
      return { creature := c, request := some .replicate }
    else
      return { creature := c }
  | .wait => return { creature := c }

end Creature

end Vivarium
