import Vivarium.Config.Validity
import Vivarium.Scalar.Power
import Vivarium.World.Stage

/-!
# Ticks

A tick may bring a pellet; then every creature that is alive at its beginning has its turn, in spawn
order; at the end the population is filled up to its floor. A world is set up by the same filling, on an
accepted configuration, and reports those births in its first tick.
-/

namespace Vivarium

namespace World

variable {E : Type}

/-- The world without creatures or pellets, on the given engine. Its randomness comes from the
configured seed, or else from the key `entropy`. -/
def bare (config : Config) (enclosure : E) (entropy : BitVec 256) : World E :=
  { config, enclosure
    tick           := 0
    creatures      := .empty
    pellets        := .empty
    creatureOfBody := .empty
    creatureOfId   := .empty
    pelletOfBody   := .empty
    lastRank       := 0
    source         := config.world.seed.elim (.ofKey entropy) fun seed => .ofSeed seed.toUInt64
    similarity     := Cache.empty config.kinship.similarityCacheCapacity
    pendingEvents  := [] }

/-- The creatures that are missing to the floor, none from the cutoff tick on. -/
def missing (w : World E) : Nat :=
  if w.tick < w.config.world.floorCutoffTick then w.config.world.populationFloor - w.population
  else 0

/-- Moves on to the next tick. -/
def countTick (w : World E) : Except Fault (World E) :=
  if w.tick + 1 < twoTo 64 then .ok { w with tick := w.tick + 1 } else .error .overflow

variable [Physics E]

/-- Lets a pellet appear if the schedule says so. -/
def spawnFood (w : World E) : Except Fault (World E) := do
  if ← w.config.spawnsFood w.tick w.foodCount then
    let (place, w) ← w.draw (randomPlace w.config.world Pellet.radius)
    return (← w.spawnPellet place).2
  else
    return w

/-- Spawns one fresh creature at a random place and yields the event of its birth. -/
def spawnFresh (w : World E) : Outcome (Event × World E) := do
  let (place, w) ← Outcome.ofFault (w.draw (randomPlace w.config.world 0.0))
  let ((birth, enclosure), w) ← w.build (Birth.root place w.tick w.config w.enclosure)
  let (creature, enclosure) := birth.creature.setMass w.config.world.freshSpawnMass enclosure
  let w := { w with enclosure }.spawnCreature creature
  return (.birth creature.id none creature.lineage.generation w.tick, w)

/-- Spawns `n` fresh creatures. -/
def spawnMany (w : World E) : (n : Nat) → Outcome (List Event × World E)
  | 0     => return ([], w)
  | n + 1 => do
    let (e, w) ← w.spawnFresh
    let (es, w) ← spawnMany w n
    return (e :: es, w)

/-- Fills the population up to its floor. -/
def refill (w : World E) : Outcome (List Event × World E) := w.spawnMany w.missing

/-- One tick: the events of it, and the world after it. -/
def update (w : World E) : Outcome (List Event × World E) := do
  let w ← Outcome.ofFault w.countTick
  let before := w.pendingEvents
  let w ← Outcome.ofFault { w with pendingEvents := [] }.spawnFood
  let start := Stage.start w before
  let ranks := start.views.map (·.rank)
  let stage ← start.turns ranks
  let (births, w) ← stage.world.refill
  let events := stage.events ++ births
  if ranks ≠ [] ∧ w.population = 0 then
    return (events ++ [.extinction w.tick], w)
  else
    return (events, w)

/-- Moves all bodies by a step of `dt` milliseconds, then runs one tick. -/
def advance (w : World E) (dt : Float) : Outcome (List Event × World E) := do
  let enclosure ← Outcome.ofFault (Physics.step w.enclosure dt)
  { w with enclosure }.update

/-- Sets up a world. -/
def create (config : Config) (enclosure : E) (entropy : BitVec 256) : Outcome (World E) :=
  match config.validate with
  | .error cause => throw (.refused (.config cause))
  | .ok ()       => do
    let (births, w) ← (bare config enclosure entropy).refill
    return { w with pendingEvents := births }

end World

end Vivarium
