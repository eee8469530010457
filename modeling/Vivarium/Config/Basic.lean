/-!
# Configuration

The parameters of a run, in six sections. Every parameter has a default, so a configuration only has to
name what it changes. Whether the parameters hold together is decided in `Vivarium.Config.Validity`.
-/

namespace Vivarium

/-- The size of the world, its seed and the bounds of its population. -/
structure WorldConfig where
  width           : Float := 1280.0
  height          : Float := 720.0
  /-- Without a seed the run is seeded from outside. -/
  seed            : Option Nat := none
  /-- No creature replicates at or above this population. -/
  populationCap   : Nat := 75
  /-- Fresh creatures are spawned below this population. -/
  populationFloor : Nat := 20
  /-- No fresh creatures are spawned from this tick on. -/
  floorCutoffTick : Nat := 50000
  freshSpawnMass  : Float := 120.0
  /-- The ticks over which the early schedules relax. -/
  scheduleHorizon : Float := 250000.0
deriving DecidableEq, Inhabited

/-- When food appears and what it is worth. -/
structure FoodConfig where
  /-- The cap on pellets in the long run. -/
  maxFood            : Float := 30.0
  /-- The cap on pellets at tick zero. -/
  maxFoodEarly       : Float := 75.0
  bootstrapTicks     : Nat := 1000
  earlySpawnInterval : Nat := 1
  spawnInterval      : Nat := 25
  hungerRestore      : Float := 0.5
  massGain           : Float := 20.0
deriving DecidableEq, Inhabited

/-- The costs of living and of replicating. -/
structure MetabolismConfig where
  /-- Hunger lost per unit of mass and tick in the long run. -/
  starvationRate      : Float := 0.000003
  /-- Hunger lost per unit of mass and tick at tick zero. -/
  starvationRateEarly : Float := 0.000001
  birthMass           : Float := 100.0
  minMass             : Float := 100.0
  replicateMass       : Float := 200.0
deriving DecidableEq, Inhabited

/-- What an attack does. -/
structure CombatConfig where
  massTransfer       : Float := 20.0
  targetHungerLoss   : Float := 0.25
  attackerHungerGain : Float := 0.2
  laserTicks         : Nat := 25
  /-- The delay of an attack that finds no target. -/
  missDelay          : Nat := 5
deriving DecidableEq, Inhabited

/-- The weights of the five mutation operators, in the order of their table. -/
structure OperatorWeights where
  duplicate : Nat := 1
  insert    : Nat := 5
  delete    : Nat := 5
  memory    : Nat := 5
  traits    : Nat := 5
deriving DecidableEq, Inhabited

/-- How programs run and change. -/
structure EvolutionConfig where
  /-- The most genes that a creature executes in one tick. -/
  maxOpsPerTick       : Nat := 50
  /-- Whether a clone's constants are drawn anew. -/
  recloneMemory       : Bool := true
  operatorWeights     : OperatorWeights := {}
  segmentContinueProb : Float := 0.75
deriving DecidableEq, Inhabited

/-- What kinship is judged by. -/
inductive KinshipMode where
  | hue
  | similarity
deriving DecidableEq, Repr, Inhabited

/-- How kinship is judged. -/
structure KinshipConfig where
  mode                    : KinshipMode := .hue
  similarityCacheCapacity : Nat := 1000
deriving DecidableEq, Inhabited

/-- All parameters of a run. -/
structure Config where
  world      : WorldConfig := {}
  food       : FoodConfig := {}
  metabolism : MetabolismConfig := {}
  combat     : CombatConfig := {}
  evolution  : EvolutionConfig := {}
  kinship    : KinshipConfig := {}
  /-- Ticks per second of a headless run; zero runs as fast as it can. -/
  targetTps  : Nat := 0
deriving DecidableEq, Inhabited

/-- The weights in the order of the operator table. -/
def OperatorWeights.toList (w : OperatorWeights) : List Nat :=
  [w.duplicate, w.insert, w.delete, w.memory, w.traits]

end Vivarium
