import Vivarium.Fault

/-!
# Refusals and their texts

The domain refuses to build a program outside the length bounds or with a gene that the catalog does not
know, to look up an entry past the catalog's end, and to set up a world on a configuration that does not
hold together. Each cause has one text.
-/

namespace Vivarium

/-- The fewest genes of a program. -/
def shortestProgram : Nat := 15

/-- The most genes of a program. -/
def longestProgram : Nat := 60

/-- The text of a program error. -/
def ProgramError.message : ProgramError → String
  | length len    => s!"program length {len} outside [{shortestProgram}, {longestProgram}]"
  | unknownGene i => s!"gene references unknown catalog entry {i}"

/-- A condition that a configuration violates. -/
inductive Violation where
  | worldWidth
  | worldHeight
  | populationCap
  | populationFloor
  | freshSpawnMass
  | foodCaps
  | spawnIntervals
  | scheduleHorizon
  | hungerRestore
  | starvationRates
  | minMass
  | birthMass
  | replicateMass
  | combatHunger
  | massTransfer
  | maxOps
  | operatorWeights
  | segmentContinue
  | cacheCapacity
deriving DecidableEq, Repr

/-- The text of a violation. -/
def Violation.message : Violation → String
  | worldWidth      => "World width must be positive"
  | worldHeight     => "World height must be positive"
  | populationCap   => "Population cap must be positive"
  | populationFloor => "Population floor must not exceed the population cap"
  | freshSpawnMass  => "Fresh spawn mass must be at least the minimum mass"
  | foodCaps        => "Food caps must be non-negative"
  | spawnIntervals  => "Food spawn intervals must be positive"
  | scheduleHorizon => "Schedule horizon must be positive"
  | hungerRestore   => "Food hunger restore must be in [0.0, 1.0]"
  | starvationRates => "Starvation rates must be non-negative"
  | minMass         => "Minimum mass must be positive"
  | birthMass       => "Birth mass must be at least the minimum mass"
  | replicateMass   => "Replication must leave the parent at or above the minimum mass"
  | combatHunger    => "Combat hunger deltas must be in [0.0, 1.0]"
  | massTransfer    => "Mass transfer must be non-negative"
  | maxOps          => "Max ops per tick must be positive"
  | operatorWeights => "At least one mutation operator needs a positive weight"
  | segmentContinue => "Segment continue probability must be in [0.0, 1.0)"
  | cacheCapacity   => "Similarity cache capacity must be at least 2"

/-- Why the domain refused. -/
inductive Refusal where
  | program (cause : ProgramError)
  | unknownGene (index : Nat)
  | config (cause : Violation)
deriving DecidableEq, Repr

/-- The text of a refusal. -/
def Refusal.message : Refusal → String
  | program cause => s!"Invalid program: {cause.message}"
  | unknownGene i => s!"Unknown gene catalog index {i}"
  | config cause  => s!"Configuration error: {cause.message}"

/-- How a computation that may be refused or break off ends early. -/
inductive Failure where
  | refused (cause : Refusal)
  | fault (cause : Fault)
deriving DecidableEq, Repr

end Vivarium
