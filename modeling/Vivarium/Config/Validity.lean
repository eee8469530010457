import Vivarium.Refusal
import Vivarium.Config.Basic
import Vivarium.Scalar.Order

/-!
# Which configurations hold together

A configuration is accepted if it meets nineteen conditions; otherwise the first one that it violates is
named. A condition on a real number is not met by a NaN.
-/

namespace Vivarium.Config

/-- The conditions, in the order in which they are judged. -/
def conditions (c : Config) : List (Violation × Bool) :=
  let zero : Float := 0.0
  [ (.worldWidth,      zero < c.world.width),
    (.worldHeight,     zero < c.world.height),
    (.populationCap,   0 < c.world.populationCap),
    (.populationFloor, c.world.populationFloor ≤ c.world.populationCap),
    (.freshSpawnMass,  c.metabolism.minMass ≤ c.world.freshSpawnMass),
    (.foodCaps,        zero ≤ c.food.maxFood ∧ zero ≤ c.food.maxFoodEarly),
    (.spawnIntervals,  0 < c.food.earlySpawnInterval ∧ 0 < c.food.spawnInterval),
    (.scheduleHorizon, zero < c.world.scheduleHorizon),
    (.hungerRestore,   inClosed 0.0 1.0 c.food.hungerRestore),
    (.starvationRates, zero ≤ c.metabolism.starvationRate ∧ zero ≤ c.metabolism.starvationRateEarly),
    (.minMass,         zero < c.metabolism.minMass),
    (.birthMass,       c.metabolism.minMass ≤ c.metabolism.birthMass),
    -- what a parent is left with after the birth
    (.replicateMass,   c.metabolism.minMass ≤ c.metabolism.replicateMass - c.metabolism.birthMass),
    (.combatHunger,    inClosed 0.0 1.0 c.combat.targetHungerLoss
                         && inClosed 0.0 1.0 c.combat.attackerHungerGain),
    (.massTransfer,    zero ≤ c.combat.massTransfer),
    (.maxOps,          0 < c.evolution.maxOpsPerTick),
    (.operatorWeights, c.evolution.operatorWeights.toList.any (0 < ·)),
    (.segmentContinue, zero ≤ c.evolution.segmentContinueProb
                         ∧ c.evolution.segmentContinueProb < 1.0),
    (.cacheCapacity,   2 ≤ c.kinship.similarityCacheCapacity) ]

/-- The first condition that is violated. -/
def violation? (c : Config) : Option Violation :=
  (c.conditions.find? fun (_, met) => !met).map (·.1)

/-- Accepts a configuration or names the violation. -/
def validate (c : Config) : Except Violation Unit :=
  match c.violation? with
  | some v => .error v
  | none   => .ok ()

/-- A configuration that meets every condition. -/
def Valid (c : Config) : Prop := c.violation? = none

instance (c : Config) : Decidable c.Valid := inferInstanceAs (Decidable (_ = _))

variable {c : Config}

/-- Each condition is met. -/
theorem Valid.met (h : c.Valid) {condition : Violation × Bool} (hmem : condition ∈ c.conditions) :
    condition.2 = true := by
  simpa using List.find?_eq_none.mp (Option.map_eq_none_iff.mp h) condition hmem

/-- A valid configuration is accepted. -/
theorem Valid.validate_eq (h : c.Valid) : c.validate = .ok () := by
  unfold validate
  rw [show c.violation? = none from h]

end Vivarium.Config
