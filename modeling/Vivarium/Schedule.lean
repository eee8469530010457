import Vivarium.Config.Basic
import Vivarium.Fault

/-!
# Schedules

The starvation rate and the cap on food start at an early value and approach a steady one as the ticks
go by. Food appears at every multiple of an interval, which is shorter while the run is young.
-/

namespace Vivarium

/-- The value at `tick` of a quantity that starts at `early` and approaches `steady`; at `horizon` half
of the way is done. -/
def decaying (tick : Nat) (early steady horizon : Float) : Float :=
  (early - steady) / (Float.ofNat tick / horizon + 1.0) + steady

namespace Config

/-- Hunger lost per unit of mass in one tick. -/
def starvationRate (c : Config) (tick : Nat) : Float :=
  decaying tick c.metabolism.starvationRateEarly c.metabolism.starvationRate c.world.scheduleHorizon

/-- The cap on pellets. -/
def maxFood (c : Config) (tick : Nat) : Float :=
  decaying tick c.food.maxFoodEarly c.food.maxFood c.world.scheduleHorizon

/-- The ticks from one chance of a pellet to the next. -/
def foodInterval (c : Config) (tick : Nat) : Nat :=
  if tick < c.food.bootstrapTicks then c.food.earlySpawnInterval else c.food.spawnInterval

/-- Whether a pellet appears at `tick` among `foodCount` others. -/
def spawnsFood (c : Config) (tick foodCount : Nat) : Except Fault Bool :=
  let interval := c.foodInterval tick
  if interval = 0 then .error .zeroInterval
  else .ok (tick % interval = 0 && Float.ofNat foodCount < c.maxFood tick)

end Config

end Vivarium
