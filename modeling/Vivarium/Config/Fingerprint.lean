import Vivarium.Config.Basic
import Vivarium.Decimal.Notation
import Vivarium.Digest.Sha256
import Vivarium.Ident

/-!
# The fingerprint of a configuration

The digest of a text of all rules of a run: every section except the world's. Two configurations under
which the same world would behave alike have the same fingerprint.
-/

namespace Vivarium

namespace Fingerprint

/-- Reals between `10 ^ -4` and `10 ^ 16` are written without an exponent. -/
def realNotation : Notation where
  leastPlain := -4
  plainEnd   := 16
  tie        := .up

/-- The text of a real. -/
def real (x : Float) : String :=
  if x.isNaN then "NaN"
  else if x.isInf then (if x < 0.0 then "-inf" else "inf")
  else realNotation.finite x

/-- The text of a record of a type. -/
def record (type : String) (fields : List (String × String)) : String :=
  type ++ " \x7b " ++ ", ".intercalate (fields.map fun (name, value) => name ++ ": " ++ value) ++ " \x7d"

end Fingerprint

open Fingerprint

def FoodConfig.text (c : FoodConfig) : String :=
  record "FoodConfig"
    [ ("max_food",             real c.maxFood),
      ("max_food_early",       real c.maxFoodEarly),
      ("bootstrap_ticks",      toString c.bootstrapTicks),
      ("early_spawn_interval", toString c.earlySpawnInterval),
      ("spawn_interval",       toString c.spawnInterval),
      ("hunger_restore",       real c.hungerRestore),
      ("mass_gain",            real c.massGain) ]

def MetabolismConfig.text (c : MetabolismConfig) : String :=
  record "MetabolismConfig"
    [ ("starvation_rate",       real c.starvationRate),
      ("starvation_rate_early", real c.starvationRateEarly),
      ("birth_mass",            real c.birthMass),
      ("min_mass",              real c.minMass),
      ("replicate_mass",        real c.replicateMass) ]

def CombatConfig.text (c : CombatConfig) : String :=
  record "CombatConfig"
    [ ("mass_transfer",        real c.massTransfer),
      ("target_hunger_loss",   real c.targetHungerLoss),
      ("attacker_hunger_gain", real c.attackerHungerGain),
      ("laser_ticks",          toString c.laserTicks),
      ("miss_delay",           toString c.missDelay) ]

def EvolutionConfig.text (c : EvolutionConfig) : String :=
  record "EvolutionConfig"
    [ ("max_ops_per_tick",      toString c.maxOpsPerTick),
      ("reclone_memory",        toString c.recloneMemory),
      ("operator_weights",      "[" ++ ", ".intercalate (c.operatorWeights.toList.map toString) ++ "]"),
      ("segment_continue_prob", real c.segmentContinueProb) ]

def KinshipConfig.text (c : KinshipConfig) : String :=
  record "KinshipConfig"
    [ ("mode",                      match c.mode with
                                    | .hue        => "Hue"
                                    | .similarity => "Similarity"),
      ("similarity_cache_capacity", toString c.similarityCacheCapacity) ]

/-- The fingerprint. -/
def Config.fingerprint (c : Config) : String :=
  let text := c.food.text ++ c.metabolism.text ++ c.combat.text ++ c.evolution.text ++ c.kinship.text
  String.ofList ((Sha256.digest text.toUTF8.toList).flatMap fun w => Ident.hexDigits w.toNat 8)

end Vivarium
