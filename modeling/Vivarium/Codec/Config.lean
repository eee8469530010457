import Vivarium.Config.Basic
import Vivarium.Datum.Basic

/-!
# Configurations as data

A configuration is a record of sections, each a record of parameters. A record is read over a
configuration, which supplies whatever the record leaves out. The same reading serves two notations,
which differ in two points: what is done with surplus items of a list, and what stands for "nothing"
beside the name of a kinship mode.
-/

namespace Vivarium

/-- Where notations differ in what they accept. -/
structure Dialect where
  /-- Whether surplus items of a list are passed over. -/
  surplus   : Bool
  /-- Whether a datum stands for nothing. -/
  isNothing : Datum → Bool

namespace Dialect

/-- JSON: a list may not be too long, and nothing is null. -/
def json : Dialect where
  surplus   := false
  isNothing := fun d => match d with
    | .null => true
    | _     => false

/-- TOML: surplus items are passed over, and nothing is an empty table or array. -/
def toml : Dialect where
  surplus   := true
  isNothing := fun d => match d with
    | .record [] => true
    | .list []   => true
    | _          => false

end Dialect

namespace OperatorWeights

def toDatum (w : OperatorWeights) : Datum := .ofList Datum.ofNat w.toList

def ofDatum (l : Dialect) : Datum → Decoded OperatorWeights
  | .list items => do
    if 5 < items.length ∧ ¬ l.surplus then throw .malformed
    match ← (items.take 5).mapM (Datum.toNat 32) with
    | [duplicate, insert, delete, memory, traits] =>
      return { duplicate, insert, delete, memory, traits }
    | _ => throw .malformed
  | _           => throw .malformed

end OperatorWeights

namespace KinshipMode

/-- The name of a mode. -/
def name : KinshipMode → String
  | hue        => "Hue"
  | similarity => "Similarity"

def ofName : String → Decoded KinshipMode
  | "Hue"        => .ok hue
  | "Similarity" => .ok similarity
  | _            => .error .malformed

def toDatum (m : KinshipMode) : Datum := .text m.name

/-- Reads a mode: its name, or a record from its name to nothing. -/
def ofDatum (l : Dialect) : Datum → Decoded KinshipMode
  | .text name          => ofName name
  | .record [(name, d)] => if l.isNothing d then ofName name else .error .malformed
  | _                   => .error .malformed

end KinshipMode

/-! ## Sections, each over one that supplies what is missing -/

namespace WorldConfig

def toDatum (c : WorldConfig) : Datum :=
  .record
    [ ("width",             .ofFloat c.width),
      ("height",            .ofFloat c.height),
      ("seed",              .ofOption Datum.ofNat c.seed),
      ("population_cap",    .ofNat c.populationCap),
      ("population_floor",  .ofNat c.populationFloor),
      ("floor_cutoff_tick", .ofNat c.floorCutoffTick),
      ("fresh_spawn_mass",  .ofFloat c.freshSpawnMass),
      ("schedule_horizon",  .ofFloat c.scheduleHorizon) ]

def overlay (l : Dialect) (c : WorldConfig) (d : Datum) : Decoded WorldConfig := do
  let p ← Parts.of ["width", "height", "seed", "population_cap", "population_floor",
    "floor_cutoff_tick", "fresh_spawn_mass", "schedule_horizon"] l.surplus d
  return {
    width           := ← p.withDefault "width" c.width Datum.toFloat
    height          := ← p.withDefault "height" c.height Datum.toFloat
    seed            := ← p.withDefault "seed" c.seed (Datum.toOption (Datum.toNat 64))
    populationCap   := ← p.withDefault "population_cap" c.populationCap (Datum.toNat 64)
    populationFloor := ← p.withDefault "population_floor" c.populationFloor (Datum.toNat 64)
    floorCutoffTick := ← p.withDefault "floor_cutoff_tick" c.floorCutoffTick (Datum.toNat 64)
    freshSpawnMass  := ← p.withDefault "fresh_spawn_mass" c.freshSpawnMass Datum.toFloat
    scheduleHorizon := ← p.withDefault "schedule_horizon" c.scheduleHorizon Datum.toFloat }

end WorldConfig

namespace FoodConfig

def toDatum (c : FoodConfig) : Datum :=
  .record
    [ ("max_food",             .ofFloat c.maxFood),
      ("max_food_early",       .ofFloat c.maxFoodEarly),
      ("bootstrap_ticks",      .ofNat c.bootstrapTicks),
      ("early_spawn_interval", .ofNat c.earlySpawnInterval),
      ("spawn_interval",       .ofNat c.spawnInterval),
      ("hunger_restore",       .ofFloat c.hungerRestore),
      ("mass_gain",            .ofFloat c.massGain) ]

def overlay (l : Dialect) (c : FoodConfig) (d : Datum) : Decoded FoodConfig := do
  let p ← Parts.of ["max_food", "max_food_early", "bootstrap_ticks", "early_spawn_interval",
    "spawn_interval", "hunger_restore", "mass_gain"] l.surplus d
  return {
    maxFood            := ← p.withDefault "max_food" c.maxFood Datum.toFloat
    maxFoodEarly       := ← p.withDefault "max_food_early" c.maxFoodEarly Datum.toFloat
    bootstrapTicks     := ← p.withDefault "bootstrap_ticks" c.bootstrapTicks (Datum.toNat 64)
    earlySpawnInterval :=
      ← p.withDefault "early_spawn_interval" c.earlySpawnInterval (Datum.toNat 64)
    spawnInterval      := ← p.withDefault "spawn_interval" c.spawnInterval (Datum.toNat 64)
    hungerRestore      := ← p.withDefault "hunger_restore" c.hungerRestore Datum.toFloat
    massGain           := ← p.withDefault "mass_gain" c.massGain Datum.toFloat }

end FoodConfig

namespace MetabolismConfig

def toDatum (c : MetabolismConfig) : Datum :=
  .record
    [ ("starvation_rate",       .ofFloat c.starvationRate),
      ("starvation_rate_early", .ofFloat c.starvationRateEarly),
      ("birth_mass",            .ofFloat c.birthMass),
      ("min_mass",              .ofFloat c.minMass),
      ("replicate_mass",        .ofFloat c.replicateMass) ]

def overlay (l : Dialect) (c : MetabolismConfig) (d : Datum) : Decoded MetabolismConfig := do
  let p ← Parts.of ["starvation_rate", "starvation_rate_early", "birth_mass", "min_mass",
    "replicate_mass"] l.surplus d
  return {
    starvationRate      := ← p.withDefault "starvation_rate" c.starvationRate Datum.toFloat
    starvationRateEarly :=
      ← p.withDefault "starvation_rate_early" c.starvationRateEarly Datum.toFloat
    birthMass           := ← p.withDefault "birth_mass" c.birthMass Datum.toFloat
    minMass             := ← p.withDefault "min_mass" c.minMass Datum.toFloat
    replicateMass       := ← p.withDefault "replicate_mass" c.replicateMass Datum.toFloat }

end MetabolismConfig

namespace CombatConfig

def toDatum (c : CombatConfig) : Datum :=
  .record
    [ ("mass_transfer",        .ofFloat c.massTransfer),
      ("target_hunger_loss",   .ofFloat c.targetHungerLoss),
      ("attacker_hunger_gain", .ofFloat c.attackerHungerGain),
      ("laser_ticks",          .ofNat c.laserTicks),
      ("miss_delay",           .ofNat c.missDelay) ]

def overlay (l : Dialect) (c : CombatConfig) (d : Datum) : Decoded CombatConfig := do
  let p ← Parts.of ["mass_transfer", "target_hunger_loss", "attacker_hunger_gain", "laser_ticks",
    "miss_delay"] l.surplus d
  return {
    massTransfer       := ← p.withDefault "mass_transfer" c.massTransfer Datum.toFloat
    targetHungerLoss   := ← p.withDefault "target_hunger_loss" c.targetHungerLoss Datum.toFloat
    attackerHungerGain :=
      ← p.withDefault "attacker_hunger_gain" c.attackerHungerGain Datum.toFloat
    laserTicks         := ← p.withDefault "laser_ticks" c.laserTicks (Datum.toNat 32)
    missDelay          := ← p.withDefault "miss_delay" c.missDelay (Datum.toNat 32) }

end CombatConfig

namespace EvolutionConfig

def toDatum (c : EvolutionConfig) : Datum :=
  .record
    [ ("max_ops_per_tick",      .ofNat c.maxOpsPerTick),
      ("reclone_memory",        .bool c.recloneMemory),
      ("operator_weights",      c.operatorWeights.toDatum),
      ("segment_continue_prob", .ofFloat c.segmentContinueProb) ]

def overlay (l : Dialect) (c : EvolutionConfig) (d : Datum) : Decoded EvolutionConfig := do
  let p ← Parts.of ["max_ops_per_tick", "reclone_memory", "operator_weights",
    "segment_continue_prob"] l.surplus d
  return {
    maxOpsPerTick       := ← p.withDefault "max_ops_per_tick" c.maxOpsPerTick (Datum.toNat 32)
    recloneMemory       := ← p.withDefault "reclone_memory" c.recloneMemory Datum.toBool
    operatorWeights     :=
      ← p.withDefault "operator_weights" c.operatorWeights (OperatorWeights.ofDatum l)
    segmentContinueProb :=
      ← p.withDefault "segment_continue_prob" c.segmentContinueProb Datum.toFloat }

end EvolutionConfig

namespace KinshipConfig

def toDatum (c : KinshipConfig) : Datum :=
  .record
    [ ("mode",                      c.mode.toDatum),
      ("similarity_cache_capacity", .ofNat c.similarityCacheCapacity) ]

def overlay (l : Dialect) (c : KinshipConfig) (d : Datum) : Decoded KinshipConfig := do
  let p ← Parts.of ["mode", "similarity_cache_capacity"] l.surplus d
  return {
    mode := ← p.withDefault "mode" c.mode (KinshipMode.ofDatum l)
    similarityCacheCapacity :=
      ← p.withDefault "similarity_cache_capacity" c.similarityCacheCapacity (Datum.toNat 64) }

end KinshipConfig

namespace Config

def toDatum (c : Config) : Datum :=
  .record
    [ ("world",      c.world.toDatum),
      ("food",       c.food.toDatum),
      ("metabolism", c.metabolism.toDatum),
      ("combat",     c.combat.toDatum),
      ("evolution",  c.evolution.toDatum),
      ("kinship",    c.kinship.toDatum),
      ("target_tps", .ofNat c.targetTps) ]

def overlay (l : Dialect) (c : Config) (d : Datum) : Decoded Config := do
  let p ← Parts.of ["world", "food", "metabolism", "combat", "evolution", "kinship", "target_tps"]
    l.surplus d
  return {
    world      := ← p.withDefault "world" c.world (WorldConfig.overlay l c.world)
    food       := ← p.withDefault "food" c.food (FoodConfig.overlay l c.food)
    metabolism := ← p.withDefault "metabolism" c.metabolism (MetabolismConfig.overlay l c.metabolism)
    combat     := ← p.withDefault "combat" c.combat (CombatConfig.overlay l c.combat)
    evolution  := ← p.withDefault "evolution" c.evolution (EvolutionConfig.overlay l c.evolution)
    kinship    := ← p.withDefault "kinship" c.kinship (KinshipConfig.overlay l c.kinship)
    targetTps  := ← p.withDefault "target_tps" c.targetTps (Datum.toNat 64) }

/-- Reads a configuration over the defaults. -/
def ofDatum (l : Dialect) (d : Datum) : Decoded Config := overlay l {} d

end Config

end Vivarium
