import Vivarium.Codec.Program
import Vivarium.Creature.Basic

/-!
# Creatures as data

A creature and its parts as records. When a creature is read, the parts that are there are judged in the
order of their names, and only then those that are missing.
-/

namespace Vivarium

namespace Vec

def toDatum (v : Vec) : Datum := .record [("x", .ofFloat v.x), ("y", .ofFloat v.y)]

def ofDatum (d : Datum) : Decoded Vec := do
  let parts ← Parts.of ["x", "y"] false d
  return { x := ← parts.part "x" Datum.toFloat, y := ← parts.part "y" Datum.toFloat }

end Vec

namespace Handle

def toDatum (h : Handle) : Datum := .ofNat h.number

def ofDatum (d : Datum) : Decoded Handle := (d.toNat 64).map Handle.mk

end Handle

namespace Traits

def toDatum (t : Traits) : Datum :=
  .record
    [ ("vision",           .ofFloat t.vision),
      ("attack_range",     .ofFloat t.attackRange),
      ("family_threshold", .ofFloat t.familyThreshold),
      ("mutation_rate",    .ofFloat t.mutationRate) ]

def ofDatum (d : Datum) : Decoded Traits := do
  let parts ← Parts.of ["vision", "attack_range", "family_threshold", "mutation_rate"] false d
  return { vision          := ← parts.part "vision" Datum.toFloat
           attackRange     := ← parts.part "attack_range" Datum.toFloat
           familyThreshold := ← parts.part "family_threshold" Datum.toFloat
           mutationRate    := ← parts.part "mutation_rate" Datum.toFloat }

end Traits

namespace Lineage

def toDatum (l : Lineage) : Datum :=
  .record
    [ ("parent_id",  .ofOption Datum.ofIdent l.parentId),
      ("generation", .ofNat l.generation),
      ("mutations",  .ofNat l.mutations) ]

def ofDatum (d : Datum) : Decoded Lineage := do
  let parts ← Parts.of ["parent_id", "generation", "mutations"] false d
  return { parentId   := ← parts.optional "parent_id" Datum.toIdent
           generation := ← parts.part "generation" (Datum.toNat 32)
           mutations  := ← parts.part "mutations" (Datum.toNat 32) }

end Lineage

namespace Laser

def toDatum (l : Laser) : Datum :=
  .record
    [ ("target",      .ofIdent l.target),
      ("target_body", l.targetBody.toDatum),
      ("timer",       .ofNat l.timer),
      ("from",        l.start.toDatum),
      ("to",          l.stop.toDatum) ]

def ofDatum (d : Datum) : Decoded Laser := do
  let parts ← Parts.of ["target", "target_body", "timer", "from", "to"] false d
  return { target     := ← parts.part "target" Datum.toIdent
           targetBody := ← parts.part "target_body" Handle.ofDatum
           timer      := ← parts.part "timer" (Datum.toNat 32)
           start      := ← parts.part "from" Vec.ofDatum
           stop       := ← parts.part "to" Vec.ofDatum }

end Laser

namespace Creature

def toDatum (c : Creature) : Datum :=
  .record
    [ ("id",           .ofIdent c.id),
      ("body",         c.body.toDatum),
      ("lineage",      c.lineage.toDatum),
      ("traits",       c.traits.toDatum),
      ("program",      c.program.toDatum),
      ("hue",          .ofFloat c.hue),
      ("hunger",       .ofFloat c.hunger),
      ("mass",         .ofFloat c.mass),
      ("direction",    .ofFloat c.direction),
      ("cursor",       .ofNat c.cursor),
      ("pending_jump", .ofOption Datum.ofNat c.pendingJump),
      ("move_delay",   .ofNat c.moveDelay),
      ("laser",        .ofOption Laser.toDatum c.laser),
      ("birth_tick",   .ofNat c.birthTick) ]

/-- The names of a creature's parts in their order. -/
def partNames : List String :=
  ["id", "body", "lineage", "traits", "program", "hue", "hunger", "mass", "direction", "cursor",
   "pending_jump", "move_delay", "laser", "birth_tick"]

/-- A part that has been looked for. -/
def found : Option α → Decoded α
  | some a => .ok a
  | none   => .error .malformed

/-- A part that may be null, or missing where `positional` is not set. -/
def foundOrNone (positional : Bool) : Option (Option α) → Decoded (Option α)
  | some a => .ok a
  | none   => if positional then .error .malformed else .ok none

def ofDatum (d : Datum) : Decoded Creature := do
  let parts ← Parts.of partNames false d
  -- what is malformed is found in the order of the names, and what is missing in that of the record
  let birthTick?   ← parts.part? "birth_tick" (Datum.toNat 64)
  let body?        ← parts.part? "body" Handle.ofDatum
  let cursor?      ← parts.part? "cursor" (Datum.toNat 64)
  let direction?   ← parts.part? "direction" Datum.toFloat
  let hue?         ← parts.part? "hue" Datum.toFloat
  let hunger?      ← parts.part? "hunger" Datum.toFloat
  let id?          ← parts.part? "id" Datum.toIdent
  let laser?       ← parts.part? "laser" (Datum.toOption Laser.ofDatum)
  let lineage?     ← parts.part? "lineage" Lineage.ofDatum
  let mass?        ← parts.part? "mass" Datum.toFloat
  let moveDelay?   ← parts.part? "move_delay" (Datum.toNat 32)
  let pendingJump? ← parts.part? "pending_jump" (Datum.toOption (Datum.toNat 64))
  let program?     ← parts.part? "program" Program.ofDatum
  let traits?      ← parts.part? "traits" Traits.ofDatum
  return { id          := ← found id?
           body        := ← found body?
           lineage     := ← found lineage?
           traits      := ← found traits?
           program     := ← found program?
           hue         := ← found hue?
           hunger      := ← found hunger?
           mass        := ← found mass?
           direction   := ← found direction?
           cursor      := ← found cursor?
           pendingJump := ← foundOrNone parts.positional pendingJump?
           moveDelay   := ← found moveDelay?
           laser       := ← foundOrNone parts.positional laser?
           birthTick   := ← found birthTick? }

end Creature

end Vivarium
