import Vivarium.Creature.Birth
import Vivarium.Enclosure
import Vivarium.Kinship.Cache
import Vivarium.Turn.Sense
import Vivarium.World.Event

/-!
# The world

The world owns all creatures and pellets, each under its place in the order of spawning, which the two
kinds share. Three indices find them by body and by identity. What spawns or dies does so in all of these
and in the engine at once. Beside them the world keeps the source of its randomness, the memo of
similarities and the events that were raised before the first tick.

The engine is a parameter of the world, and nothing here depends on which one it is.

Ranks are counted without a bound, where the clock and the counters of a lineage break off at their
widths. Those may be set from outside to whatever a word holds, so they can be one step from full. The
count of ranks is not in reach from outside: it starts at zero and moves by one with each thing that
spawns, so a word of 64 bits would be full after `2 ^ 64` spawns and not before.
-/

namespace Vivarium

/-- A world over an engine, which is an enclosure where none is named. -/
structure World (E : Type := Enclosure) where
  config         : Config
  tick           : Nat
  /-- The live creatures in the order of spawning. -/
  creatures      : Table Rank Creature
  /-- The pellets in the order of spawning. -/
  pellets        : Table Rank Pellet
  creatureOfBody : Table Handle Rank
  creatureOfId   : Table Ident Rank
  pelletOfBody   : Table Handle Rank
  /-- The number of the last rank that was given out. -/
  lastRank       : Nat
  enclosure      : E
  source         : Source
  similarity     : Cache
  /-- Events that the next tick reports before its own. -/
  pendingEvents  : List Event

/-- A computation that may be refused or break off. -/
abbrev Outcome := Except Failure

/-- A computation that may only break off, among those that may also be refused. -/
def Outcome.ofFault : Except Fault α → Outcome α
  | .ok a        => .ok a
  | .error cause => .error (.fault cause)

namespace World

variable {E : Type} (w : World E)

/-! ## Looking -/

def population : Nat := w.creatures.size

def foodCount : Nat := w.pellets.size

/-- The rank under which an identity was last spawned. -/
def rankOf? (id : Ident) : Option Rank := w.creatureOfId.get? id

/-- The live creature that was spawned under an identity. -/
def creature? (id : Ident) : Option Creature := (w.rankOf? id).bind w.creatures.get?

/-- The views of all pellets, in spawn order. -/
def pelletViews : List PelletView :=
  w.pellets.entries.map fun (rank, p) => { rank, id := p.id, body := p.body, position := p.position }

section Places

variable [Physics E]

/-- Where a body is; the origin, if it is gone. -/
def placeOf (body : Handle) : Vec := (Physics.position? w.enclosure body).getD .zero

/-- The view of a creature. -/
def viewOf (rank : Rank) (c : Creature) : CreatureView :=
  { rank, id := c.id, body := c.body, position := w.placeOf c.body, hue := c.hue
    familyThreshold := c.traits.familyThreshold }

/-- The views of all live creatures, in spawn order. -/
def creatureViews : List CreatureView := w.creatures.entries.map fun (rank, c) => w.viewOf rank c

end Places

/-! ## Drawing -/

/-- Runs a draw on the world's source. -/
def draw (d : Draw α) : Except Fault (α × World E) := do
  let (a, source) ← d.run w.source
  return (a, { w with source })

/-- Runs a draw that may be refused on the world's source. -/
def build (b : Build α) : Outcome (α × World E) := do
  match ← Outcome.ofFault (w.draw b.run) with
  | (.ok a, w)        => return (a, w)
  | (.error cause, _) => throw (.refused cause)

/-- A uniform point of the world at least `margin` away from every wall, or in the middle where the
world is too small for that. -/
def randomPlace (config : WorldConfig) (margin : Float) : Draw Vec := do
  let mx := lesser margin (config.width / 2.0)
  let my := lesser margin (config.height / 2.0)
  let x ← Draw.closedReal mx (config.width - mx)
  let y ← Draw.closedReal my (config.height - my)
  return ⟨x, y⟩

/-! ## Spawning and removing -/

/-- Gives a creature, whose body is in the engine, the next rank. -/
def spawnCreature (c : Creature) : World E :=
  let rank : Rank := ⟨w.lastRank + 1⟩
  { w with
    lastRank       := rank.number
    creatures      := w.creatures.insert rank c
    creatureOfBody := w.creatureOfBody.insert c.body rank
    creatureOfId   := w.creatureOfId.insert c.id rank }

/-- Changes the creature of a rank. -/
def modifyCreature (rank : Rank) (f : Creature → Creature) : World E :=
  { w with creatures := w.creatures.modify rank f }

variable [Physics E]

/-- Puts a pellet into the world, with a body in the engine and the next rank. -/
def spawnPellet (position : Vec) : Except Fault (Pellet × World E) := do
  let (body, enclosure) := Physics.addBody w.enclosure Pellet.radius position .food
  let (id, w) ← { w with enclosure }.draw Draw.ident
  let pellet : Pellet := { id, body, position }
  let rank : Rank := ⟨w.lastRank + 1⟩
  return (pellet,
    { w with
      lastRank     := rank.number
      pellets      := w.pellets.insert rank pellet
      pelletOfBody := w.pelletOfBody.insert body rank })

/-- Takes a creature and its body out of the world. -/
def removeCreature (rank : Rank) : Option (Creature × World E) :=
  (w.creatures.get? rank).map fun c =>
    (c, { w with
          creatures      := w.creatures.erase rank
          creatureOfBody := w.creatureOfBody.erase c.body
          creatureOfId   := w.creatureOfId.erase c.id
          enclosure      := Physics.removeBody w.enclosure c.body })

/-- Takes a pellet and its body out of the world. -/
def removePellet (rank : Rank) : Option (Pellet × World E) :=
  (w.pellets.get? rank).map fun p =>
    (p, { w with
          pellets      := w.pellets.erase rank
          pelletOfBody := w.pelletOfBody.erase p.body
          enclosure    := Physics.removeBody w.enclosure p.body })

/-- Sets the mass of the creature of a rank, and the size of its body. -/
def setMass (rank : Rank) (mass : Float) : World E :=
  match w.creatures.get? rank with
  | none   => w
  | some c =>
    let (c, enclosure) := c.setMass mass w.enclosure
    { w.modifyCreature rank fun _ => c with enclosure }

end World

end Vivarium
