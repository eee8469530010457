import Vivarium.World.Tick

/-!
# Working with a world from outside

Between ticks, creatures and pellets can be added and creatures can be looked up, changed and compared.
-/

namespace Vivarium.World

variable {E : Type}

/-- The rank of the live creature that was spawned under an identity. -/
def liveRank? (w : World E) (id : Ident) : Option Rank :=
  (w.rankOf? id).filter w.creatures.contains

/-- Changes a live creature; nothing if there is none of that identity. -/
def edit? (w : World E) (id : Ident) (f : Creature → Creature) : Option (World E) :=
  (w.liveRank? id).map fun rank => w.modifyCreature rank f

/-- The similarity of two live creatures' genetic strings, by way of the memo. -/
def genomeSimilarity (w : World E) (a b : Ident) : Option Float × World E :=
  match w.creature? a, w.creature? b with
  | some a, some b =>
    let (score, similarity) := w.similarity.similarity a.program.geneticString b.program.geneticString
    (some score, { w with similarity })
  | _, _ => (none, w)

variable [Physics E]

/-- Gives a seed a body and a life, and yields the identity of the new creature. -/
def insertCreature (w : World E) (seed : Seed) : Except Fault (Ident × World E) := do
  let ((c, enclosure), w) ← w.draw (seed.embody w.tick w.enclosure)
  return (c.id, { w with enclosure }.spawnCreature c)

/-- Puts a pellet at a place, and yields its identity. -/
def insertPellet (w : World E) (place : Vec) : Except Fault (Ident × World E) := do
  let (pellet, w) ← w.spawnPellet place
  return (pellet.id, w)

/-- Sets the mass of a live creature and the size of its body; nothing if there is none of that
identity. -/
def setCreatureMass? (w : World E) (id : Ident) (mass : Float) : Option (World E) :=
  (w.liveRank? id).map fun rank => w.setMass rank mass

/-- The live creatures whose bodies contain a point, in spawn order. -/
def creaturesAt (w : World E) (point : Vec) : List Creature :=
  (Physics.bodiesAt w.enclosure (w.creatures.values.map (·.body)) point).filterMap fun body =>
    (w.creatureOfBody.get? body).bind w.creatures.get?

end Vivarium.World
