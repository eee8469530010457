import Vivarium.Config.Basic
import Vivarium.Creature.Basic
import Vivarium.Kinship.Relation

/-!
# Sensing

What a creature can see of the world when its turn comes: a view of every other creature and of every
pellet, each in spawn order. Creatures are kin or strangers by hue, or, where genomes are compared, by
membership in a set worked out beforehand. Of all that lie within a range the nearest is chosen, and of
several equally near the first.
-/

namespace Vivarium

/-- The place in the order of spawning, which names a creature or pellet for good. -/
structure Rank where
  number : Nat
deriving DecidableEq, Repr, Inhabited

/-- What others see of a creature. -/
structure CreatureView where
  rank            : Rank
  id              : Ident
  body            : Handle
  position        : Vec
  hue             : Float
  familyThreshold : Float
deriving DecidableEq

/-- What creatures see of a pellet. -/
structure PelletView where
  rank     : Rank
  id       : Ident
  body     : Handle
  position : Vec
deriving DecidableEq

/-- The nearest item found so far, with its distance, after looking at one more. An item beyond the
range is passed over, and so is one at a distance that is no number. -/
def nearerOf (origin : Vec) (range : Float) (place : α → Vec) (best : Option (α × Float)) (item : α) :
    Option (α × Float) :=
  let d := origin.distance (place item)
  let closer := match best with
    | none        => true
    | some (_, b) => d < b
  if closer && d ≤ range then some (item, d) else best

/-- The nearest item within the range, the first of several equally near. -/
def nearestInRange (origin : Vec) (range : Float) (place : α → Vec) (items : List α) : Option α :=
  (items.foldl (nearerOf origin range place) none).map (·.1)

/-- Everything that an instruction may sense. -/
structure Surroundings where
  creatures  : List CreatureView
  pellets    : List PelletView
  population : Nat
  config     : Config
  /-- The identities of the acting creature's kin, where genomes are compared. -/
  kin        : Option (List Ident) := none

namespace Surroundings

/-- Whether a creature counts another as kin. -/
def isKin (s : Surroundings) (c : Creature) (other : CreatureView) : Bool :=
  match s.kin with
  | some ids => ids.contains other.id
  | none     =>
    Vivarium.isKin ⟨c.hue, c.traits.familyThreshold⟩ ⟨other.hue, other.familyThreshold⟩

/-- The company in which a creature counts another. -/
def companyOf (s : Surroundings) (c : Creature) (other : CreatureView) : Company :=
  if s.isKin c other then .kin else .stranger

/-- The nearest creature of the given company within a range, the creature itself apart. -/
def nearestCreature (s : Surroundings) (c : Creature) (position : Vec) (range : Float)
    (who : Company) : Option CreatureView :=
  nearestInRange position range (·.position)
    (s.creatures.filter fun v => v.id ≠ c.id && s.companyOf c v = who)

/-- The nearest pellet within a range. -/
def nearestPellet (s : Surroundings) (position : Vec) (range : Float) : Option PelletView :=
  nearestInRange position range (·.position) s.pellets

end Surroundings

end Vivarium
