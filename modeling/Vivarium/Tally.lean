import Vivarium.World.Event

/-!
# The tally of a run

Counts ticks, births and deaths, remembers the latest population and number of pellets, and counts by
name everything else that events tell of.
-/

namespace Vivarium

structure Tally where
  ticks      : Nat := 0
  population : Nat := 0
  food       : Nat := 0
  births     : Nat := 0
  deaths     : Nat := 0
  /-- The named counters, in the order of their names. -/
  counters   : List (String × Nat) := []
deriving DecidableEq

namespace Tally

/-- Raises the counter of a name in a list that is in the order of names. -/
def raise (name : String) : List (String × Nat) → List (String × Nat)
  | []               => [(name, 1)]
  | (other, n) :: cs =>
    if name < other then (name, 1) :: (other, n) :: cs
    else if name = other then (other, n + 1) :: cs
    else (other, n) :: raise name cs

/-- Raises a named counter. -/
def increment (t : Tally) (name : String) : Tally := { t with counters := raise name t.counters }

/-- The value of a named counter. -/
def counter (t : Tally) (name : String) : Nat := (t.counters.lookup name).getD 0

/-- Counts one event. -/
def recordEvent (t : Tally) : Event → Tally
  | .birth ..             => { t with births := t.births + 1 }
  | .death ..             => { t with deaths := t.deaths + 1 }
  | .mutation _ operator _ => t.increment operator
  | .attack ..            => t.increment "attack"
  | .foodEaten ..         => t.increment "food_eaten"
  | .extinction _         => t.increment "extinction"

/-- Counts the events of a tick. -/
def recordEvents (t : Tally) (events : List Event) : Tally := events.foldl recordEvent t

/-- Counts a tick, at the end of which there are so many creatures and pellets. -/
def recordTick (t : Tally) (population food : Nat) : Tally :=
  { t with ticks := t.ticks + 1, population, food }

end Tally

end Vivarium
