import Vivarium.Ident

/-!
# Events

What is told about a tick, in the order in which it happened. Creatures and pellets appear by their
identities.
-/

namespace Vivarium

inductive Event where
  /-- A creature appeared, fresh or as a child. -/
  | birth (id : Ident) (parentId : Option Ident) (generation tick : Nat)
  /-- A creature starved. -/
  | death (id : Ident) (age tick : Nat)
  /-- The operator of this name was run on a child's program or traits. -/
  | mutation (id : Ident) (operator : String) (tick : Nat)
  | attack (attacker target : Ident) (tick : Nat)
  | foodEaten (creature food : Ident) (tick : Nat)
  /-- The last creature died. -/
  | extinction (tick : Nat)
deriving DecidableEq, Repr

end Vivarium
