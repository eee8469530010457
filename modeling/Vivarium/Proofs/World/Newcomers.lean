import Vivarium.Proofs.World.Bystanders

/-!
# Newcomers wait for the next tick

The turns of a tick are those of the creatures that were there when it began. Whoever comes into the world
during the tick, as a child or in the end to fill up the population, has no turn in it. A newcomer may be
attacked, which costs hunger and mass, and may die of it; but its program stays at its first gene, with no
delay and no jump, and it holds no laser, since only its own turn would change any of these.

Main results: `turns_resting`, `refill_resting`.
-/

namespace Vivarium

/-- The creature has not had a turn: it stands at its first gene, without delay, jump or laser. -/
structure Creature.Pristine (c : Creature) : Prop where
  cursor_eq    : c.cursor = 0
  idle         : c.moveDelay = 0
  pending_none : c.pendingJump = none
  unarmed      : c.laser = none

/-- Only a turn of its own changes any of this. -/
theorem Creature.pristine_passive : Creature.Passive Creature.Pristine where
  newborn  := fun h => ⟨h.cursor_eq, h.idle, h.pending_none, h.unarmed⟩
  withMass := fun h _ => ⟨h.cursor_eq, h.idle, h.pending_none, h.unarmed⟩
  survived := fun h _ _ => ⟨h.cursor_eq, h.idle, h.pending_none, h.unarmed⟩

variable {E : Type}

namespace World

/-- Whoever is alive and not of the given ranks is pristine. -/
def Resting (ranks : List Rank) (w : World E) : Prop :=
  ∀ rank c, rank ∉ ranks → w.creatures.get? rank = some c → c.Pristine

namespace Resting

variable {ranks : List Rank} {w w' : World E}

/-- At first there is nobody else. -/
theorem keys (w : World E) : w.Resting w.creatures.keys := Others.keys w

/-- Nothing but the table of creatures matters. -/
theorem congr (h : w.Resting ranks) (hcreatures : w'.creatures = w.creatures) : w'.Resting ranks :=
  Others.congr h fun _ _ => by rw [hcreatures]

end Resting

end World

variable [Physics E] [LawfulPhysics E]

/-- **The turns of creatures of the ranks leave everybody else resting.** -/
theorem Stage.turns_resting {ranks : List Rank} {s : Stage E} {taken : List Rank}
    (htaken : ∀ rank ∈ taken, rank ∈ ranks) (h : s.world.Resting ranks) :
    Outcome.Ensures (s.turns taken) (·.world.Resting ranks) :=
  turns_others Creature.pristine_passive htaken h

omit [LawfulPhysics E] in
theorem World.refill_resting {ranks : List Rank} {w : World E} (h : w.Resting ranks) :
    Outcome.Ensures w.refill fun (_, w') => w'.Resting ranks :=
  refill_others Creature.pristine_passive h

end Vivarium
