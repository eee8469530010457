import Vivarium.Proofs.Creature.Turns
import Vivarium.Proofs.Evolution.Steady

/-!
# Turns and births do not break off

A creature draws headings and genes of its own program, and neither is ever out of range. What is born draws
an identity and a heading; a child also goes through a reproduction, and counts generations and mutations on
from its parent's, which have to leave room for one more.

Main results: `Creature.takeTurn_steady`, `Birth.root_steady`, `Birth.child_steady`.
-/

namespace Vivarium

/-! ## Turns -/

/-- **A turn does not break off**, whatever there is to sense. -/
theorem Creature.takeTurn_steady (c : Creature) (position : Vec) (s : Surroundings) :
    (c.takeTurn position s).Steady :=
  (c.takeTurn_settles position s).steady

/-! ## Births -/

variable {E : Type} [Physics E]

theorem Seed.embody_steady (seed : Seed) (tick : Nat) (e : E) : (seed.embody tick e).Steady := by
  unfold embody
  refine .bind Draw.ident_steady .any fun id _ => ?_
  exact .bind Draw.heading_steady .any fun _ _ => .pure

namespace Birth

variable (position : Vec) (tick : Nat) (config : Config) (e : E)

theorem root_steady : (root position tick config e).Steady := by
  unfold root
  refine .bind (Program.random_steady _ _) .any fun program _ => ?_
  exact .bind (.lift (Seed.embody_steady _ _ _)) .any fun _ _ => .pure

omit [Physics E] in
/-- Where the parent's counters leave room for one more, its child's can be counted. -/
theorem childLineage_steady {parent : Creature} (hgeneration : parent.lineage.generation + 1 < twoTo 32)
    (hmutations : parent.lineage.mutations + 1 < twoTo 32) (mutated : Bool) :
    Steady (childLineage parent mutated) := by
  have hone : mutated.toNat ≤ 1 := Bool.toNat_le mutated
  unfold childLineage addCount
  rw [if_pos hgeneration, if_pos (by omega)]
  exact .ok

theorem child_steady (hweights : config.evolution.operatorWeights.total < twoTo 32) {parent : Creature}
    (hgeneration : parent.lineage.generation + 1 < twoTo 32)
    (hmutations : parent.lineage.mutations + 1 < twoTo 32) :
    (child parent position tick config e).Steady := by
  unfold child
  refine .bind (parent.program.evolve_steady parent.traits hweights) .any fun o _ => ?_
  refine .bind (.lift (.lift (childLineage_steady hgeneration hmutations o.mutated))) .any fun lineage _ => ?_
  exact .bind (.lift (Seed.embody_steady _ _ _)) .any fun _ _ => .pure

end Birth

end Vivarium
