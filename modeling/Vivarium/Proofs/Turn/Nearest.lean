import Vivarium.Proofs.World.Requests

/-!
# Whom an attack is on

A creature that looks for somebody to attack searches the creatures in view, without itself and its kin, for the
nearest in its attack range. So an attack is on the nearest of those whom it finds to attack, and nobody is attacked
only if there is nobody whom it could.

Main results: `nearestCreature_isNearest`, `nearestCreature_eq_none_iff`.
-/

namespace Vivarium

variable {s : Surroundings} {c d : Creature} {position : Vec} {v : CreatureView}

/-- **An attack is on the nearest** of those whom the creature finds to attack, and on the first of several
equally near. -/
theorem nearestCreature_isNearest
    (h : s.nearestCreature c position c.traits.attackRange .stranger = some v) :
    IsNearest position (·.position) (s.Exposes c position) s.creatures v :=
  (nearestInRange_isNearest h).of_filter.congr fun _ hy => (exposes_iff hy).symm

/-- A creature that finds nobody to attack has nobody in view whom it could. -/
theorem nearestCreature_eq_none_iff :
    s.nearestCreature c position c.traits.attackRange .stranger = none ↔ ∀ v, ¬ s.Exposes c position v := by
  unfold Surroundings.nearestCreature
  rw [nearestInRange_eq_none_iff]
  constructor
  · intro hout v hv
    obtain ⟨htest, hrange⟩ := (exposes_iff hv.mem).mp hv
    exact hout v (List.mem_filter.mpr ⟨hv.mem, htest⟩) hrange
  · intro hnobody v hv hrange
    obtain ⟨hmem, htest⟩ := List.mem_filter.mp hv
    exact hnobody v ((exposes_iff hmem).mpr ⟨htest, hrange⟩)

/-- Only what a creature keeps through life matters. -/
theorem isNearest_exposes_congr (hsame : c.Same d)
    (h : IsNearest position (·.position) (s.Exposes c position) s.creatures v) :
    IsNearest position (·.position) (s.Exposes d position) s.creatures v :=
  h.congr fun _ _ => ⟨(·.congr hsame), (·.congr hsame.symm)⟩

end Vivarium
