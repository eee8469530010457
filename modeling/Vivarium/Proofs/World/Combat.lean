import Vivarium.Proofs.Scalar.Whole
import Vivarium.Proofs.World.Requests

/-!
# What an attack does to the masses

An attack has two sides, and they are not two sides of one account. The attacker gains the mass that the
configuration names, whoever its target is; the target loses as much, but only down to the minimum. Where
the target has that much above the minimum, mass is moved from one to the other. Where it has not, the rest
of the gain comes from nowhere, as with any target that was born at the minimum.

Main result: `attack_gains_and_losses`.
-/

namespace Vivarium

variable {E : Type} [Physics E]

namespace World

variable {w : World E}

/-! ## Who is changed, and how -/

/-- The attacker is rewarded, and nobody else. -/
theorem get?_rewarded (w : World E) (actor : Rank) (attacker : Creature) (laser : Laser) (other : Rank) :
    (w.rewarded actor attacker laser).creatures.get? other =
      if other = actor then (w.creatures.get? other).map fun c =>
        { { c with laser := some laser }.adjustHunger w.config.combat.attackerHungerGain with
          mass := attacker.mass + w.config.combat.massTransfer }
      else w.creatures.get? other := by
  unfold rewarded
  rw [get?_setMass, get?_modifyCreature]
  split
  · rw [Option.map_map]
    rfl
  · rfl

/-- The target is bitten, and nobody else. -/
theorem get?_bitten {target : Rank} {c : Creature} (hc : w.creatures.get? target = some c)
    (combat : CombatConfig) (victim : Creature) (other : Rank) :
    (w.bitten combat target victim).creatures.get? other =
      if other = target then some { c.adjustHunger (-combat.targetHungerLoss) with
        mass := greater (c.mass - combat.massTransfer) w.config.metabolism.minMass }
      else w.creatures.get? other := by
  -- the hunger is lost first, and the mass is then set on top of it
  have hmodified (rank : Rank) := w.get?_modifyCreature target
    (fun c => c.adjustHunger (-combat.targetHungerLoss)) rank
  unfold bitten
  dsimp only
  rw [get?_setMass, hmodified, hmodified, if_pos rfl, hc]
  split
  · rename_i heq
    rw [heq, hc]
    rfl
  · rfl

variable [LawfulPhysics E]

/-- An exchange adds the transfer to the attacker's mass and takes it from the target's, down to the
minimum. -/
theorem exchanged_masses {actor target : Rank} {attacker victim : Creature}
    (hattacker : w.creatures.get? actor = some attacker)
    (hvictim : w.creatures.get? target = some victim) (hother : actor ≠ target) (targetId : Ident) :
    (∃ c, (w.exchanged actor target attacker victim targetId).creatures.get? actor = some c ∧
      attacker.Lives c ∧ c.mass = attacker.mass + w.config.combat.massTransfer) ∧
    (∃ c, (w.exchanged actor target attacker victim targetId).creatures.get? target = some c ∧
      victim.Lives c ∧
      c.mass = greater (victim.mass - w.config.combat.massTransfer) w.config.metabolism.minMass) ∧
    ∀ rank, rank ≠ actor → rank ≠ target →
      (w.exchanged actor target attacker victim targetId).creatures.get? rank =
        w.creatures.get? rank := by
  have hquiet := w.exchanged_quiet actor target attacker victim targetId
  obtain ⟨attacker', hattacker', hattackerLives⟩ := hquiet.lives actor attacker hattacker
  obtain ⟨victim', hvictim', hvictimLives⟩ := hquiet.lives target victim hvictim
  clear hquiet
  unfold exchanged at hattacker' hvictim' ⊢
  generalize Laser.mk _ _ _ _ _ = laser at *
  -- the attacker is rewarded first, which leaves the target as it was
  have hrewarded := w.get?_rewarded actor attacker laser
  have hstill : (w.rewarded actor attacker laser).creatures.get? target = some victim := by
    rw [hrewarded, if_neg hother.symm]
    exact hvictim
  have hbitten := get?_bitten hstill w.config.combat victim
  refine ⟨⟨attacker', hattacker', hattackerLives, ?_⟩, ⟨victim', hvictim', hvictimLives, ?_⟩, ?_⟩
  · rw [hbitten, if_neg hother, hrewarded, if_pos rfl, hattacker, Option.map_some] at hattacker'
    cases hattacker'
    rfl
  · rw [hbitten, if_pos rfl, (w.rewarded_quiet actor attacker laser).config_eq] at hvictim'
    cases hvictim'
    rfl
  · intro rank hactor htarget
    rw [hbitten, if_neg htarget, hrewarded, if_neg hactor]

end World

namespace Stage

/-- An attack on a living target is an exchange, after which the target may be reaped. -/
theorem attack_of_alive {s : Stage E} {actor target : Rank} {attacker victim : Creature}
    (hattacker : s.world.creatures.get? actor = some attacker)
    (hvictim : s.world.creatures.get? target = some victim) :
    s.attack actor target victim.id =
      ({ s with world := s.world.exchanged actor target attacker victim victim.id }.log
        (.attack attacker.id victim.id
          (s.world.exchanged actor target attacker victim victim.id).tick)).reap target := by
  rw [attack_eq, hattacker, hvictim]
  dsimp only
  rw [if_neg (not_not_intro rfl)]

end Stage

variable [LawfulPhysics E]

open Double in
/-- **The attacker gains the transfer, the target loses what it can spare.** Whenever an attack is carried
out on masses that are whole numbers, the attacker's mass grows by the transfer, and the target's shrinks by
it down to the minimum; in that state the target is looked at and may die. So the gain is the loss if and
only if the target has the transfer to spare. All others are left alone. -/
theorem attack_gains_and_losses {s : Stage E} {actor target : Rank} {attacker victim : Creature}
    {a v m t : Int} (hattacker : s.world.creatures.get? actor = some attacker)
    (hvictim : s.world.creatures.get? target = some victim) (hother : actor ≠ target)
    (ha : IsWhole attacker.mass a) (hv : IsWhole victim.mass v)
    (hm : IsWhole s.world.config.metabolism.minMass m)
    (ht : IsWhole s.world.config.combat.massTransfer t)
    (hgain : (a + t).natAbs ≤ 2 ^ 53) (hloss : (v - t).natAbs ≤ 2 ^ 53) :
    ∃ world attacker' victim',
      s.attack actor target victim.id =
        ({ s with world }.log (.attack attacker.id victim.id world.tick)).reap target ∧
      world.creatures.get? actor = some attacker' ∧ attacker.Lives attacker' ∧
      world.creatures.get? target = some victim' ∧ victim.Lives victim' ∧
      (∀ rank, rank ≠ actor → rank ≠ target →
        world.creatures.get? rank = s.world.creatures.get? rank) ∧
      (s.attack actor target victim.id).world.creatures.get? actor = some attacker' ∧
      IsWhole attacker'.mass (a + t) ∧ IsWhole victim'.mass (max (v - t) m) ∧
      ((a + t) - a = v - max (v - t) m ↔ m ≤ v - t) := by
  have hattack := Stage.attack_of_alive hattacker hvictim
  obtain ⟨⟨attacker', hattacker', hattackerLives, hgained⟩, ⟨victim', hvictim', hvictimLives, hlost⟩,
    hothers⟩ := World.exchanged_masses hattacker hvictim hother victim.id
  -- sums and differences of whole masses are whole
  refine ⟨_, attacker', victim', hattack, hattacker', hattackerLives, hvictim', hvictimLives, hothers, ?_,
    ?_, ?_, ?_⟩
  · rw [hattack, Stage.get?_reap hother]
    exact hattacker'
  · rw [hgained]
    exact ha.add ht hgain
  · rw [hlost]
    exact (hv.sub ht hloss).greater hm
  · omega

/-- Two creatures that both have mass to spare. -/
def rivals : List Call :=
  [.insertCreature { program := .idle, position := ⟨30.0, 40.0⟩, mass := 120.0 },
    .insertCreature { program := .idle, position := ⟨60.0, 80.0⟩, mass := 140.0 }]

theorem attack_gains_and_losses_rivals :
    ∃ h attacker victim world attacker' victim',
      History.run .deserted (Enclosure.empty 1280.0 720.0) 0 rivals = .ok h ∧
      h.world.creatures.get? ⟨1⟩ = some attacker ∧ h.world.creatures.get? ⟨2⟩ = some victim ∧
      Double.IsWhole attacker.mass 120 ∧ Double.IsWhole victim.mass 140 ∧
      (Stage.start h.world []).attack ⟨1⟩ ⟨2⟩ victim.id =
        ({ Stage.start h.world [] with world }.log (.attack attacker.id victim.id world.tick)).reap ⟨2⟩ ∧
      world.creatures.get? ⟨1⟩ = some attacker' ∧ world.creatures.get? ⟨2⟩ = some victim' ∧
      Double.IsWhole attacker'.mass (120 + 20) ∧ Double.IsWhole victim'.mass (max (140 - 20) 100) ∧
      ((120 + 20 : Int) - 120 = 140 - max (140 - 20) 100 ↔ (100 : Int) ≤ 140 - 20) := by
  -- the numbers of these two are computed, and what they come to is taken from the theorem
  have hcheck : (History.run .deserted (Enclosure.empty 1280.0 720.0) 0 rivals).toOption.any (fun h =>
      (h.world.creatures.get? ⟨1⟩).any fun attacker => (h.world.creatures.get? ⟨2⟩).any fun victim =>
        decide (Double.IsWhole attacker.mass 120 ∧ Double.IsWhole victim.mass 140 ∧
          Double.IsWhole h.world.config.metabolism.minMass 100 ∧
          Double.IsWhole h.world.config.combat.massTransfer 20)) = true := by
    decide +kernel
  obtain ⟨h, hrun, hcheck⟩ := except_any_inv hcheck
  obtain ⟨attacker, hattacker, hcheck⟩ := (Option.any_eq_true _ _).mp hcheck
  obtain ⟨victim, hvictim, hcheck⟩ := (Option.any_eq_true _ _).mp hcheck
  obtain ⟨ha, hv, hm, ht⟩ := of_decide_eq_true hcheck
  obtain ⟨world, attacker', victim', hattack, hattacker', -, hvictim', -, -, -, hgained, hlost, hiff⟩ :=
    attack_gains_and_losses (s := Stage.start h.world []) hattacker hvictim (by decide) ha hv hm ht
      (by decide) (by decide)
  exact ⟨h, attacker, victim, world, attacker', victim', hrun, hattacker, hvictim, ha, hv, hattack,
    hattacker', hvictim', hgained, hlost, hiff⟩

/-- Not every attack moves mass: in the first tick of a world of two creatures of the minimal mass, the
first attacks the second and gains 20, and the second loses nothing. -/
theorem attack_creates_mass :
    ∃ h start s attacker victim attacker' victim',
      History.run .cramped (Enclosure.empty 20.0 20.0) 0 [] = .ok h ∧
      h.world.openingBy .update = .ok start ∧
      (start.prepared ⟨1⟩).runGenes ⟨1⟩ = .ok ([.attack ⟨2⟩ victim.id], s) ∧
      s.world.creatures.get? ⟨1⟩ = some attacker ∧ s.world.creatures.get? ⟨2⟩ = some victim ∧
      (s.attack ⟨1⟩ ⟨2⟩ victim.id).world.creatures.get? ⟨1⟩ = some attacker' ∧
      (s.attack ⟨1⟩ ⟨2⟩ victim.id).world.creatures.get? ⟨2⟩ = some victim' ∧
      Double.IsWhole s.world.config.metabolism.minMass 100 ∧
      Double.IsWhole s.world.config.combat.massTransfer 20 ∧
      Double.IsWhole attacker.mass 100 ∧ Double.IsWhole victim.mass 100 ∧
      Double.IsWhole attacker'.mass 120 ∧ Double.IsWhole victim'.mass 100 ∧
      attacker'.mass - attacker.mass ≠ victim.mass - victim'.mass := by
  -- the whole course of the turn is computed: the attacker gains what the target cannot lose
  have hcheck : (History.run .cramped (Enclosure.empty 20.0 20.0) 0 []).toOption.any (fun h =>
      (h.world.openingBy .update).toOption.any fun start =>
        ((start.prepared ⟨1⟩).runGenes ⟨1⟩).toOption.any fun ran =>
          (ran.2.world.creatures.get? ⟨1⟩).any fun attacker =>
            (ran.2.world.creatures.get? ⟨2⟩).any fun victim =>
              ((ran.2.attack ⟨1⟩ ⟨2⟩ victim.id).world.creatures.get? ⟨1⟩).any fun attacker' =>
                ((ran.2.attack ⟨1⟩ ⟨2⟩ victim.id).world.creatures.get? ⟨2⟩).any fun victim' =>
                  decide (ran.1 = [.attack ⟨2⟩ victim.id] ∧
                    Double.IsWhole ran.2.world.config.metabolism.minMass 100 ∧
                    Double.IsWhole ran.2.world.config.combat.massTransfer 20 ∧
                    Double.IsWhole attacker.mass 100 ∧ Double.IsWhole victim.mass 100 ∧
                    Double.IsWhole attacker'.mass 120 ∧ Double.IsWhole victim'.mass 100 ∧
                    attacker'.mass - attacker.mass ≠ victim.mass - victim'.mass)) = true := by
    decide +kernel
  obtain ⟨h, hrun, hcheck⟩ := except_any_inv hcheck
  obtain ⟨start, hstart, hcheck⟩ := except_any_inv hcheck
  obtain ⟨⟨requests, s⟩, hgenes, hcheck⟩ := except_any_inv hcheck
  obtain ⟨attacker, hattacker, hcheck⟩ := (Option.any_eq_true _ _).mp hcheck
  obtain ⟨victim, hvictim, hcheck⟩ := (Option.any_eq_true _ _).mp hcheck
  obtain ⟨attacker', hattacker', hcheck⟩ := (Option.any_eq_true _ _).mp hcheck
  obtain ⟨victim', hvictim', hcheck⟩ := (Option.any_eq_true _ _).mp hcheck
  obtain ⟨rfl, hmasses⟩ := of_decide_eq_true hcheck
  exact ⟨h, start, s, attacker, victim, attacker', victim', hrun, hstart, hgenes, hattacker, hvictim,
    hattacker', hvictim', hmasses⟩

end Vivarium
