import Vivarium.Proofs.World.Combat

/-!
# What bystanders keep

A turn belongs to one creature and may change it in any way. Of everybody else it touches the target of an
attack alone, which loses hunger and mass and is taken out of the world if it has starved of that. So what
a creature has from its birth on, and does not lose with mass or with hunger that it survives, it keeps as
long as no turn of its own takes it away.

Main results: `turns_others`, `refill_others`.
-/

namespace Vivarium

/-- A property that creatures are born with, and that no change of mass and no survived change of hunger
takes away. -/
structure Creature.Passive (P : Creature → Prop) : Prop where
  newborn  : ∀ {E : Type} [Physics E] {seed : Seed} {tick : Nat} {e : E} {c : Creature},
    c.Newborn seed tick e → P c
  withMass : ∀ {c : Creature}, P c → ∀ mass, P { c with mass }
  survived : ∀ {c : Creature}, P c → ∀ delta, (c.adjustHunger delta).isStarved = false →
    P (c.adjustHunger delta)

variable {E : Type}

namespace World

variable {P : Creature → Prop} {ranks : List Rank} {w w' : World E}

/-- Whoever is alive and not of the given ranks has the property. -/
def Others (P : Creature → Prop) (ranks : List Rank) (w : World E) : Prop :=
  ∀ rank c, rank ∉ ranks → w.creatures.get? rank = some c → P c

namespace Others

/-- At first there is nobody else. -/
theorem keys (w : World E) : w.Others P w.creatures.keys := by
  intro rank c hother hc
  exact absurd (Table.mem_keys_of_get? hc) hother

/-- Only what is found under other ranks matters. -/
theorem congr (h : w.Others P ranks)
    (hsame : ∀ rank, rank ∉ ranks → w'.creatures.get? rank = w.creatures.get? rank) :
    w'.Others P ranks := by
  intro rank c hother hc
  rw [hsame rank hother] at hc
  exact h rank c hother hc

/-- Whoever is spawned is passive, and takes a rank that nobody else has. -/
theorem spawnCreature (h : w.Others P ranks) {c : Creature} (hc : P c) :
    (w.spawnCreature c).Others P ranks := by
  intro rank d hother hd
  change (w.creatures.insert _ c).get? rank = some d at hd
  rw [Table.get?_insert] at hd
  split at hd
  · cases hd
    exact hc
  · exact h rank d hother hd

variable [Physics E] [LawfulPhysics E]

/-- In an exchange only the target loses anything, and if it loses the property, it has starved. -/
theorem exchanged (hP : Creature.Passive P) (h : w.Others P ranks) {actor target : Rank}
    (hactor : actor ∈ ranks) {attacker victim : Creature}
    (hvictim : w.creatures.get? target = some victim) (targetId : Ident) {rank : Rank} {c : Creature}
    (hother : rank ∉ ranks)
    (hc : (w.exchanged actor target attacker victim targetId).creatures.get? rank = some c) :
    P c ∨ rank = target ∧ c.isStarved = true := by
  have hne : rank ≠ actor := fun heq => hother (heq ▸ hactor)
  unfold World.exchanged at hc
  generalize Laser.mk _ _ _ _ _ = laser at hc
  obtain ⟨d, hd, -⟩ := (w.rewarded_quiet actor attacker laser).lives target victim hvictim
  rw [get?_bitten hd] at hc
  split at hc
  · -- the target was not rewarded, as that is done to the attacker
    rename_i heq
    subst heq
    rw [get?_rewarded, if_neg hne, hvictim, Option.some.injEq] at hd
    subst hd
    cases hc
    have hbitten : P victim := h rank victim hother hvictim
    cases hstarved : (victim.adjustHunger (-w.config.combat.targetHungerLoss)).isStarved with
    | false => exact .inl (hP.withMass (hP.survived hbitten _ hstarved) _)
    | true => exact .inr ⟨rfl, hstarved⟩
  · rw [get?_rewarded, if_neg hne] at hc
    exact .inl (h rank c hother hc)

end Others

end World

/-! ## Turns -/

variable [Physics E]

namespace Stage

variable {P : Creature → Prop} {ranks : List Rank} {s s' : Stage E} {rank other : Rank}

/-- Reaping leaves a creature there if it has not starved. -/
theorem get?_reap_self (s : Stage E) (rank : Rank) :
    (s.reap rank).world.creatures.get? rank =
      (s.world.creatures.get? rank).filter fun c => !c.isStarved := by
  unfold reap kill World.removeCreature
  cases hget : s.world.creatures.get? rank with
  | none => simp [hget]
  | some c =>
    cases hstarved : c.isStarved with
    | false => simp [Option.filter, hget, hstarved]
    | true => simp [Option.filter, hstarved, log, Table.get?_erase]

/-- Feeding changes nothing about anybody else. -/
theorem get?_feed (s : Stage E) (hne : other ≠ rank) :
    (s.feed rank).world.creatures.get? other = s.world.creatures.get? other := by
  rcases s.feed_cases rank with hnothing | ⟨eater, food, pellet, world, -, hremoved, hfed⟩
  · rw [hnothing]
  · rw [hfed]
    obtain ⟨-, rfl⟩ := World.removePellet_inv hremoved
    -- the meal is credited to the creature under `rank`, and to nobody else
    show (World.fed _ rank _).creatures.get? other = _
    unfold World.fed
    rw [World.get?_setMass, if_neg hne, World.get?_modifyCreature, if_neg hne]

/-- Nor does the counting down of a laser. -/
theorem get?_tickLaser (s : Stage E) (hne : other ≠ rank) :
    (s.tickLaser rank).world.creatures.get? other = s.world.creatures.get? other := by
  rcases s.tickLaser_cases rank with hnothing | ⟨own, target, hticked⟩
  · rw [hnothing]
  · rw [hticked]
    show (s.world.modifyCreature rank _).creatures.get? other = _
    rw [World.get?_modifyCreature, if_neg hne]

/-- Nor does metabolism. -/
theorem get?_metabolize (s : Stage E) (hne : other ≠ rank) :
    (s.metabolize rank).world.creatures.get? other = s.world.creatures.get? other := by
  rw [metabolize_eq, get?_reap hne]
  show (s.world.modifyCreature rank _).creatures.get? other = _
  rw [World.get?_modifyCreature, if_neg hne]

/-- A parent is one of those whose turns are meant, and its child is passive. -/
theorem replicate_others (hP : Creature.Passive P) (h : s.world.Others P ranks) (hrank : rank ∈ ranks) :
    Outcome.Ensures (s.replicate rank) (·.world.Others P ranks) := by
  refine (s.replicate_cases rank).mono fun s' hreplicated => ?_
  cases hreplicated with
  | refused => exact h
  | delivered _ _ _ _ _ hnewborn =>
    -- the child is a newcomer, and the parent pays under its own rank
    rw [deliver_world]
    refine World.Others.spawnCreature (h.congr fun other hother => ?_) (hP.newborn hnewborn)
    have hne : other ≠ rank := fun heq => hother (heq ▸ hrank)
    rw [World.get?_setMass, if_neg hne]

/-- Running the genes changes nothing about anybody else. -/
theorem get?_runGenes {requests : List Interaction} (hgenes : s.runGenes rank = .ok (requests, s'))
    (hne : other ≠ rank) : s'.world.creatures.get? other = s.world.creatures.get? other := by
  rcases runGenes_cases hgenes with ⟨-, -, rfl⟩ | ⟨c, turn, source, similarity, -, -, -, rfl⟩
  · rfl
  · -- what the turn has made of the creature is written back under its own rank
    show (s.world.creatures.modify rank fun _ => turn.creature).get? other = _
    rw [Table.get?_modify, if_neg hne]

variable [LawfulPhysics E]

/-- Whoever is hit by one of them keeps the property, or has starved of it and is gone. -/
theorem attack_others (hP : Creature.Passive P) (h : s.world.Others P ranks) {actor : Rank}
    (hactor : actor ∈ ranks) (target : Rank) (targetId : Ident) :
    (s.attack actor target targetId).world.Others P ranks := by
  rcases s.attack_cases actor target targetId with hnothing | ⟨attacker, victim, -, hvictim, -, hattack⟩
  · rw [hnothing]
    exact h
  · rw [hattack]
    intro rank c hother hc
    by_cases hrank : rank = target
    -- the target has been looked at after the exchange
    · subst hrank
      rw [get?_reap_self, Option.filter_eq_some_iff] at hc
      rcases World.Others.exchanged hP h hactor hvictim targetId hother hc.1 with hkept | ⟨-, hstarved⟩
      · exact hkept
      · simp [hstarved] at hc
    · rw [get?_reap hrank] at hc
      rcases World.Others.exchanged hP h hactor hvictim targetId hother hc with hkept | ⟨heq, -⟩
      · exact hkept
      · exact absurd heq hrank

/-- So no request of a creature whose turn is meant does more to others than an attack. -/
theorem interact_others (hP : Creature.Passive P) {actor : Rank} (hactor : actor ∈ ranks) (s : Stage E)
    (r : Interaction) (h : s.world.Others P ranks) :
    Outcome.Ensures (interact actor s r) (·.world.Others P ranks) := by
  cases r with
  | attack target targetId => exact .pure (attack_others hP h hactor target targetId)
  | replicate => exact replicate_others hP h hactor

/-- The turn of a creature of one of the ranks leaves the others the property. -/
theorem turn_others (hP : Creature.Passive P) (hrank : rank ∈ ranks) (s : Stage E)
    (h : s.world.Others P ranks) : Outcome.Ensures (s.turn rank) (·.world.Others P ranks) := by
  have hne {other : Rank} (hother : other ∉ ranks) : other ≠ rank := fun heq => hother (heq ▸ hrank)
  unfold turn
  refine .ite (fun _ => ?_) fun _ => .pure h
  -- the creature's own meal and laser are its own affair
  have hready : ((s.feed rank).tickLaser rank).world.Others P ranks := h.congr fun other hother => by
    rw [get?_tickLaser _ (hne hother), get?_feed _ (hne hother)]
  refine .bind (.ofFault fun _ hgenes => hgenes) ?_
  rintro ⟨requests, ran⟩ hgenes
  have hran : ran.world.Others P ranks :=
    hready.congr fun other hother => get?_runGenes hgenes (hne hother)
  refine .bind (.foldlM_invariant (interact_others hP hrank) requests ran hran) fun done hdone => ?_
  exact .pure (hdone.congr fun other hother => get?_metabolize _ (hne hother))

/-- **The turns of creatures of the ranks leave the others the property.** -/
theorem turns_others (hP : Creature.Passive P) {taken : List Rank} (htaken : ∀ rank ∈ taken, rank ∈ ranks)
    (h : s.world.Others P ranks) : Outcome.Ensures (s.turns taken) (·.world.Others P ranks) := by
  unfold turns
  exact .foldlM_of_mem (fun rank hrank s => turn_others hP (htaken rank hrank) s) s h

end Stage

/-! ## Filling up -/

namespace World

variable {P : Creature → Prop} {ranks : List Rank} {w : World E}

/-- A fresh creature is passive. -/
theorem spawnFresh_others (hP : Creature.Passive P) (h : w.Others P ranks) :
    Outcome.Ensures w.spawnFresh fun (_, w') => w'.Others P ranks := by
  refine (w.spawnFresh_newborn (P := fun _ => True) fun _ => .any).mono ?_
  rintro ⟨e, w'⟩ ⟨place, program, c, source, -, hnewborn, -, -, rfl⟩
  exact Others.spawnCreature (h.congr fun _ _ => rfl) (hP.withMass (hP.newborn hnewborn) _)

/-- So are any number of them. -/
theorem spawnMany_others (hP : Creature.Passive P) (n : Nat) (h : w.Others P ranks) :
    Outcome.Ensures (w.spawnMany n) fun (_, w') => w'.Others P ranks :=
  spawnMany_invariant (fun _ => spawnFresh_others hP) n w h

/-- So filling up brings nobody who is not. -/
theorem refill_others (hP : Creature.Passive P) (h : w.Others P ranks) :
    Outcome.Ensures w.refill fun (_, w') => w'.Others P ranks :=
  spawnMany_others hP _ h

end World

end Vivarium
