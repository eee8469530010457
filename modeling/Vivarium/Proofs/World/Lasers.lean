import Vivarium.Proofs.World.TurnOrder

/-!
# Who touches a laser

A laser is the affair of its owner alone. In its owner's turn it is counted down, and set anew if the owner
attacks; nothing else that happens in a world touches it, and nobody comes into the world with one.
`World.Leaves` says of a change that it has left alone the lasers of some ranks. It has a lemma for each part
of a tick, and the turn of a creature leaves alone all lasers but its own.

Main results: `turns_leave`, `refill_leaves`, `interact_lasers`.
-/

namespace Vivarium

/-! ## Genes -/

/-- No instruction touches the laser. -/
theorem Creature.execute_laser (c : Creature) (position : Vec) (s : Surroundings) (i : Instruction) :
    (c.execute position s i).Ensures fun effect => effect.creature.laser = c.laser := by
  unfold execute
  -- no instruction writes to the laser: an attack asks for one, and it is the world that fires it
  cases i with
  | move power => exact .pure rfl
  | turn facing => exact .bind .any fun direction _ => .pure rfl
  | jump condition goal => exact .ite (fun _ => .pure rfl) fun _ => .pure rfl
  | attack =>
    dsimp only
    split
    · exact .pure rfl
    · exact .pure rfl
  | replicate => exact .ite (fun _ => .pure rfl) fun _ => .pure rfl
  | wait => exact .pure rfl

namespace Turn

/-- No gene touches the laser of the creature that executes it. -/
theorem executeGene_laser (position : Vec) (s : Surroundings) (t : Turn) :
    (executeGene position s t).Ensures fun t' => t'.creature.laser = t.creature.laser := by
  unfold executeGene
  refine .bind (Creature.execute_laser _ _ _ _) fun effect heffect => ?_
  exact .bind .any fun next _ => .pure heffect

/-- So no number of genes does. -/
theorem executeGenes_laser (position : Vec) (s : Surroundings) :
    ∀ (budget : Nat) (t : Turn),
      (executeGenes position s budget t).Ensures fun t' => t'.creature.laser = t.creature.laser
  | 0, _ => .pure rfl
  | budget + 1, t => by
    unfold executeGenes
    refine .ite (fun _ => ?_) fun _ => .pure rfl
    refine .bind (executeGene_laser position s t) fun t' ht' => ?_
    exact (executeGenes_laser position s budget t').mono fun t'' ht'' => ht''.trans ht'

end Turn

/-- **A turn does not touch the creature's own laser**: it may ask for an attack, which is carried out later. -/
theorem Creature.takeTurn_laser (c : Creature) (position : Vec) (s : Surroundings) :
    (c.takeTurn position s).Ensures fun turn => turn.creature.laser = c.laser := by
  unfold takeTurn
  exact .ite (fun _ => .pure rfl) fun _ => Turn.executeGenes_laser _ _ _ _

variable {E : Type}

namespace World

/-! ## Lasers that are left alone -/

/-- From `w` to `w'` the lasers of these ranks have been left alone: whoever is alive holds what it held, and
newcomers hold none. -/
structure Leaves (who : Rank → Prop) (w w' : World E) : Prop where
  lastRank_le : w.lastRank ≤ w'.lastRank
  lasers      : ∀ rank d, who rank → w'.creatures.get? rank = some d →
    (∃ c, w.creatures.get? rank = some c ∧ d.laser = c.laser) ∨ w.lastRank < rank.number ∧ d.laser = none

namespace Leaves

variable {who who' : Rank → Prop} {w w' w'' : World E}

theorem refl (w : World E) : Leaves who w w := ⟨Nat.le_refl _, fun _ d _ hd => .inl ⟨d, hd, rfl⟩⟩

/-- What was left alone before and after was left alone throughout. -/
theorem trans (h : Leaves who w w') (h' : Leaves who w' w'') : Leaves who w w'' := by
  refine ⟨Nat.le_trans h.lastRank_le h'.lastRank_le, fun rank e hwho he => ?_⟩
  rcases h'.lasers rank e hwho he with ⟨d, hd, hlaser⟩ | ⟨hnew, hnone⟩
  · rw [hlaser]
    exact h.lasers rank d hwho hd
  · exact .inr ⟨Nat.lt_of_le_of_lt h.lastRank_le hnew, hnone⟩

/-- Fewer creatures are left alone all the more. -/
theorem mono (h : Leaves who w w') (himp : ∀ rank, who' rank → who rank) : Leaves who' w w' :=
  ⟨h.lastRank_le, fun rank d hwho => h.lasers rank d (himp rank hwho)⟩

/-- Whoever is no newcomer was there before, with the same laser. -/
theorem held (h : Leaves who w w') {rank : Rank} (hwho : who rank) (hle : rank.number ≤ w.lastRank)
    {d : Creature} (hd : w'.creatures.get? rank = some d) :
    ∃ c, w.creatures.get? rank = some c ∧ d.laser = c.laser := by
  rcases h.lasers rank d hwho hd with hsame | ⟨hnew, -⟩
  · exact hsame
  · omega

/-- Only the table of creatures matters, and which ranks have been given out. -/
theorem of_creatures_eq (hcreatures : w'.creatures = w.creatures) (hlast : w.lastRank ≤ w'.lastRank) :
    Leaves who w w' :=
  ⟨hlast, fun _ d _ hd => .inl ⟨d, hcreatures ▸ hd, rfl⟩⟩

/-- A change that does not touch lasers may be made to anybody, and any other only to those who are not meant. -/
theorem modify {rank : Rank} {f : Creature → Creature} (hf : who rank → ∀ c, (f c).laser = c.laser) :
    Leaves who w (w.modifyCreature rank f) := by
  refine ⟨Nat.le_refl _, fun other d hwho hd => .inl ?_⟩
  rw [get?_modifyCreature] at hd
  split at hd
  · rename_i heq
    subst heq
    obtain ⟨c, hc, rfl⟩ := Option.map_eq_some_iff.mp hd
    exact ⟨c, hc, hf hwho c⟩
  · exact ⟨d, hd, rfl⟩

/-- Whoever comes into the world without a laser is no exception. -/
theorem spawnCreature {c : Creature} (hunarmed : c.laser = none) : Leaves who w (w.spawnCreature c) := by
  refine ⟨Nat.le_succ _, fun rank d _ hd => ?_⟩
  change (w.creatures.insert ⟨w.lastRank + 1⟩ c).get? rank = some d at hd
  rw [Table.get?_insert] at hd
  split at hd
  · rename_i heq
    cases hd
    rw [heq]
    exact .inr ⟨Nat.lt_succ_self _, hunarmed⟩
  · exact .inl ⟨d, hd, rfl⟩

variable [Physics E] [LawfulPhysics E]

/-- To set a mass is no exception either. -/
theorem setMass (w : World E) (rank : Rank) (mass : Float) : Leaves who w (w.setMass rank mass) := by
  refine ⟨(Quiet.setMass w rank mass).lastRank_eq.ge, fun other d _ hd => .inl ?_⟩
  rw [get?_setMass] at hd
  split at hd
  · obtain ⟨c, hc, rfl⟩ := Option.map_eq_some_iff.mp hd
    exact ⟨c, hc, rfl⟩
  · exact ⟨d, hd, rfl⟩

/-- A meal leaves all lasers alone. -/
theorem fed (w : World E) (rank : Rank) (eater : Creature) : Leaves who w (w.fed rank eater) :=
  (modify (f := (·.adjustHunger w.config.food.hungerRestore)) fun _ _ => rfl).trans (.setMass _ _ _)

/-- The target of an attack keeps its laser. -/
theorem bitten (w : World E) (combat : CombatConfig) (target : Rank) (victim : Creature) :
    Leaves who w (w.bitten combat target victim) :=
  (modify (f := (·.adjustHunger (-combat.targetHungerLoss))) fun _ _ => rfl).trans (.setMass _ _ _)

/-- Of both sides of an attack only the attacker's laser is touched. -/
theorem exchanged (w : World E) (actor target : Rank) (attacker victim : Creature) (targetId : Ident) :
    Leaves (· ≠ actor) w (w.exchanged actor target attacker victim targetId) :=
  ((modify fun hne => absurd rfl hne).trans (.setMass _ _ _)).trans (.bitten _ _ target victim)

end Leaves

variable [Physics E] [LawfulPhysics E]

/-- The laser that an attack leaves with the attacker. -/
theorem laser_exchanged {w : World E} (actor : Rank) (attacker : Creature) {target : Rank} {victim : Creature}
    (hvictim : w.creatures.get? target = some victim) (targetId : Ident) {c : Creature}
    (hc : (w.exchanged actor target attacker victim targetId).creatures.get? actor = some c) :
    c.laser = some
      { target := targetId, targetBody := victim.body, timer := w.config.combat.laserTicks
        start := w.placeOf attacker.body, stop := w.placeOf victim.body } := by
  unfold World.exchanged at hc
  generalize Laser.mk _ _ _ _ _ = laser at hc ⊢
  -- the attacker is rewarded before the target is bitten, and the two may be one
  obtain ⟨d, hd, -⟩ := (w.rewarded_quiet actor attacker laser).lives target victim hvictim
  rw [get?_bitten hd] at hc
  split at hc
  · rename_i heq
    subst heq
    rw [get?_rewarded, if_pos rfl] at hd
    obtain ⟨d₀, -, rfl⟩ := Option.map_eq_some_iff.mp hd
    cases hc
    rfl
  · rw [get?_rewarded, if_pos rfl] at hc
    obtain ⟨d₀, -, rfl⟩ := Option.map_eq_some_iff.mp hc
    rfl

end World

/-! ## The parts of a turn -/

variable [Physics E]

namespace Stage

variable {s s' : Stage E} {rank : Rank} {who : Rank → Prop}

/-- The dead are gone, and nobody else's laser is touched. -/
theorem reap_leaves (s : Stage E) (rank : Rank) : World.Leaves who s.world (s.reap rank).world := by
  rcases s.reap_cases rank with hspared | ⟨c, world, -, hremoved, hreaped⟩
  · rw [hspared]
    exact .refl _
  · rw [hreaped]
    obtain ⟨-, rfl⟩ := World.removeCreature_inv hremoved
    refine ⟨Nat.le_refl _, fun other d _ hd => .inl ⟨d, ?_, rfl⟩⟩
    -- those who stay keep their lasers
    change (s.world.creatures.erase rank).get? other = some d at hd
    rw [Table.get?_erase] at hd
    split at hd
    · cases hd
    · exact hd

/-- Only the creature whose turn it is has its laser counted down. -/
theorem tickLaser_leaves (s : Stage E) (rank : Rank) :
    World.Leaves (· ≠ rank) s.world (s.tickLaser rank).world := by
  rcases s.tickLaser_cases rank with hnothing | ⟨own, target, hticked⟩
  · rw [hnothing]
    exact .refl _
  · rw [hticked]
    exact .modify fun hne => absurd rfl hne

/-- Metabolism does not touch lasers. -/
theorem metabolize_leaves (s : Stage E) (rank : Rank) : World.Leaves who s.world (s.metabolize rank).world := by
  rw [metabolize_eq]
  refine .trans ?_ (reap_leaves _ rank)
  exact .modify fun _ _ => rfl

/-- Nor does running the genes. -/
theorem runGenes_leaves {requests : List Interaction} (h : s.runGenes rank = .ok (requests, s')) :
    World.Leaves who s.world s'.world := by
  rcases runGenes_cases h with ⟨-, -, rfl⟩ | ⟨c, turn, source, similarity, hc, hturn, -, rfl⟩
  · exact .refl _
  · have hlaser := c.takeTurn_laser _ _ _ _ _ hturn
    -- the creature under `rank` is the one that its turn has left, and the turn has not touched its laser
    refine ⟨Nat.le_refl _, fun other d _ hd => .inl ?_⟩
    change (s.world.creatures.modify rank fun _ => turn.creature).get? other = some d at hd
    rw [Table.get?_modify] at hd
    split at hd
    · rename_i heq
      subst heq
      rw [hc] at hd
      cases hd
      exact ⟨c, hc, hlaser⟩
    · exact ⟨d, hd, rfl⟩

variable [LawfulPhysics E]

/-- Nor does feeding. -/
theorem feed_leaves (s : Stage E) (rank : Rank) : World.Leaves who s.world (s.feed rank).world := by
  rcases s.feed_cases rank with hnothing | ⟨eater, food, pellet, world, -, hremoved, hfed⟩
  · rw [hnothing]
    exact .refl _
  · rw [hfed]
    -- a meal changes the hunger and the mass of the eater
    obtain ⟨-, hworld⟩ := World.removePellet_inv hremoved
    have htaken : World.Leaves who s.world world :=
      .of_creatures_eq (by rw [hworld]) (by rw [hworld])
    exact htaken.trans (.fed world rank eater)

/-- A replication leaves all lasers alone and tells of a birth at most. -/
theorem replicate_leaves (s : Stage E) (rank : Rank) :
    Outcome.Ensures (s.replicate rank) fun s' => s.world.Leaves (fun _ => True) s'.world ∧
      ∃ told, s'.events = s.events ++ told ∧ ∀ e ∈ told, e.Census := by
  refine (s.replicate_cases rank).mono fun s' h => ?_
  cases h with
  | refused => exact ⟨.refl _, [], (List.append_nil _).symm, by simp⟩
  | delivered _ _ _ _ _ hnewborn =>
    refine ⟨?_, _, deliver_events _ _ _ _, fun e he => ?_⟩
    · -- the child comes unarmed, and the parent has paid
      rw [deliver_world]
      refine .trans ?_ (.spawnCreature hnewborn.unarmed)
      refine .trans ?_ (.setMass _ _ _)
      exact .of_creatures_eq rfl (Nat.le_refl _)
    · unfold birthEvents at he
      rcases List.mem_cons.mp he with rfl | hmutation
      · trivial
      · obtain ⟨op, -, rfl⟩ := Option.map_eq_some_iff.mp (Option.mem_toList.mp hmutation)
        trivial

/-- **What is carried out for a creature** leaves all lasers alone and tells of no attack, or it is an attack
of the creature on another that is alive. -/
theorem interact_lasers (actor : Rank) (s : Stage E) (r : Interaction) :
    Outcome.Ensures (interact actor s r) fun s' =>
      (s.world.Leaves (fun _ => True) s'.world ∧
        ∃ told, s'.events = s.events ++ told ∧ ∀ a b n, .attack a b n ∉ told) ∨
      ∃ target attacker victim, s.world.creatures.get? actor = some attacker ∧
        s.world.creatures.get? target = some victim ∧ s' = s.attack actor target victim.id := by
  cases r with
  | attack target targetId =>
    have hnothing : s.world.Leaves (fun _ => True) s.world ∧
        ∃ told, s.events = s.events ++ told ∧ ∀ a b n, .attack a b n ∉ told :=
      ⟨.refl _, [], (List.append_nil _).symm, by simp⟩
    refine .pure ?_
    rcases s.attack_cases actor target targetId with
      hrefused | ⟨attacker, victim, hattacker, hvictim, rfl, -⟩
    · rw [hrefused]
      exact .inl hnothing
    · exact .inr ⟨target, attacker, victim, hattacker, hvictim, rfl⟩
  | replicate =>
    refine (s.replicate_leaves actor).mono fun s' h => .inl ?_
    obtain ⟨hleaves, told, htold, hcensus⟩ := h
    exact ⟨hleaves, told, htold, fun a b n hmem => hcensus _ hmem⟩

/-- An attack touches the attacker's laser and no other. -/
theorem attack_leaves (s : Stage E) (actor target : Rank) (targetId : Ident) :
    World.Leaves (· ≠ actor) s.world (s.attack actor target targetId).world := by
  rcases s.attack_cases actor target targetId with hnothing | ⟨attacker, victim, -, -, -, hattack⟩
  · rw [hnothing]
    exact .refl _
  · rw [hattack]
    refine .trans ?_ (reap_leaves _ target)
    exact .exchanged _ actor target _ _ targetId

/-- So no request touches the laser of anybody but who made it. -/
theorem interact_leaves (actor : Rank) (s : Stage E) (r : Interaction) :
    Outcome.Ensures (interact actor s r) fun s' => World.Leaves (· ≠ actor) s.world s'.world := by
  refine (interact_lasers actor s r).mono fun s' h => ?_
  rcases h with ⟨hleaves, -⟩ | ⟨target, attacker, victim, -, -, rfl⟩
  · exact hleaves.mono fun _ _ => trivial
  · exact attack_leaves s actor target victim.id

/-! ## Turns -/

/-- **The turn of a creature leaves all other lasers alone.** -/
theorem turn_leaves (s : Stage E) (rank : Rank) :
    Outcome.Ensures (s.turn rank) fun s' => World.Leaves (· ≠ rank) s.world s'.world := by
  unfold turn
  refine .ite (fun _ => ?_) fun _ => .pure (.refl _)
  refine .bind (.ofFault fun _ hgenes => hgenes) ?_
  rintro ⟨requests, ran⟩ hgenes
  -- only the creature itself has counted its laser down, and only it may fire
  have hran := ((s.feed_leaves rank).trans (tickLaser_leaves _ rank)).trans (runGenes_leaves hgenes)
  have hrequests : Outcome.Ensures (requests.foldlM (interact rank) ran) fun done =>
      ran.world.Leaves (· ≠ rank) done.world :=
    .foldlM (R := fun s s' => s.world.Leaves (· ≠ rank) s'.world) (fun s => .refl s.world)
      World.Leaves.trans (interact_leaves rank) requests ran
  refine .bind hrequests fun done hdone => ?_
  exact .pure ((hran.trans hdone).trans (metabolize_leaves _ rank))

/-- So in the turns of some creatures everybody else's laser is left alone. -/
theorem turns_leave (s : Stage E) (ranks : List Rank) :
    Outcome.Ensures (s.turns ranks) fun s' => World.Leaves (· ∉ ranks) s.world s'.world := by
  refine .foldlM_of_mem (I := fun s' => World.Leaves (· ∉ ranks) s.world s'.world)
    (fun rank hrank now h => ?_) s (.refl _)
  refine (now.turn_leaves rank).mono fun next hnext => h.trans (hnext.mono fun other hother heq => ?_)
  exact hother (heq ▸ hrank)

end Stage

/-! ## The rest of a tick -/

namespace World

variable {who : Rank → Prop} {w : World E}

/-- A fresh creature comes without a laser. -/
theorem spawnFresh_leaves (w : World E) : Outcome.Ensures w.spawnFresh fun (_, w') => Leaves who w w' := by
  refine (w.spawnFresh_newborn (P := fun _ => True) fun _ => .any).mono ?_
  rintro ⟨e, w'⟩ ⟨place, program, c, source, -, hnewborn, -, -, rfl⟩
  refine .trans ?_ (.spawnCreature hnewborn.unarmed)
  exact .of_creatures_eq rfl (Nat.le_refl _)

/-- So do any number of them. -/
theorem spawnMany_leaves (n : Nat) (w : World E) :
    Outcome.Ensures (w.spawnMany n) fun (_, w') => Leaves who w w' :=
  spawnMany_invariant (I := Leaves who w)
    (fun w₁ h₁ => w₁.spawnFresh_leaves.mono fun _ h₂ => h₁.trans h₂) n w (.refl w)

/-- **Filling up leaves all lasers alone.** -/
theorem refill_leaves (w : World E) : Outcome.Ensures w.refill fun (_, w') => Leaves who w w' :=
  spawnMany_leaves _ w

end World

end Vivarium
