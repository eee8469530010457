import Vivarium.Proofs.Evolution.Heredity
import Vivarium.Proofs.World.History

/-!
# What the upkeep of a world preserves

A tick writes a creature's mass in four ways and its hunger in five, and it brings creatures into the world
with two masses and one hunger. `Config.Trade` and `Config.Shift` list these ways. A range of masses and a
range of hungers that they do not lead out of hold every creature in every state that is reached by ticks;
what the instructions of its genes have in common may be used on the way, if it is handed on.

Main result: `World.Upheld.run`.
-/

namespace Vivarium

/-! ## What is written to a creature -/

/-- The ways in which a tick writes a creature's mass. -/
inductive Config.Trade (config : Config) (m : Float) : Float → Prop
  | food  : Trade config m (m + config.food.massGain)
  | prey  : Trade config m (m + config.combat.massTransfer)
  | wound : Trade config m (greater (m - config.combat.massTransfer) config.metabolism.minMass)
  | child (hheavy : ¬ m < config.metabolism.replicateMass) :
      Trade config m (m - config.metabolism.birthMass)

/-- What a tick adds to the hunger of a creature whose mass has the property `P` and whose instructions
have the property `Q`. -/
inductive Config.Shift (config : Config) (P : Float → Prop) (Q : Instruction → Prop) : Float → Prop
  | food  : Shift config P Q config.food.hungerRestore
  | prey  : Shift config P Q config.combat.attackerHungerGain
  | wound : Shift config P Q (-config.combat.targetHungerLoss)
  | effort {power : Float} (hpower : Q (.move power)) : Shift config P Q (-power * Creature.moveCost)
  | metabolism {m : Float} (tick : Nat) (hm : P m) : Shift config P Q (-config.starvationRate tick * m)

/-- Masses with the property `P` and hungers with the property `R` that no tick leads out of, given that
all instructions have the property `Q`. -/
structure Config.Maintains (config : Config) (P R : Float → Prop) (Q : Instruction → Prop) : Prop where
  birthMass : P config.metabolism.birthMass
  freshMass : P config.world.freshSpawnMass
  trade     : ∀ m m', P m → config.Trade m m' → P m'
  newborn   : R 1.0
  shift     : ∀ h δ, R h → config.Shift P Q δ → R (clampTo 0.0 1.0 (h + δ))
  heritable : Heritable Q

/-- The creature's mass, hunger and instructions have the properties. -/
structure Creature.Keeps (P R : Float → Prop) (Q : Instruction → Prop) (c : Creature) : Prop where
  mass    : P c.mass
  hunger  : R c.hunger
  program : c.program.Has Q

/-- A world on a configuration all of whose creatures have the properties. -/
structure World.Upheld {E : Type} (config : Config) (P R : Float → Prop) (Q : Instruction → Prop) (w : World E) :
    Prop where
  config_eq : w.config = config
  keeps     : ∀ rank c, w.creatures.get? rank = some c → c.Keeps P R Q

variable {config : Config} {P R : Float → Prop} {Q : Instruction → Prop}

/-! ## Turns of a creature -/

namespace Creature.Keeps

variable {c : Creature}

/-- A shift of hunger that the configuration maintains leaves the hunger as it should be. -/
theorem adjustHunger (hmaintains : config.Maintains P R Q) (hc : c.Keeps P R Q) {δ : Float}
    (hδ : config.Shift P Q δ) : (c.adjustHunger δ).Keeps P R Q :=
  ⟨hc.mass, hmaintains.shift _ _ hc.hunger hδ, hc.program⟩

/-- A creature may be given any mass of the kind. -/
theorem withMass (hc : c.Keeps P R Q) {mass : Float} (hmass : P mass) :
    { c with mass }.Keeps P R Q := ⟨hmass, hc.hunger, hc.program⟩

/-- A laser has nothing to do with it. -/
theorem withLaser (hc : c.Keeps P R Q) (laser : Option Laser) : { c with laser }.Keeps P R Q :=
  ⟨hc.mass, hc.hunger, hc.program⟩

/-- So to count one down changes nothing of it. -/
theorem tickLaser (hc : c.Keeps P R Q) (own target : Option Vec) :
    (c.tickLaser own target).Keeps P R Q := by
  unfold Creature.tickLaser
  split
  · split
    · exact hc.withLaser _
    · exact hc.withLaser _
  · exact hc.withLaser _

/-- An instruction that the program may hold moves at most, which costs hunger. -/
theorem execute (hmaintains : config.Maintains P R Q) (hc : c.Keeps P R Q) (position : Vec)
    (s : Surroundings) {i : Instruction} (hi : Q i) :
    (c.execute position s i).Ensures fun effect => effect.creature.Keeps P R Q := by
  unfold Creature.execute
  -- a move costs hunger by its force, which the program keeps to, and nothing else touches mass or hunger
  cases i with
  | move power => exact .pure (hc.adjustHunger hmaintains (.effort hi))
  | turn facing => exact .bind .any fun direction _ => .pure ⟨hc.mass, hc.hunger, hc.program⟩
  | jump condition goal =>
    exact .ite (fun _ => .pure ⟨hc.mass, hc.hunger, hc.program⟩) fun _ => .pure hc
  | attack =>
    dsimp only
    split
    · exact .pure hc
    · exact .pure ⟨hc.mass, hc.hunger, hc.program⟩
  | replicate => exact .ite (fun _ => .pure hc) fun _ => .pure hc
  | wait => exact .pure hc

/-- A gene shifts hunger by a move at most. -/
theorem executeGene (hmaintains : config.Maintains P R Q) (position : Vec) (s : Surroundings) {t : Turn}
    (ht : t.creature.Keeps P R Q) :
    (Turn.executeGene position s t).Ensures fun t' => t'.creature.Keeps P R Q := by
  unfold Turn.executeGene
  have hgene : Q (t.creature.program.gene (t.creature.program.wrap t.creature.cursor)).instruction :=
    ht.program _ (List.get_mem _ _)
  refine .bind (execute hmaintains ?_ position s hgene) fun effect heffect => ?_
  · exact ⟨ht.mass, ht.hunger, ht.program⟩
  · exact .bind .any fun next _ => .pure ⟨heffect.mass, heffect.hunger, heffect.program⟩

/-- The induction is on the genes that may still be executed, over the creature as the last one has left it. -/
theorem executeGenes (hmaintains : config.Maintains P R Q) (position : Vec) (s : Surroundings) :
    ∀ (budget : Nat) {t : Turn}, t.creature.Keeps P R Q →
      (Turn.executeGenes position s budget t).Ensures fun t' => t'.creature.Keeps P R Q
  | 0, t, ht => .pure ht
  | budget + 1, t, ht => by
    unfold Turn.executeGenes
    refine .ite (fun _ => ?_) fun _ => .pure ht
    exact .bind (executeGene hmaintains position s ht) fun t' ht' =>
      executeGenes hmaintains position s budget ht'

/-- **A turn keeps a creature as it should be.** -/
theorem takeTurn (hmaintains : config.Maintains P R Q) (hc : c.Keeps P R Q) (position : Vec)
    (s : Surroundings) : (c.takeTurn position s).Ensures fun turn => turn.creature.Keeps P R Q := by
  unfold Creature.takeTurn
  refine .ite (fun _ => .pure ⟨hc.mass, hc.hunger, hc.program⟩) fun _ => ?_
  exact executeGenes hmaintains position s _ hc

end Creature.Keeps

/-! ## Births -/

variable {E : Type} [Physics E]

/-- A newborn has full hunger, the mass of its seed and the program of its seed. -/
theorem Creature.Newborn.keeps (hmaintains : config.Maintains P R Q) {seed : Seed} {tick : Nat}
    {e : E} {c : Creature} (h : c.Newborn seed tick e) (hmass : P seed.mass)
    (hprogram : seed.program.Has Q) : c.Keeps P R Q where
  mass    := h.mass_eq ▸ hmass
  hunger  := h.hunger_eq ▸ hmaintains.newborn
  program := h.program_eq ▸ hprogram

namespace Birth

variable (position : Vec) (tick : Nat) (e : E)

/-- Whoever is born without a parent has the mass of the newborn and an executable program. -/
theorem root_keeps (hmaintains : config.Maintains P R Q) :
    (root position tick config e).Yields fun (birth, _) => birth.creature.Keeps P R Q := by
  unfold root
  refine .bind (hmaintains.heritable.random _ _) fun program hprogram => ?_
  refine .bind (.lift (Seed.embody_ensures _ _ _)) fun (c, e') h => .pure ?_
  exact h.1.keeps hmaintains hmaintains.birthMass hprogram

/-- The child of a creature that has the properties has them too. -/
theorem child_keeps (hmaintains : config.Maintains P R Q) {parent : Creature}
    (hparent : parent.Keeps P R Q) :
    (child parent position tick config e).Yields fun (birth, _) =>
      birth.creature.Keeps P R Q ∧ birth.creature.mass = config.metabolism.birthMass := by
  unfold child
  refine .bind (hmaintains.heritable.evolve hparent.program _ _) fun o ho => ?_
  refine .bind .any fun lineage _ => ?_
  refine .bind (.lift (Seed.embody_ensures _ _ _)) fun (c, e') h => .pure ⟨?_, h.1.mass_eq⟩
  exact h.1.keeps hmaintains hmaintains.birthMass ho

end Birth

/-! ## Worlds -/

namespace World.Upheld

variable {w w' : World E}

omit [Physics E] in
/-- Nothing but the configuration and the table of creatures matters. -/
theorem congr (h : w.Upheld config P R Q) (hconfig : w'.config = w.config)
    (hcreatures : w'.creatures = w.creatures) : w'.Upheld config P R Q where
  config_eq := hconfig.trans h.config_eq
  keeps     := by
    rw [hcreatures]
    exact h.keeps

omit [Physics E] in
/-- One creature is changed, to one that is as it should be. -/
theorem modifyCreature (h : w.Upheld config P R Q) {rank : Rank} {f : Creature → Creature}
    (hf : ∀ c, w.creatures.get? rank = some c → (f c).Keeps P R Q) :
    (w.modifyCreature rank f).Upheld config P R Q where
  config_eq := h.config_eq
  keeps     := by
    intro rank' d hd
    change (w.creatures.modify rank f).get? rank' = some d at hd
    rw [Table.get?_modify] at hd
    split at hd
    · rename_i heq
      rw [heq] at hd
      obtain ⟨c, hc, rfl⟩ := Option.map_eq_some_iff.mp hd
      exact hf c hc
    · exact h.keeps rank' d hd

/-- One creature is given a mass of the kind. -/
theorem setMass (h : w.Upheld config P R Q) {rank : Rank} {mass : Float}
    (hmass : ∀ c, w.creatures.get? rank = some c → P mass) :
    (w.setMass rank mass).Upheld config P R Q := by
  unfold World.setMass
  split
  · exact h
  · rename_i c hc
    have hmodified :
        (w.modifyCreature rank fun _ => (c.setMass mass w.enclosure).1).Upheld config P R Q :=
      h.modifyCreature fun _ _ => (h.keeps rank c hc).withMass (hmass c hc)
    exact hmodified.congr rfl rfl

omit [Physics E] in
/-- Somebody is spawned who is as it should be. -/
theorem spawnCreature (h : w.Upheld config P R Q) {c : Creature} (hc : c.Keeps P R Q) :
    (w.spawnCreature c).Upheld config P R Q where
  config_eq := h.config_eq
  keeps     := by
    intro rank d hd
    change (w.creatures.insert _ c).get? rank = some d at hd
    rw [Table.get?_insert] at hd
    split at hd
    · cases hd
      exact hc
    · exact h.keeps rank d hd

/-- Whoever is left was there before. -/
theorem removeCreature (h : w.Upheld config P R Q) {rank : Rank} {c : Creature}
    (hremoved : w.removeCreature rank = some (c, w')) : w'.Upheld config P R Q := by
  obtain ⟨-, rfl⟩ := removeCreature_inv hremoved
  refine ⟨h.config_eq, fun rank' d hd => ?_⟩
  change (w.creatures.erase rank).get? rank' = some d at hd
  rw [Table.get?_erase] at hd
  split at hd
  · cases hd
  · exact h.keeps rank' d hd

/-- A change of a creature's state that is followed by a trade. -/
theorem traded (hmaintains : config.Maintains P R Q) (h : w.Upheld config P R Q) {rank : Rank}
    {c : Creature} (hc : w.creatures.get? rank = some c) {f : Creature → Creature}
    (hf : ∀ d, d.Keeps P R Q → (f d).Keeps P R Q) {mass : Float} (hmass : config.Trade c.mass mass) :
    ((w.modifyCreature rank f).setMass rank mass).Upheld config P R Q :=
  (h.modifyCreature fun d hd => hf d (h.keeps rank d hd)).setMass fun _ _ =>
    hmaintains.trade _ _ (h.keeps rank c hc).mass hmass

/-- A meal is a trade of mass and a shift of hunger. -/
theorem fed (hmaintains : config.Maintains P R Q) (h : w.Upheld config P R Q) {rank : Rank}
    {eater : Creature} (heater : w.creatures.get? rank = some eater) :
    (w.fed rank eater).Upheld config P R Q := by
  unfold World.fed
  rw [h.config_eq]
  exact h.traded hmaintains heater (fun d hd => hd.adjustHunger hmaintains .food) .food

/-- So is the attacker's side of an attack. -/
theorem rewarded (hmaintains : config.Maintains P R Q) (h : w.Upheld config P R Q) {actor : Rank}
    {attacker : Creature} (hattacker : w.creatures.get? actor = some attacker) (laser : Laser) :
    (w.rewarded actor attacker laser).Upheld config P R Q := by
  unfold World.rewarded
  rw [h.config_eq]
  exact h.traded hmaintains hattacker
    (fun d hd => (hd.withLaser (some laser)).adjustHunger hmaintains .prey) .prey

/-- Whatever became of the target before, it loses from the mass that it has now. -/
theorem bitten (hmaintains : config.Maintains P R Q) (h : w.Upheld config P R Q) (target : Rank)
    (victim : Creature) : (w.bitten config.combat target victim).Upheld config P R Q := by
  have hwounded : (w.modifyCreature target fun c =>
      c.adjustHunger (-config.combat.targetHungerLoss)).Upheld config P R Q :=
    h.modifyCreature fun d hd => (h.keeps target d hd).adjustHunger hmaintains .wound
  unfold World.bitten
  refine hwounded.setMass fun d hd => ?_
  rw [hd, hwounded.config_eq]
  exact hmaintains.trade _ _ (hwounded.keeps target d hd).mass .wound

/-- Both sides together uphold the world, the attacker's first. -/
theorem exchanged (hmaintains : config.Maintains P R Q) (h : w.Upheld config P R Q) {actor : Rank}
    {attacker : Creature} (hattacker : w.creatures.get? actor = some attacker) (target : Rank)
    (victim : Creature) (targetId : Ident) :
    (w.exchanged actor target attacker victim targetId).Upheld config P R Q := by
  unfold World.exchanged
  rw [h.config_eq]
  exact (h.rewarded hmaintains hattacker _).bitten hmaintains target victim

end World.Upheld

/-! ## Turns -/

namespace Stage

variable {s : Stage E}

/-- To take out the starved leaves the others as they are. -/
theorem reap_upheld (h : s.world.Upheld config P R Q) (rank : Rank) :
    (s.reap rank).world.Upheld config P R Q := by
  rcases s.reap_cases rank with hspared | ⟨c, world, -, hremoved, hreaped⟩
  · rw [hspared]
    exact h
  · rw [hreaped]
    exact h.removeCreature hremoved

/-- The eater gains what the configuration says. -/
theorem feed_upheld (hmaintains : config.Maintains P R Q) (h : s.world.Upheld config P R Q)
    (rank : Rank) : (s.feed rank).world.Upheld config P R Q := by
  rcases s.feed_cases rank with hnothing | ⟨eater, food, pellet, world, heater, hremoved, hfed⟩
  · rw [hnothing]
    exact h
  · rw [hfed]
    obtain ⟨-, rfl⟩ := World.removePellet_inv hremoved
    -- the pellet is out of the world before the eater is fed, and no creature has changed by then
    have hremained : World.Upheld config P R Q { s.world with
        pellets      := s.world.pellets.erase food
        pelletOfBody := s.world.pelletOfBody.erase pellet.body
        enclosure    := Physics.removeBody s.world.enclosure pellet.body } :=
      h.congr rfl rfl
    exact hremained.fed hmaintains heater

/-- Lasers have nothing to do with it. -/
theorem tickLaser_upheld (h : s.world.Upheld config P R Q) (rank : Rank) :
    (s.tickLaser rank).world.Upheld config P R Q := by
  rcases s.tickLaser_cases rank with hnothing | ⟨own, target, hticked⟩
  · rw [hnothing]
    exact h
  · rw [hticked]
    exact h.modifyCreature fun c hc => (h.keeps rank c hc).tickLaser own target

/-- The creature is left as its turn left it, and the others are as before. -/
theorem runGenes_upheld (hmaintains : config.Maintains P R Q) (h : s.world.Upheld config P R Q)
    {s' : Stage E} {rank : Rank} {requests : List Interaction}
    (hrun : s.runGenes rank = .ok (requests, s')) : s'.world.Upheld config P R Q := by
  rcases runGenes_cases hrun with ⟨-, -, rfl⟩ | ⟨c, turn, source, similarity, hc, hturn, -, rfl⟩
  · exact h
  · have hkeeps : turn.creature.Keeps P R Q :=
      (h.keeps rank c hc).takeTurn hmaintains _ _ _ _ _ hturn
    exact (h.modifyCreature fun _ _ => hkeeps).congr rfl rfl

/-- Both creatures come out as they should be, and a target that starves is gone. -/
theorem attack_upheld (hmaintains : config.Maintains P R Q) (h : s.world.Upheld config P R Q)
    (actor target : Rank) (targetId : Ident) :
    (s.attack actor target targetId).world.Upheld config P R Q := by
  rcases s.attack_cases actor target targetId with hnothing | ⟨attacker, victim, hattacker, -, -, hattack⟩
  · rw [hnothing]
    exact h
  · rw [hattack]
    exact reap_upheld (h.exchanged hmaintains hattacker target victim targetId) target

/-- A child is born with the mass of the newborn, and the parent pays with as much of its own. -/
theorem replicate_upheld (hmaintains : config.Maintains P R Q) (h : s.world.Upheld config P R Q)
    (rank : Rank) : Outcome.Ensures (s.replicate rank) (·.world.Upheld config P R Q) := by
  rw [replicate_eq]
  split
  · exact .pure h
  · rename_i parent hparent
    refine .ite (fun _ => .pure h) fun hguard => ?_
    rw [not_or] at hguard
    have hborn := (Birth.child_ensures ((s.world.placeOf parent.body).add childOffset) s.world.tick
      s.world.config s.world.enclosure parent).and_yields
        (Birth.child_keeps _ _ _ (h.config_eq ▸ hmaintains) (h.keeps rank parent hparent))
    refine .bind (World.build_ensures hborn s.world) ?_
    rintro ⟨⟨birth, enclosure⟩, world⟩ ⟨⟨-, hchild, hmass⟩, source, rfl⟩
    -- the parent pays with the mass that the child has
    have hprice : P (parent.mass - birth.creature.mass) := by
      rw [hmass]
      rw [h.config_eq] at hguard ⊢
      exact hmaintains.trade _ _ (h.keeps rank parent hparent).mass (.child hguard.1)
    have hdrawn : World.Upheld config P R Q { s.world with source, enclosure } := h.congr rfl rfl
    have hpaid := hdrawn.setMass fun (_ : Creature) (_ : s.world.creatures.get? rank = some _) => hprice
    refine .pure ?_
    rw [deliver_world]
    exact hpaid.spawnCreature hchild

/-- Whatever is asked for is carried out in this manner. -/
theorem interact_upheld (hmaintains : config.Maintains P R Q) (actor : Rank) (s : Stage E)
    (i : Interaction) (h : s.world.Upheld config P R Q) :
    Outcome.Ensures (interact actor s i) (·.world.Upheld config P R Q) := by
  cases i with
  | attack target targetId => exact .pure (attack_upheld hmaintains h actor target targetId)
  | replicate => exact replicate_upheld hmaintains h actor

/-- Metabolism is a shift of hunger. -/
theorem metabolize_upheld (hmaintains : config.Maintains P R Q) (h : s.world.Upheld config P R Q)
    (rank : Rank) : (s.metabolize rank).world.Upheld config P R Q := by
  rw [metabolize_eq, h.config_eq]
  refine reap_upheld (h.modifyCreature fun c hc => ?_) rank
  exact (h.keeps rank c hc).adjustHunger hmaintains (.metabolism _ (h.keeps rank c hc).mass)

/-- **A turn upholds the world**, part by part. -/
theorem turn_upheld (hmaintains : config.Maintains P R Q) (s : Stage E) (rank : Rank)
    (h : s.world.Upheld config P R Q) : Outcome.Ensures (s.turn rank) (·.world.Upheld config P R Q) := by
  unfold turn
  refine .ite (fun _ => ?_) fun _ => .pure h
  have hlaser := tickLaser_upheld (feed_upheld hmaintains h rank) rank
  refine .bind (.ofFault fun _ hrun => runGenes_upheld hmaintains hlaser hrun) fun (requests, s') hs' => ?_
  refine .bind (.foldlM_invariant (interact_upheld hmaintains rank) requests s' hs') fun s'' hs'' => ?_
  exact .pure (metabolize_upheld hmaintains hs'' rank)

end Stage

/-! ## Ticks and runs -/

namespace World.Upheld

variable {w : World E}

/-- A fresh creature has the mass of the fresh. -/
theorem spawnFresh (hmaintains : config.Maintains P R Q) (h : w.Upheld config P R Q) :
    Outcome.Ensures w.spawnFresh fun (_, w') => w'.Upheld config P R Q := by
  refine (w.spawnFresh_newborn fun place =>
    Birth.root_keeps place _ _ (h.config_eq ▸ hmaintains)).mono ?_
  rintro ⟨e, w'⟩ ⟨place, program, c, source, -, -, hbirth, -, rfl⟩
  have hroom : World.Upheld config P R Q { w with
      source, enclosure := w.freshEnclosure (Birth.rootSeed place w.config program) c } := h.congr rfl rfl
  exact hroom.spawnCreature (hbirth.withMass (h.config_eq ▸ hmaintains.freshMass))

/-- So any number of them is as it should be. -/
theorem spawnMany (hmaintains : config.Maintains P R Q) (n : Nat) (h : w.Upheld config P R Q) :
    Outcome.Ensures (w.spawnMany n) fun (_, w') => w'.Upheld config P R Q :=
  spawnMany_invariant (fun _ h => h.spawnFresh hmaintains) n w h

/-- And filling up upholds the world. -/
theorem refill (hmaintains : config.Maintains P R Q) (h : w.Upheld config P R Q) :
    Outcome.Ensures w.refill fun (_, w') => w'.Upheld config P R Q :=
  h.spawnMany hmaintains _

variable [LawfulPhysics E]

/-- **A tick upholds what its trades and shifts maintain.** -/
theorem update (hmaintains : config.Maintains P R Q) (h : w.Upheld config P R Q) :
    Outcome.Ensures w.update fun (_, w') => w'.Upheld config P R Q := by
  rw [update_eq]
  refine .bind w.opening_ensures ?_
  rintro start ⟨-, w₁, rfl, hcourse, hcreatures⟩
  -- the opening touches no creature
  have hopened : w₁.Upheld config P R Q := h.congr hcourse.frame.1 hcreatures
  refine .bind (.foldlM_invariant (Stage.turn_upheld hmaintains) _ (Stage.start w₁ _) hopened) ?_
  intro stage hstage
  refine .bind (hstage.refill hmaintains) fun (births, w₂) h₂ => ?_
  exact .ite (fun _ => .pure h₂) fun _ => .pure h₂

/-- A step of the bodies changes nothing about creatures, so a tick with one does as well. -/
theorem tickBy (hmaintains : config.Maintains P R Q) (h : w.Upheld config P R Q) (t : TickCall) :
    Outcome.Ensures (w.tickBy t) fun (_, w') => w'.Upheld config P R Q := by
  cases t with
  | update => exact h.update hmaintains
  | advance dt =>
    refine .bind (.ofFault fun _ _ => trivial) fun enclosure (_ : True) => ?_
    exact update hmaintains (h.congr rfl rfl)

/-- **Every state that ticks lead to is upheld**, from the creation of the world on. -/
theorem run (hmaintains : config.Maintains P R Q) {enclosure : E} {entropy : BitVec 256}
    {ticks : List TickCall} {h : History E}
    (hrun : History.run config enclosure entropy (ticks.map .tick) = .ok h) :
    h.world.Upheld config P R Q := by
  -- nobody is there to begin with, and the upkeep is the same for each tick of the run
  refine History.run_induction hrun (P := fun h => h.world.Upheld config P R Q) (fun w hw => ?_) ?_
  · have hbare : (World.bare config enclosure entropy).Upheld config P R Q :=
      ⟨rfl, fun _ _ hc => by cases hc⟩
    obtain ⟨-, births, w₁, hrefill, rfl⟩ := World.create_refill hw
    exact ((hbare.refill hmaintains).of_ok hrefill).congr rfl rfl
  · intro h c h' hc hbefore hcall
    obtain ⟨t, -, rfl⟩ := List.mem_map.mp hc
    obtain ⟨⟨events, w'⟩, htick, hpure⟩ := except_bind_inv hcall
    cases hpure
    exact (hbefore.tickBy hmaintains t).of_ok htick

end World.Upheld

end Vivarium
