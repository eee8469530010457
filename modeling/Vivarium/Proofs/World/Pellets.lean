import Vivarium.Proofs.Random.Range
import Vivarium.Proofs.World.Bodies
import Vivarium.Proofs.World.Containment

/-!
# Pellets stay where they were put

What a creature senses of a pellet is the place that was stored for it, and what it eats is the body that the
enclosure holds. The two agree as long as nothing reaches a pellet's body. A step passes it over, because of its
layer; and a force, a change of mass or a removal is meant for a creature's body, which is another one, since
nobody shares a body. So a world whose pellets lie as they were put stays so, and has no pellets but those it
had and those that are put in: by a call from outside, or at the beginning of a tick.

Main result: `pellets_lie_where_they_were_put`.
-/

namespace Vivarium

/-- The body that a pellet is put into the enclosure with. -/
def Pellet.disc (p : Pellet) : Body :=
  { position := p.position, velocity := .zero, force := .zero, radius := Pellet.radius, layer := .food }

/-- A place is at least `margin` away from every wall, or as far as half of the side. -/
def WorldConfig.Clear (config : WorldConfig) (margin : Float) (place : Vec) : Prop :=
  (lesser margin (config.width / 2.0) ≤ place.x ∧
      place.x ≤ config.width - lesser margin (config.width / 2.0)) ∧
    lesser margin (config.height / 2.0) ≤ place.y ∧
      place.y ≤ config.height - lesser margin (config.height / 2.0)

namespace World

variable {w w' w'' : World Enclosure}

/-- A place that is drawn lies within the margins that it is drawn from. -/
theorem randomPlace_clear (config : WorldConfig) (margin : Float) :
    (randomPlace config margin).Ensures (config.Clear margin) := by
  unfold randomPlace
  refine .bind (Draw.closedReal_bounds _ _) fun x hx => ?_
  refine .bind (Draw.closedReal_bounds _ _) fun y hy => ?_
  exact .pure ⟨hx, hy⟩

/-! ## Pellets that are left alone -/

/-- Every pellet's body lies as it was put. -/
structure Settled (w : World Enclosure) : Prop where
  embodied : w.Embodied
  disc     : ∀ rank p, w.pellets.get? rank = some p → w.enclosure.bodies.get? p.body = some p.disc

/-- From `w` to `w'` the pellets have been left alone, though some may be gone. -/
def Spares (w w' : World Enclosure) : Prop :=
  w.Settled → w'.Settled ∧ ∀ rank p, w'.pellets.get? rank = some p → w.pellets.get? rank = some p

namespace Spares

theorem refl (w : World Enclosure) : w.Spares w := fun h => ⟨h, fun _ _ hp => hp⟩

theorem trans (h : w.Spares w') (h' : w'.Spares w'') : w.Spares w'' := by
  intro hw
  obtain ⟨hsettled, hbefore⟩ := h hw
  obtain ⟨hsettled', hbefore'⟩ := h' hsettled
  exact ⟨hsettled', fun rank p hp => hbefore rank p (hbefore' rank p hp)⟩

/-- The pellets that are left are some of those before, and nothing has been done to their bodies. -/
theorem of_bodies (hembodied : w.Embodied → w'.Embodied)
    (hpellets : ∀ rank p, w'.pellets.get? rank = some p → w.pellets.get? rank = some p)
    (hbodies : w.Settled → ∀ rank p, w'.pellets.get? rank = some p →
      w'.enclosure.bodies.get? p.body = w.enclosure.bodies.get? p.body) : w.Spares w' := by
  refine fun hw => ⟨⟨hembodied hw.embodied, fun rank p hp => ?_⟩, hpellets⟩
  rw [hbodies hw rank p hp]
  exact hw.disc rank p (hpellets rank p hp)

/-- Creatures have been changed, each in its own body. -/
theorem modify {rank : Rank} {f : Creature → Creature} (hf : ∀ c, (f c).body = c.body) :
    w.Spares (w.modifyCreature rank f) := by
  refine .of_bodies (fun hw => hw.of_eq (fun o => ?_) (.refl _)) (fun _ _ hp => hp) fun _ _ _ _ => rfl
  cases o with
  | pellet other => rfl
  | creature other =>
    show ((w.creatures.modify rank f).get? other).map (·.body) = (w.creatures.get? other).map (·.body)
    rw [Table.get?_modify]
    split
    · -- the creature that is modified keeps its body
      rw [Option.map_map]
      exact congrFun (congrArg Option.map (funext hf)) _
    · rfl

end Spares

/-- A creature's body is no pellet's. -/
theorem Embodied.pellet_ne (h : w.Embodied) {rank other : Rank} {c : Creature} {p : Pellet}
    (hc : w.creatures.get? rank = some c) (hp : w.pellets.get? other = some p) : p.body ≠ c.body := by
  have hcreature : w.bodyOf? (.creature rank) = some c.body := congrArg (Option.map Creature.body) hc
  have hpellet : w.bodyOf? (.pellet other) = some p.body := congrArg (Option.map Pellet.body) hp
  exact h.ne hpellet hcreature nofun

/-- Nor is the body that is put in next. -/
theorem Embodied.pellet_ne_next (h : w.Embodied) {rank : Rank} {p : Pellet}
    (hp : w.pellets.get? rank = some p) : p.body ≠ ⟨w.enclosure.nextNumber⟩ := by
  intro heq
  have hpellet : w.bodyOf? (.pellet rank) = some p.body := congrArg (Option.map Pellet.body) hp
  have hheld := h.held hpellet
  rw [heq] at hheld
  exact h.fresh Pellet.radius p.position .food hheld

/-- To set a creature's mass is to scale its own body. -/
theorem get?_pellet_setMass {rank : Rank} {p : Pellet} {mass : Float}
    (hne : ∀ c, w.creatures.get? rank = some c → p.body ≠ c.body) :
    (w.setMass rank mass).enclosure.bodies.get? p.body = w.enclosure.bodies.get? p.body := by
  cases hc : w.creatures.get? rank with
  | none =>
    unfold World.setMass
    rw [hc]
  | some c => rw [get?_body_setMass hc, if_neg (hne c hc)]

namespace Spares

/-- To set a creature's mass scales a body that is no pellet's. -/
theorem setMass (w : World Enclosure) (rank : Rank) (mass : Float) : w.Spares (w.setMass rank mass) := by
  have hquiet := Quiet.setMass w rank mass
  refine .of_bodies (·.quiet hquiet) (fun other p hp => hquiet.pellets_eq ▸ hp) fun hw other p hp => ?_
  rw [hquiet.pellets_eq] at hp
  exact get?_pellet_setMass fun c hc => hw.embodied.pellet_ne hc hp

/-- So does a change of mass from outside, if anybody has the identity. -/
theorem setCreatureMass (w : World Enclosure) (id : Ident) (mass : Float) :
    w.Spares ((w.setCreatureMass? id mass).getD w) := by
  unfold World.setCreatureMass?
  cases w.liveRank? id with
  | none => exact .refl w
  | some rank => exact .setMass w rank mass

/-- To compare two creatures is to note what came out, and that only. -/
theorem genomeSimilarity (w : World Enclosure) (a b : Ident) : w.Spares (w.genomeSimilarity a b).2 := by
  have hquiet := w.genomeSimilarity_quiet a b
  have hbodies : (w.genomeSimilarity a b).2.enclosure = w.enclosure := by
    unfold World.genomeSimilarity
    split
    · rfl
    · rfl
  refine .of_bodies (·.quiet hquiet) (fun rank p hp => hquiet.pellets_eq ▸ hp) fun _ _ _ _ => ?_
  rw [hbodies]

/-- The body of a creature that is taken out is no pellet's. -/
theorem removeCreature {rank : Rank} {c : Creature} (h : w.removeCreature rank = some (c, w')) :
    w.Spares w' := by
  refine .of_bodies (·.removeCreature h) ?_ ?_
  all_goals obtain ⟨hc, rfl⟩ := removeCreature_inv h
  · exact fun _ _ hp => hp
  · intro hw other p hp
    show (w.enclosure.bodies.erase c.body).get? p.body = _
    rw [Table.get?_erase, if_neg (hw.embodied.pellet_ne hc hp)]

/-- To take out a pellet takes out its own body, and no other pellet has that one. -/
theorem removePellet {rank : Rank} {gone : Pellet} (h : w.removePellet rank = some (gone, w')) :
    w.Spares w' := by
  have hothers : ∀ other p, w'.pellets.get? other = some p → other ≠ rank ∧ w.pellets.get? other = some p := by
    obtain ⟨-, rfl⟩ := removePellet_inv h
    intro other p hp
    change (w.pellets.erase rank).get? other = some p at hp
    rw [Table.get?_erase] at hp
    split at hp
    · cases hp
    · exact ⟨‹_›, hp⟩
  refine .of_bodies (·.removePellet h) (fun other p hp => (hothers other p hp).2) fun hw other p hp => ?_
  -- the bodies of two pellets are not the same, so the body that is removed is that of the other one
  obtain ⟨hne, hthere⟩ := hothers other p hp
  have hother : w.bodyOf? (.pellet other) = some p.body := congrArg (Option.map Pellet.body) hthere
  obtain ⟨hgone, rfl⟩ := removePellet_inv h
  have howner : w.bodyOf? (.pellet rank) = some gone.body := congrArg (Option.map Pellet.body) hgone
  show (w.enclosure.bodies.erase gone.body).get? p.body = _
  rw [Table.get?_erase, if_neg (hw.embodied.ne hother howner fun heq => hne (Owner.pellet.inj heq))]

/-- A creature comes into the world with the next body, after some quiet change. -/
theorem spawnCreature {seed : Seed} {c : Creature} (hbody : c.body = ⟨w.enclosure.nextNumber⟩)
    (hquiet : Quiet { w with enclosure := seed.bodied w.enclosure } w')
    (hbodies : w.Settled → ∀ rank p, w.pellets.get? rank = some p →
      w'.enclosure.bodies.get? p.body = (seed.bodied w.enclosure).bodies.get? p.body) :
    w.Spares (w'.spawnCreature c) := by
  have hpellets : w'.pellets = w.pellets := hquiet.pellets_eq
  refine .of_bodies (·.spawnCreature hbody hquiet) (fun rank p hp => hpellets ▸ hp) fun hw rank p hp => ?_
  have hthere : w.pellets.get? rank = some p := hpellets ▸ hp
  show w'.enclosure.bodies.get? p.body = _
  rw [hbodies hw rank p hthere]
  show (w.enclosure.bodies.insert ⟨w.enclosure.nextNumber⟩ _).get? p.body = _
  rw [Table.get?_insert, if_neg (hw.embodied.pellet_ne_next hthere)]

/-- The eater's own body grows, and no pellet's. -/
theorem fed (w : World Enclosure) (rank : Rank) (eater : Creature) : w.Spares (w.fed rank eater) :=
  (modify (f := (·.adjustHunger w.config.food.hungerRestore)) fun _ => rfl).trans (.setMass _ _ _)

/-- Nor does an attack reach a pellet's body on the attacker's side. -/
theorem rewarded (w : World Enclosure) (actor : Rank) (attacker : Creature) (laser : Laser) :
    w.Spares (w.rewarded actor attacker laser) :=
  (modify (f := fun c => { c with laser := some laser }.adjustHunger w.config.combat.attackerHungerGain)
    fun _ => rfl).trans (.setMass _ _ _)

/-- Or on the target's. -/
theorem bitten (w : World Enclosure) (combat : CombatConfig) (target : Rank) (victim : Creature) :
    w.Spares (w.bitten combat target victim) :=
  (modify (f := (·.adjustHunger (-combat.targetHungerLoss))) fun _ => rfl).trans (.setMass _ _ _)

theorem exchanged (w : World Enclosure) (actor target : Rank) (attacker victim : Creature) (targetId : Ident) :
    w.Spares (w.exchanged actor target attacker victim targetId) :=
  (rewarded w actor attacker _).trans (.bitten _ _ target victim)

end Spares

end World

/-! ## Turns -/

/-- Pushing a body leaves the others alone. -/
theorem Enclosure.get?_pushes {own other : Handle} (hne : other ≠ own) (forces : List Vec) (e : Enclosure) :
    (forces.foldl (fun e force => e.push own force) e).bodies.get? other = e.bodies.get? other := by
  induction forces generalizing e with
  | nil => rfl
  | cons force forces ih =>
    refine (ih (e.push own force)).trans ?_
    show (e.bodies.modify own _).get? other = _
    rw [Table.get?_modify, if_neg hne]

namespace Stage

open World (Spares)

variable {s s' : Stage Enclosure} {rank : Rank}

/-- The dead take their own bodies with them. -/
theorem reap_spares (s : Stage Enclosure) (rank : Rank) : Spares s.world (s.reap rank).world := by
  rcases s.reap_cases rank with hspared | ⟨c, world, -, hremoved, hreaped⟩
  · rw [hspared]
    exact .refl _
  · rw [hreaped]
    exact .removeCreature hremoved

/-- Of the pellets, one may be eaten, and the others stay. -/
theorem feed_spares (s : Stage Enclosure) (rank : Rank) : Spares s.world (s.feed rank).world := by
  rcases s.feed_cases rank with hnothing | ⟨eater, food, pellet, world, -, hremoved, hfed⟩
  · rw [hnothing]
    exact .refl _
  · rw [hfed]
    -- the meal is the one pellet that goes
    exact (Spares.removePellet hremoved).trans (.fed world rank eater)

/-- A laser has no body. -/
theorem tickLaser_spares (s : Stage Enclosure) (rank : Rank) : Spares s.world (s.tickLaser rank).world := by
  rcases s.tickLaser_cases rank with hnothing | ⟨own, target, hticked⟩
  · rw [hnothing]
    exact .refl _
  · rw [hticked]
    exact .modify fun c => (c.tickLaser_lives _ _).body_eq

/-- Running the genes pushes the creature's own body, and no pellet's. -/
theorem runGenes_spares_pellets {requests : List Interaction} (h : s.runGenes rank = .ok (requests, s')) :
    Spares s.world s'.world := by
  have hquiet : s.world.Quiet s'.world := by
    obtain ⟨world, rfl, hquiet⟩ := runGenes_quiet h
    exact hquiet
  rcases runGenes_cases h with ⟨-, -, rfl⟩ | ⟨c, turn, source, similarity, hc, -, -, rfl⟩
  · exact .refl _
  · refine .of_bodies (·.quiet hquiet) (fun _ _ hp => hp) fun hw other p hp => ?_
    -- the forces all act on the creature's own body
    exact Enclosure.get?_pushes (hw.embodied.pellet_ne hc hp) turn.pushes s.world.enclosure

/-- An attack spares pellets, whether or not its target survives. -/
theorem attack_spares (s : Stage Enclosure) (actor target : Rank) (targetId : Ident) :
    Spares s.world (s.attack actor target targetId).world := by
  rcases s.attack_cases actor target targetId with hnothing | ⟨attacker, victim, -, -, -, hattack⟩
  · rw [hnothing]
    exact .refl _
  · rw [hattack]
    refine .trans ?_ (reap_spares _ target)
    exact .exchanged _ actor target _ _ targetId

/-- The body of a child is a new one, and the body that its parent scales is the parent's own. -/
theorem replicate_spares (s : Stage Enclosure) (rank : Rank) :
    Outcome.Ensures (s.replicate rank) fun s' => Spares s.world s'.world := by
  refine (s.replicate_cases rank).mono fun s' h => ?_
  cases h with
  | refused => exact .refl _
  | @delivered _ _ _ _ _ source _ _ _ _ _ hnewborn =>
    rw [deliver_world]
    -- the parent pays by what its own body weighs
    refine .spawnCreature hnewborn.body_eq
      ((World.Quiet.memory _ source s.world.similarity).trans (.setMass _ _ _)) fun hw other p hp => ?_
    exact World.get?_pellet_setMass fun c hc => hw.embodied.pellet_ne hc hp

/-- So no request of a creature reaches a pellet. -/
theorem interact_spares (actor : Rank) (s : Stage Enclosure) (r : Interaction) :
    Outcome.Ensures (interact actor s r) fun s' => Spares s.world s'.world := by
  cases r with
  | attack target targetId => exact .pure (attack_spares s actor target targetId)
  | replicate => exact replicate_spares s actor

/-- Metabolism does not either. -/
theorem metabolize_spares (s : Stage Enclosure) (rank : Rank) : Spares s.world (s.metabolize rank).world := by
  rw [metabolize_eq]
  refine .trans ?_ (reap_spares _ rank)
  exact .modify fun _ => rfl

/-- **A turn spares all pellets**, the eaten one apart. -/
theorem turn_spares (s : Stage Enclosure) (rank : Rank) :
    Outcome.Ensures (s.turn rank) fun s' => Spares s.world s'.world := by
  unfold turn
  refine .ite (fun _ => ?_) fun _ => .pure (.refl _)
  refine .bind (.ofFault fun _ hgenes => hgenes) ?_
  rintro ⟨requests, ran⟩ hgenes
  -- each part of a turn takes pellets out at most
  have hran := ((s.feed_spares rank).trans (tickLaser_spares _ rank)).trans (runGenes_spares_pellets hgenes)
  have hrequests : Outcome.Ensures (requests.foldlM (interact rank) ran) fun done =>
      ran.world.Spares done.world :=
    .foldlM (R := fun s s' => s.world.Spares s'.world) (fun s => .refl s.world) Spares.trans
      (interact_spares rank) requests ran
  exact .bind hrequests fun done hdone => .pure ((hran.trans hdone).trans (metabolize_spares _ rank))

/-- So the turns of a tick spare them, one after the other. -/
theorem turns_spare (s : Stage Enclosure) (ranks : List Rank) :
    Outcome.Ensures (s.turns ranks) fun s' => Spares s.world s'.world := by
  unfold turns
  exact .foldlM (R := fun s s' => s.world.Spares s'.world) (fun s => .refl s.world) Spares.trans
    turn_spares ranks s

end Stage

/-! ## The rest of a tick -/

namespace World

variable {w w' : World Enclosure}

/-- A fresh creature has a body of its own as well. -/
theorem spawnFresh_spares (w : World Enclosure) : Outcome.Ensures w.spawnFresh fun (_, w') => w.Spares w' := by
  refine (w.spawnFresh_newborn (P := fun _ => True) fun _ => .any).mono ?_
  rintro ⟨e, w'⟩ ⟨place, program, c, source, -, hnewborn, -, -, rfl⟩
  have hsized := Enclosure.setMass_bodies c w.config.world.freshSpawnMass
    ((Birth.rootSeed place w.config program).bodied w.enclosure)
  have hquiet := (Quiet.memory
    { w with enclosure := (Birth.rootSeed place w.config program).bodied w.enclosure } source
    w.similarity).trans (.moved (Physics.setMass_sameBodies c w.config.world.freshSpawnMass _))
  refine .spawnCreature hnewborn.body_eq hquiet ?_
  intro hw rank p hp
  refine (hsized.2 p.body).trans (if_neg ?_)
  -- the body is new, so it is not that of a pellet
  rw [hnewborn.body_eq]
  exact hw.embodied.pellet_ne_next hp

/-- **Filling up spares all pellets.** -/
theorem refill_spares (w : World Enclosure) : Outcome.Ensures w.refill fun (_, w') => w.Spares w' :=
  spawnMany_invariant (I := w.Spares) (fun w₁ h₁ => w₁.spawnFresh_spares.mono fun _ h₂ => h₁.trans h₂) _ w
    (.refl w)

/-- The end of a tick spares them too. -/
theorem closing_spares {ranks : List Rank} {stage : Stage Enclosure} {events : List Event}
    (h : closing ranks stage = .ok (events, w')) : stage.world.Spares w' := by
  obtain ⟨⟨births, w₁⟩, hrefill, hpure⟩ := except_bind_inv h
  have hspared := (refill_spares stage.world).of_ok hrefill
  dsimp only at hpure
  split at hpure
  · cases hpure
    exact hspared
  · cases hpure
    exact hspared

/-- A step passes pellets over. -/
theorem step_spares {enclosure : Enclosure} {dt : Float} (h : w.enclosure.step dt = .ok enclosure) :
    w.Spares { w with enclosure } := by
  refine .of_bodies (·.quiet (.moved (Physics.step_sameBodies h))) (fun _ _ hp => hp) fun hw rank p hp => ?_
  have hdisc := hw.disc rank p hp
  -- food is not moved
  rcases Enclosure.get?_step h p.body with ⟨hnone, -⟩ | ⟨b, b', hb, hmove, hb'⟩
  · rw [hdisc] at hnone
    cases hnone
  · rw [hdisc] at hb
    cases hb
    cases hmove
    exact hb'.trans hdisc.symm

/-- The clock and the events have nothing to do with pellets. -/
theorem retold_spares (w : World Enclosure) (tick : Nat) (pendingEvents : List Event) :
    w.Spares { w with tick, pendingEvents } :=
  .of_bodies (·.of_eq (fun _ => rfl) (.refl _)) (fun _ _ hp => hp) fun _ _ _ _ => rfl

/-! ## Pellets that are put in -/

/-- From `w` to `w'` pellets have been left alone, and those that are new have the property. -/
def Provides (Q : Rank → Pellet → Prop) (w w' : World Enclosure) : Prop :=
  w.Settled → w.Ranked → w'.Settled ∧ ∀ rank p, w'.pellets.get? rank = some p →
    w.pellets.get? rank = some p ∨ w.pellets.get? rank = none ∧ Q rank p

namespace Provides

variable {Q : Rank → Pellet → Prop} {w'' : World Enclosure}

/-- Where pellets are left alone, none is put in. -/
theorem of_spares (h : w.Spares w') : w.Provides Q w' := by
  intro hw _
  obtain ⟨hsettled, hbefore⟩ := h hw
  exact ⟨hsettled, fun rank p hp => .inl (hbefore rank p hp)⟩

/-- First some are gone, then one is put in. -/
theorem after (h : w.Spares w') (hranked : w.Ranked → w'.Ranked) (hold : w'.pellets = w.pellets)
    (h' : w'.Provides Q w'') : w.Provides Q w'' := by
  intro hw hr
  obtain ⟨hsettled, hnew⟩ := h' (h hw).1 (hranked hr)
  rw [hold] at hnew
  exact ⟨hsettled, hnew⟩

/-- First one is put in, then the pellets are left alone. -/
theorem before (h : w.Provides Q w') (h' : w'.Spares w'') : w.Provides Q w'' := by
  intro hw hr
  obtain ⟨hsettled, hnew⟩ := h hw hr
  obtain ⟨hsettled', hold⟩ := h' hsettled
  exact ⟨hsettled', fun rank p hp => hnew rank p (hold rank p hp)⟩

/-- **A pellet is put in** with a new body, under a rank that was not given out before. -/
theorem spawnPellet {place : Vec} {pellet : Pellet} (h : w.spawnPellet place = .ok (pellet, w')) :
    w.Provides (fun _ p => p = pellet ∧ p.position = place) w' := by
  intro hw hr
  have hembodied := hw.embodied.spawnPellet h
  obtain ⟨source, hbody, hplace, rfl⟩ := spawnPellet_inv h
  have hnew : w.pellets.get? ⟨w.lastRank + 1⟩ = none :=
    Table.get?_eq_none_iff.mpr fun hmem => hr.fresh (List.mem_append_right _ hmem)
  have hget (rank : Rank) : (w.pellets.insert ⟨w.lastRank + 1⟩ pellet).get? rank =
      if rank = ⟨w.lastRank + 1⟩ then some pellet else w.pellets.get? rank := Table.get?_insert ..
  -- one pellet and one body are added, and the pellets from before have bodies of their own
  have hbodies (body : Handle) :
      (w.enclosure.addBody Pellet.radius place .food).2.bodies.get? body =
        if body = ⟨w.enclosure.nextNumber⟩ then some pellet.disc else w.enclosure.bodies.get? body := by
    rw [Pellet.disc, hplace]
    exact Table.get?_insert ..
  refine ⟨⟨hembodied, fun rank p hp => ?_⟩, fun rank p hp => ?_⟩
  · change (w.pellets.insert _ pellet).get? rank = some p at hp
    rw [hget] at hp
    show (w.enclosure.addBody Pellet.radius place .food).2.bodies.get? p.body = _
    rw [hbodies]
    split at hp
    · cases hp
      have hnext : pellet.body = ⟨w.enclosure.nextNumber⟩ := hbody
      rw [if_pos hnext]
    · rw [if_neg (hw.embodied.pellet_ne_next hp)]
      exact hw.disc rank p hp
  · change (w.pellets.insert _ pellet).get? rank = some p at hp
    rw [hget] at hp
    split at hp
    · rename_i heq
      cases hp
      rw [heq]
      exact .inr ⟨hnew, rfl, hplace⟩
    · exact .inl hp

end Provides

/-- What a tick puts in lies clear of the walls. -/
theorem spawnFood_provides (h : w.spawnFood = .ok w') :
    w.Provides (fun _ p => w.config.world.Clear Pellet.radius p.position) w' := by
  rcases spawnFood_cases h with ⟨-, rfl⟩ | ⟨place, source, pellet, -, hplace, hpellet⟩
  · exact .of_spares (.refl _)
  · have hclear := randomPlace_clear _ _ _ _ _ hplace
    -- to draw a place takes nothing from the world but words
    have hquiet : w.Quiet { w with source } := .memory w source w.similarity
    have hspares : w.Spares { w with source } :=
      .of_bodies (·.quiet hquiet) (fun _ _ hp => hp) fun _ _ _ _ => rfl
    refine .after hspares (·.quiet hquiet) rfl fun hw hr => ?_
    obtain ⟨hsettled, hnew⟩ := Provides.spawnPellet hpellet hw hr
    refine ⟨hsettled, fun rank p hp => (hnew rank p hp).imp_right fun ⟨hnone, _, hposition⟩ => ⟨hnone, ?_⟩⟩
    rw [hposition]
    exact hclear

/-- **All that a tick puts in is there when its turns begin**, clear of the walls. -/
theorem openingBy_provides {t : TickCall} {start : Stage Enclosure} (h : w.openingBy t = .ok start) :
    w.Provides (fun _ p => w.config.world.Clear Pellet.radius p.position) start.world := by
  have hopening {w : World Enclosure} (h : w.opening = .ok start) :
      w.Provides (fun _ p => w.config.world.Clear Pellet.radius p.position) start.world := by
    obtain ⟨w₁, hfood, rfl⟩ := opening_inv h
    exact .after (w.retold_spares (w.tick + 1) []) (fun hr => hr.retold _ _ _) rfl (spawnFood_provides hfood)
  cases t with
  | update => exact hopening h
  | advance dt =>
    obtain ⟨enclosure, hstep, h⟩ := except_bind_inv h
    exact .after (step_spares (Outcome.ofFault_inv hstep)) (fun hr => hr.retold _ _ _) rfl (hopening h)

end World

/-! ## Whole runs -/

namespace History

open World (Settled Provides)

variable {config : Config} {entropy : BitVec 256} {calls : List Call} {h h' : History Enclosure}

/-- How a pellet comes into the world by a call: it is put in from outside, with the identity that is handed
back, or it lies clear of the walls when the turns of a tick begin. -/
def Supplies (config : Config) (h : History Enclosure) (c : Call) (rank : Rank) (p : Pellet) : Prop :=
  match c with
  | .insertPellet place => p.position = place ∧ ∃ w', h.world.insertPellet place = .ok (p.id, w')
  | .tick t             => config.world.Clear Pellet.radius p.position ∧
    ∃ start, h.world.openingBy t = .ok start ∧ start.world.pellets.get? rank = some p
  | _                   => False

/-- **What a call does to pellets**: it leaves them alone, or else puts them in. -/
theorem call_provides {c : Call} (hcall : h.call c = .ok h') :
    h.world.Provides (Supplies h.world.config h c) h'.world := by
  cases c with
  | tick t =>
    obtain ⟨events, w', htick, rfl⟩ := call_tick_inv hcall
    obtain ⟨opened, stage, newborn, rest, hopening, -, hturns, hclosing, -, -⟩ := World.tickBy_inv htick
    intro hw hr
    obtain ⟨hopened, hnew⟩ := World.openingBy_provides hopening hw hr
    have hturned := (Stage.turns_spare _ _).of_ok hturns
    obtain ⟨hsettled, hbefore⟩ := hturned.trans (World.closing_spares hclosing) hopened
    -- the pellets after the turns are some of those that the opening has left
    refine ⟨hsettled, fun rank p hp => ?_⟩
    have hthere := hbefore rank p hp
    exact (hnew rank p hthere).imp_right fun ⟨hnone, hclear⟩ => ⟨hnone, hclear, _, hopening, hthere⟩
  | insertCreature seed =>
    obtain ⟨⟨id, w'⟩, hinsert, hpure⟩ := except_bind_inv hcall
    cases hpure
    obtain ⟨c, source, -, hnewborn, rfl⟩ := World.insertCreature_inv (Outcome.ofFault_inv hinsert)
    exact .of_spares (.spawnCreature hnewborn.body_eq (.memory _ source h.world.similarity)
      fun _ _ _ _ => rfl)
  | insertPellet place =>
    obtain ⟨⟨id, w'⟩, hinsert, hpure⟩ := except_bind_inv hcall
    cases hpure
    have hinsert := Outcome.ofFault_inv hinsert
    obtain ⟨⟨pellet, w₁⟩, hspawn, hpure⟩ := except_bind_inv hinsert
    cases hpure
    intro hw hr
    obtain ⟨hsettled, hnew⟩ := Provides.spawnPellet hspawn hw hr
    refine ⟨hsettled, fun rank p hp => (hnew rank p hp).imp_right fun ⟨hnone, heq, hplace⟩ => ?_⟩
    subst heq
    exact ⟨hnone, hplace, _, hinsert⟩
  | setMass id mass =>
    cases hcall
    exact .of_spares (.setCreatureMass h.world id mass)
  | compare a b =>
    cases hcall
    exact .of_spares (.genomeSimilarity h.world a b)

/-- A world is set up without pellets. -/
theorem settled_create {w : World Enclosure}
    (hcreate : World.create config (Enclosure.empty config.world.width config.world.height) entropy = .ok w) :
    w.Settled ∧ ∀ rank p, w.pellets.get? rank ≠ some p := by
  obtain ⟨-, births, w₁, hrefill, rfl⟩ := World.create_refill hcreate
  have hbare : (World.bare config (Enclosure.empty config.world.width config.world.height) entropy).Settled :=
    ⟨World.embodied_bare config rfl entropy, nofun⟩
  obtain ⟨hsettled, hnone⟩ := ((World.refill_spares _).of_ok hrefill).trans
    (w₁.retold_spares w₁.tick births) hbare
  exact ⟨hsettled, fun rank p hp => by cases hnone rank p hp⟩

/-- Pellets lie as they were put in every state that calls lead to. -/
theorem settled_run
    (hrun : run config (Enclosure.empty config.world.width config.world.height) entropy calls = .ok h) :
    h.world.Settled := by
  have hboth : h.world.Settled ∧ h.world.Ranked := by
    refine run_induction hrun (P := fun h => h.world.Settled ∧ h.world.Ranked) (fun w hw => ?_) ?_
    · obtain ⟨-, births, w₁, hcourse, rfl⟩ := World.create_inv hw
      exact ⟨(settled_create hw).1, ((World.Ranked.bare _ _ _).course hcourse).retold _ _ _⟩
    · rintro g c g' - ⟨hsettled, hranked⟩ hcall
      exact ⟨(call_provides hcall hsettled hranked).1, ranked_call hranked hcall⟩
  exact hboth.1

/-- **Some call has put in each pellet that is there**, and it is still the same. -/
theorem supplied_run {rank : Rank} {p : Pellet}
    (hrun : run config (Enclosure.empty config.world.width config.world.height) entropy calls = .ok h)
    (hp : h.world.pellets.get? rank = some p) :
    ∃ before c after g g', calls = before ++ c :: after ∧
      run config (Enclosure.empty config.world.width config.world.height) entropy before = .ok g ∧
      g.call c = .ok g' ∧ g.world.pellets.get? rank = none ∧ g'.world.pellets.get? rank = some p ∧
      g.Supplies config c rank p := by
  -- the induction is on the calls: the last one has put the pellet in, or it was there before
  induction calls using List.reverseRecOn generalizing h with
  | nil =>
    obtain ⟨w, hw, hpure⟩ := except_bind_inv hrun
    cases hpure
    exact absurd hp ((settled_create hw).2 rank p)
  | append_singleton calls c ih =>
    have hsplit := hrun
    rw [run_concat] at hsplit
    obtain ⟨g, hbefore, hcall⟩ := except_bind_inv hsplit
    rcases (call_provides hcall (settled_run hbefore) (ranked_run hbefore)).2 rank p hp with
      hthere | ⟨hnone, hsupplied⟩
    · obtain ⟨before, c', after, g₁, g₂, rfl, hearlier⟩ := ih hbefore hthere
      refine ⟨before, c', after ++ [c], g₁, g₂, ?_, hearlier⟩
      rw [List.append_assoc, List.cons_append]
    · rw [config_run hbefore] at hsupplied
      exact ⟨calls, c, [], g, h, rfl, hbefore, hcall, hnone, hp, hsupplied⟩

end History

/-- **Pellets lie where they were put.** In every state that calls lead to, the body of each pellet is where
the pellet is said to be, and as large as pellets are; and some call has put in this very pellet, under a rank
that nothing had before. What a tick puts in is clear of the walls, and is there when its turns begin. -/
theorem pellets_lie_where_they_were_put {config : Config} {entropy : BitVec 256} {calls : List Call}
    {h : History Enclosure}
    (hrun : History.run config (Enclosure.empty config.world.width config.world.height) entropy calls = .ok h) :
    (∀ rank p, h.world.pellets.get? rank = some p →
      (∃ b, h.world.enclosure.bodies.get? p.body = some b ∧ b.position = p.position ∧
        b.radius = Pellet.radius) ∧
      ∃ before c after g g', calls = before ++ c :: after ∧
        History.run config (Enclosure.empty config.world.width config.world.height) entropy before = .ok g ∧
        g.call c = .ok g' ∧ g.world.pellets.get? rank = none ∧ g'.world.pellets.get? rank = some p ∧
        g.Supplies config c rank p) ∧
    ∀ t start, h.world.openingBy t = .ok start → ∀ rank p, start.world.pellets.get? rank = some p →
      h.world.pellets.get? rank = some p ∨
        h.world.pellets.get? rank = none ∧ config.world.Clear Pellet.radius p.position := by
  have hsettled := History.settled_run hrun
  refine ⟨fun rank p hp => ⟨?_, History.supplied_run hrun hp⟩, fun t start hopening rank p hp => ?_⟩
  · exact ⟨p.disc, hsettled.disc rank p hp, rfl, rfl⟩
  · have hprovided := World.openingBy_provides hopening hsettled (History.ranked_run hrun)
    rw [History.config_run hrun] at hprovided
    exact hprovided.2 rank p hp

/-- The first pellet of some visits, which was put in from outside. -/
theorem pellets_lie_where_they_were_put_visits :
    ∃ h p b, History.run .deserted
        (Enclosure.empty Config.deserted.world.width Config.deserted.world.height) 0 visits = .ok h ∧
      h.world.pellets.get? ⟨4⟩ = some p ∧
      h.world.enclosure.bodies.get? p.body = some b ∧ b.position = p.position ∧ b.radius = Pellet.radius ∧
      ∃ before c after g, visits = before ++ c :: after ∧
        History.run .deserted (Enclosure.empty Config.deserted.world.width Config.deserted.world.height) 0 before =
          .ok g ∧ g.Supplies .deserted c ⟨4⟩ p := by
  have hcheck : (History.run .deserted (Enclosure.empty Config.deserted.world.width Config.deserted.world.height) 0
      visits).toOption.any (fun h => (h.world.pellets.get? ⟨4⟩).isSome) = true := by decide +kernel
  obtain ⟨h, hrun, hfound⟩ := except_any_inv hcheck
  obtain ⟨p, hp⟩ := Option.isSome_iff_exists.mp hfound
  obtain ⟨⟨b, hb, hposition, hradius⟩, before, c, after, g, -, hsplit, hbefore, -, -, -, hsupplied⟩ :=
    (pellets_lie_where_they_were_put hrun).1 ⟨4⟩ p hp
  exact ⟨h, p, b, hrun, hp, hb, hposition, hradius, before, c, after, g, hsplit, hbefore, hsupplied⟩

end Vivarium
