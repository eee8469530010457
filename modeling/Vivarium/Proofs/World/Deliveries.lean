import Vivarium.Proofs.Evolution.Descent
import Vivarium.Proofs.Random.Attempts
import Vivarium.Proofs.World.Bodies
import Vivarium.Proofs.World.Provenance

/-!
# A replication is all or nothing

A creature that is too light, or in a world that is full, has no child, and trying costs nothing: nothing is
drawn, and nobody is charged or told. Otherwise all that could stop the birth lies in the reproduction of the
parent's program. Once that has returned, the lineage can be counted on, since fewer mutations than generations
are counted in every line; a body, an identity and a heading are always to be had. So the parent is never
charged without a child, and no body is left over.

Main result: `replications_are_all_or_nothing`.
-/

namespace Vivarium

/-! ## Making a child -/

/-- The body that a seed is given, at rest in its place. -/
def Seed.atRest (seed : Seed) : Body :=
  { position := seed.position, velocity := .zero, force := .zero, radius := seed.mass.sqrt, layer := .creature }

/-- **A body, an identity and a heading are always to be had**, for three words. -/
theorem Seed.embody_run {E : Type} [Physics E] (seed : Seed) (tick : Nat) (e : E) (source : Source) :
    ∃ c, (seed.embody tick e).run source = .ok ((c, seed.bodied e), source.after 3) ∧
      c.Newborn seed tick e := by
  have hfinite : fullTurn.isFinite = true := by decide +kernel
  have hnormal : 2 ^ 52 ≤ Double.units fullTurn := by decide +kernel
  -- two words make the name and one the heading
  obtain ⟨direction, hheading, -⟩ := Draw.real_run hfinite hnormal (source.after 2)
  have hident : Draw.ident.run source = .ok (⟨source.next64.2.next64.1, source.next64.1⟩, source.after 2) := rfl
  have hrun : ∃ c, (seed.embody tick e).run source = .ok ((c, seed.bodied e), source.after 3) := by
    unfold embody
    dsimp only
    rw [Draw.bind_run hident, Draw.bind_run hheading, StateT.run_pure]
    exact ⟨_, rfl⟩
  obtain ⟨c, hrun⟩ := hrun
  exact ⟨c, hrun, (seed.embody_ensures tick e _ _ _ hrun).1⟩

namespace Birth

/-- A child is made when the reproduction has returned and its counters fit. -/
theorem child_run {E : Type} [Physics E] (place : Vec) (tick : Nat) (e : E) {parent : Creature}
    {config : Config} {source source' : Source} {o : Offspring} {lineage : Lineage}
    (hevolve : (parent.program.evolve parent.traits config.evolution).run.run source = .ok (.ok o, source'))
    (hlineage : childLineage parent o.mutated = .ok lineage) :
    ∃ c, (child parent place tick config e).run.run source = .ok
        (.ok ({ creature := c, mutated := o.mutated, operator := o.operator },
          (childSeed place config o lineage).bodied e), source'.after 3) ∧
      c.Newborn (childSeed place config o lineage) tick e := by
  obtain ⟨c, hembody, hnewborn⟩ := (childSeed place config o lineage).embody_run tick e source'
  refine ⟨c, ?_, hnewborn⟩
  -- to count a generation takes no word from the source
  have hcounted : (liftM (childLineage parent o.mutated) : Draw Lineage).run source' = .ok (lineage, source') := by
    rw [hlineage]
    rfl
  unfold child
  rw [Build.bind_run hevolve, Build.bind_run (Build.lift_run hcounted)]
  exact Build.bind_run (Build.lift_run hembody) _

end Birth

namespace World

variable {w : World Enclosure}

/-- In every line fewer mutations are counted than generations, since a child counts one more at most. -/
theorem mutations_vital : Vital Enclosure fun c => c.lineage.mutations < c.lineage.generation where
  lives c d hlives h := by
    rw [hlives.lineage_eq]
    exact h
  arrives w seed c es harrives hall := by
    -- a newcomer has not been mutated, and a child once more than its parent at most
    cases harrives with
    | @fresh _ _ c _ hnewborn =>
      show c.lineage.mutations < c.lineage.generation
      rw [hnewborn.lineage_eq]
      exact Nat.zero_lt_one
    | @child rank parent o _ lineage _ hparent _ _ _ hlineage hnewborn =>
      have hbefore := hall rank parent hparent
      have hone : o.mutated.toNat ≤ 1 := Bool.toNat_le o.mutated
      have hline : c.lineage = lineage := hnewborn.lineage_eq
      rw [hline, Birth.childLineage_inv hlineage]
      show parent.lineage.mutations + o.mutated.toNat < parent.lineage.generation + 1
      omega

/-- The world when a body has been put in for a child, and nobody has paid for it. -/
def lodging (w : World Enclosure) (source : Source) (seed : Seed) : World Enclosure :=
  { w with source, enclosure := seed.bodied w.enclosure }

/-- What is changed when there is a body for a child and its parent has paid for it, up to some mass: the parent
and its body, the new body and the source, and nothing else. -/
structure Paid (w : World Enclosure) (rank : Rank) (parent : Creature) (mass : Float) (seed : Seed)
    (source : Source) (w' : World Enclosure) : Prop where
  restates    : ∃ creatures bodies, w' =
    { w with
      creatures, source
      enclosure := { w.enclosure with bodies, nextNumber := w.enclosure.nextNumber + 1 } }
  keys_eq     : w'.creatures.keys = w.creatures.keys
  creatures   : ∀ other, w'.creatures.get? other =
    if other = rank then some { parent with mass } else w.creatures.get? other
  bodyKeys_eq : w'.enclosure.bodies.keys = w.enclosure.bodies.keys ++ [⟨w.enclosure.nextNumber⟩]
  bodies      : ∀ body, w'.enclosure.bodies.get? body =
    if body = parent.body then (w.enclosure.bodies.get? body).map (Body.resized parent.mass mass)
    else if body = ⟨w.enclosure.nextNumber⟩ then some seed.atRest else w.enclosure.bodies.get? body

theorem paid_lodging (hembodied : w.Embodied) {rank : Rank} {parent : Creature}
    (hparent : w.creatures.get? rank = some parent) (mass : Float) (seed : Seed) (source : Source) :
    w.Paid rank parent mass seed source ((w.lodging source seed).setMass rank mass) := by
  have howner : w.bodyOf? (.creature rank) = some parent.body := congrArg (Option.map _) hparent
  have hlodged (body : Handle) : (w.lodging source seed).enclosure.bodies.get? body =
      if body = ⟨w.enclosure.nextNumber⟩ then some seed.atRest else w.enclosure.bodies.get? body :=
    Table.get?_insert w.enclosure.bodies _ _ _
  have hquiet := Quiet.setMass (w.lodging source seed) rank mass
  refine ⟨?_, hquiet.keys_eq, fun other => ?_, ?_, fun body => ?_⟩
  · obtain ⟨creatures, bodies, hset⟩ := Restates.setMass (w.lodging source seed) rank mass
    exact ⟨creatures, bodies, hset⟩
  · rw [get?_setMass]
    split
    · rename_i heq
      rw [heq]
      exact congrArg (Option.map _) hparent
    · rfl
  · exact hquiet.sameBodies.handles_eq.trans (Physics.handles_addBody (hembodied.fresh _ _ _))
  · rw [get?_body_setMass (w := w.lodging source seed) hparent, hlodged]
    split
    · rename_i heq
      -- the parent's body was there before the child's
      have hold : body ≠ ⟨w.enclosure.nextNumber⟩ := by
        rintro rfl
        have hheld := hembodied.held howner
        rw [← heq] at hheld
        exact hembodied.fresh seed.mass.sqrt seed.position .creature hheld
      rw [if_neg hold]
    · rfl

end World

/-! ## The birth of a child -/

namespace Stage

variable {s : Stage Enclosure} {rank : Rank} {parent : Creature} {o : Offspring} {source : Source}

/-- The seed of a child: beside its parent, of the next generation, and with one mutation more if the roll
for one succeeded. -/
def seedOf (s : Stage Enclosure) (parent : Creature) (o : Offspring) : Seed :=
  { program  := o.program
    traits   := o.traits
    lineage  :=
      { parentId   := some parent.id
        generation := parent.lineage.generation + 1
        mutations  := parent.lineage.mutations + o.mutated.toNat }
    position := (s.world.placeOf parent.body).add ⟨5.0, 0.0⟩
    mass     := s.world.config.metabolism.birthMass }

/-- All that a replication changes when it is carried out, where the reproduction returned `o` and left
`source`. -/
structure Delivered (s : Stage Enclosure) (rank : Rank) (parent : Creature) (o : Offspring) (source : Source)
    (child : Creature) (s' : Stage Enclosure) : Prop where
  /-- The child is as its seed says, and sated. -/
  newborn           : child.Newborn (s.seedOf parent o) s.world.tick s.world.enclosure
  child_eq          : s'.world.creatures.get? ⟨s.world.lastRank + 1⟩ = some child
  /-- Of the parent, only the mass is changed. -/
  parent_eq         : s'.world.creatures.get? rank =
    some { parent with mass := parent.mass - s.world.config.metabolism.birthMass }
  others_eq         : ∀ other, other ≠ rank → other ≠ ⟨s.world.lastRank + 1⟩ →
    s'.world.creatures.get? other = s.world.creatures.get? other
  /-- One creature is added, last in the order of spawning. -/
  keys_eq           : s'.world.creatures.keys = s.world.creatures.keys ++ [⟨s.world.lastRank + 1⟩]
  creatureOfBody_eq : s'.world.creatureOfBody =
    s.world.creatureOfBody.insert child.body ⟨s.world.lastRank + 1⟩
  creatureOfId_eq   : s'.world.creatureOfId = s.world.creatureOfId.insert child.id ⟨s.world.lastRank + 1⟩
  /-- The child has a body of its own, at rest beside that of its parent, which follows the parent's mass. -/
  bodies_eq         : ∃ b, s.world.enclosure.bodies.get? parent.body = some b ∧
    s'.world.enclosure.bodies.get? parent.body =
      some (b.resized parent.mass (parent.mass - s.world.config.metabolism.birthMass)) ∧
    s'.world.enclosure.bodies.get? child.body =
      some { position := b.position.add ⟨5.0, 0.0⟩
             velocity := .zero
             force    := .zero
             radius   := s.world.config.metabolism.birthMass.sqrt
             layer    := .creature }
  bodyKeys_eq       : s'.world.enclosure.bodies.keys = s.world.enclosure.bodies.keys ++ [child.body]
  newBody           : child.body ∉ s.world.enclosure.bodies.keys
  /-- All others, pellets among them, keep their bodies as they are. -/
  otherBodies_eq    : ∀ o, o ≠ .creature rank → o ≠ .creature ⟨s.world.lastRank + 1⟩ →
    s'.world.bodyOf? o = s.world.bodyOf? o ∧ ∀ body ∈ s.world.bodyOf? o,
      s'.world.enclosure.bodies.get? body = s.world.enclosure.bodies.get? body
  views_eq          : s'.views = s.views ++ [s'.world.viewOf ⟨s.world.lastRank + 1⟩ child]
  pelletViews_eq    : s'.pelletViews = s.pelletViews
  /-- The birth is told, and then the mutation if there was an operator to be run. -/
  events_eq         : s'.events = s.events ++
    .birth child.id (some parent.id) (parent.lineage.generation + 1) s.world.tick ::
      (o.operator.map fun op => .mutation child.id op.name s.world.tick).toList
  /-- Pellets, the clock and all the rest are left alone. Three words are drawn after the reproduction. -/
  frame             : ∃ creatures creatureOfBody creatureOfId bodies, s'.world =
    { s.world with
      creatures, creatureOfBody, creatureOfId
      lastRank  := s.world.lastRank + 1
      source    := source.after 3
      enclosure := { s.world.enclosure with bodies, nextNumber := s.world.enclosure.nextNumber + 1 } }

/-- Delivered once it is paid for, a newborn is in the world, in view and told of, and that is all. -/
theorem delivered_of_paid (hranked : s.world.Ranked) (hembodied : s.world.Embodied)
    (hparent : s.world.creatures.get? rank = some parent) {child : Creature}
    (hnewborn : child.Newborn (s.seedOf parent o) s.world.tick s.world.enclosure) {paid : World Enclosure}
    (hpaid : s.world.Paid rank parent (parent.mass - s.world.config.metabolism.birthMass) (s.seedOf parent o)
      (source.after 3) paid) :
    s.Delivered rank parent o source child (s.deliver parent ⟨child, o.mutated, o.operator⟩ paid) := by
  rw [deliver_eq]
  obtain ⟨⟨creatures, bodies, rfl⟩, hkeys, hcreatures, hbodyKeys, hbodies⟩ := hpaid
  dsimp only at hkeys hcreatures hbodyKeys hbodies
  have hbody : child.body = ⟨s.world.enclosure.nextNumber⟩ := hnewborn.body_eq
  rw [← hbody] at hbodyKeys hbodies
  -- the child has a rank that nobody had, and of the others only the parent is changed
  have hnew : (⟨s.world.lastRank + 1⟩ : Rank) ∉ s.world.creatures.keys :=
    fun hmem => hranked.fresh (List.mem_append_left _ hmem)
  have hold : rank ≠ ⟨s.world.lastRank + 1⟩ := fun heq => hnew (heq ▸ Table.mem_keys_of_get? hparent)
  have hranks (other : Rank) : (creatures.insert ⟨s.world.lastRank + 1⟩ child).get? other =
      if other = ⟨s.world.lastRank + 1⟩ then some child
      else if other = rank then
        some { parent with mass := parent.mass - s.world.config.metabolism.birthMass }
      else s.world.creatures.get? other := by
    rw [Table.get?_insert, hcreatures]
  have hothers (other : Rank) (hparent : other ≠ rank) (hchild : other ≠ ⟨s.world.lastRank + 1⟩) :
      (creatures.insert ⟨s.world.lastRank + 1⟩ child).get? other = s.world.creatures.get? other := by
    rw [hranks, if_neg hchild, if_neg hparent]
  -- so it is with the bodies
  have howner : s.world.bodyOf? (.creature rank) = some parent.body := congrArg (Option.map _) hparent
  have hfree : child.body ∉ s.world.enclosure.bodies.keys := hnewborn.body_eq ▸ hembodied.fresh _ _ _
  have hapart : child.body ≠ parent.body := fun heq => hfree (heq ▸ hembodied.held howner)
  obtain ⟨b, hb⟩ : ∃ b, s.world.enclosure.bodies.get? parent.body = some b :=
    Option.isSome_iff_exists.mp (Table.mem_keys_iff_isSome.mp (hembodied.held howner))
  have hplace : s.world.placeOf parent.body = b.position := by
    show ((s.world.enclosure.bodies.get? parent.body).map (·.position)).getD .zero = b.position
    rw [hb]
    rfl
  exact
    { newborn           := hnewborn
      child_eq          := (hranks _).trans (if_pos rfl)
      parent_eq         := (hranks _).trans ((if_neg hold).trans (if_pos rfl))
      others_eq         := hothers
      keys_eq           := by
        rw [← hkeys] at hnew ⊢
        exact Table.keys_insert hnew child
      creatureOfBody_eq := rfl
      creatureOfId_eq   := rfl
      bodies_eq         := by
        refine ⟨b, hb, (hbodies _).trans ?_, (hbodies _).trans ?_⟩
        · rw [if_pos rfl, hb]
          rfl
        · rw [if_neg hapart, if_pos rfl, ← hplace]
          rfl
      bodyKeys_eq       := hbodyKeys
      newBody           := hfree
      otherBodies_eq    := by
        intro o hoParent hoChild
        refine ⟨World.bodyOf?_congr rfl fun other hother => ?_, fun body hheld => ?_⟩
        · exact hothers other (fun heq => hoParent (heq ▸ hother)) fun heq => hoChild (heq ▸ hother)
        · have hkept : body ≠ child.body := fun heq => hfree (heq ▸ hembodied.held hheld)
          refine (hbodies body).trans ?_
          rw [if_neg (hembodied.ne hheld howner hoParent), if_neg hkept]
      views_eq          := rfl
      pelletViews_eq    := rfl
      events_eq         := by
        have hgeneration : child.lineage.generation = parent.lineage.generation + 1 :=
          congrArg Lineage.generation hnewborn.lineage_eq
        rw [← hgeneration]
        rfl
      frame             := ⟨_, _, _, bodies, rfl⟩ }

/-- Once the reproduction has returned and the lineage can be counted on, nothing stops the birth. -/
theorem replicate_delivered (hranked : s.world.Ranked) (hembodied : s.world.Embodied)
    (hparent : s.world.creatures.get? rank = some parent)
    (hguard : ¬ (parent.mass < s.world.config.metabolism.replicateMass ∨
      s.world.config.world.populationCap ≤ s.world.population))
    (hevolve : (parent.program.evolve parent.traits s.world.config.evolution).run.run s.world.source =
      .ok (.ok o, source))
    (hlineage : Birth.childLineage parent o.mutated = .ok (s.seedOf parent o).lineage) :
    ∃ child s', s.replicate rank = .ok s' ∧ s.Delivered rank parent o source child s' := by
  obtain ⟨child, hchild, hnewborn⟩ := Birth.child_run ((s.world.placeOf parent.body).add childOffset)
    s.world.tick s.world.enclosure hevolve hlineage
  change child.Newborn (s.seedOf parent o) s.world.tick s.world.enclosure at hnewborn
  have hmass : child.mass = s.world.config.metabolism.birthMass := hnewborn.mass_eq
  have hreplicate : s.replicate rank = .ok (s.deliver parent ⟨child, o.mutated, o.operator⟩
      ((s.world.lodging (source.after 3) (s.seedOf parent o)).setMass rank
        -- the guard has been passed, and the run of the evolution is the one that was given
        (parent.mass - s.world.config.metabolism.birthMass))) := by
    rw [replicate_eq, hparent]
    dsimp only
    rw [if_neg hguard, World.build_run hchild, ← hmass]
    rfl
  exact ⟨child, _, hreplicate,
    delivered_of_paid hranked hembodied hparent hnewborn (World.paid_lodging hembodied hparent _ _ _)⟩

end Stage

/-- **A replication is all or nothing.** At every moment of every run of ticks, in the middle of a tick too, on
whatever source and whatever is in view and has been told: where the parent is not alive, or too light, or the
world is full, a replication leaves everything as it is. Otherwise it is up to the reproduction of the parent's
program alone: wherever that returns, and the parent's generation can be counted on, the child is born. Then one
creature is added, with a body of its own beside its parent's; of the parent, the mass and the size of the body
are changed; a birth is told, and a mutation just where an operator was selected. All other creatures and all
pellets are left alone. -/
theorem replications_are_all_or_nothing {config : Config} {width height : Float} {entropy : BitVec 256}
    {ticks : List TickCall} {w : World Enclosure} {given : Source} {s : Stage Enclosure}
    (hw : w ∈ History.timeline config (Enclosure.empty width height) entropy (ticks.map .tick))
    (hs : s.world = { w with source := given }) (rank : Rank) :
    ((∀ parent, s.world.creatures.get? rank = some parent →
        parent.mass < s.world.config.metabolism.replicateMass ∨
          s.world.config.world.populationCap ≤ s.world.population) →
      s.replicate rank = .ok s) ∧
    ∀ parent x source, s.world.creatures.get? rank = some parent →
      ¬ parent.mass < s.world.config.metabolism.replicateMass →
      s.world.population < s.world.config.world.populationCap →
      parent.lineage.generation + 1 < twoTo 32 →
      (parent.program.evolve parent.traits s.world.config.evolution).run.run s.world.source = .ok (x, source) →
      ∃ o child s', x = .ok o ∧
        o.Rolled parent.program parent.traits s.world.config.evolution s.world.source ∧
        s.replicate rank = .ok s' ∧ s.Delivered rank parent o source child s' := by
  constructor
  · intro hrefused
    rw [Stage.replicate_eq]
    cases hparent : s.world.creatures.get? rank with
    | none => rfl
    | some parent => exact if_pos (hrefused parent hparent)
  · intro parent x source hparent hheavy hroom hgeneration hevolve
    obtain ⟨o, rfl, -⟩ := evolve_ensures _ _ _ _ _ _ hevolve
    -- what holds at every moment of the run does not depend on the source
    have hranked : s.world.Ranked := by
      rw [hs]
      exact World.lasting_ranked.source given
        (History.timeline_ticks_lasting World.lasting_ranked (.bare _ _ _) w hw)
    have hembodied : s.world.Embodied := by
      rw [hs]
      exact World.embodied_lasting.source given (History.embodied_timeline rfl w hw)
    have hmutations : parent.lineage.mutations < parent.lineage.generation := by
      rw [hs] at hparent
      exact History.timeline_ticks_lasting World.mutations_vital.lasting nofun w hw rank parent hparent
    have hone : o.mutated.toNat ≤ 1 := Bool.toNat_le o.mutated
    have hguard : ¬ (parent.mass < s.world.config.metabolism.replicateMass ∨
        s.world.config.world.populationCap ≤ s.world.population) :=
      not_or.mpr ⟨hheavy, Nat.not_le_of_lt hroom⟩
    obtain ⟨child, s', hreplicate, hdelivered⟩ := Stage.replicate_delivered hranked hembodied hparent hguard
      hevolve (Birth.childLineage_of_lt hgeneration (by omega))
    exact ⟨o, child, s', rfl, Program.evolve_rolled hevolve, hreplicate, hdelivered⟩

/-- Right after its world was set up, a heavy founder has a child, and the roll for a mutation succeeds; a
replication of somebody who is not there changes nothing. -/
theorem replications_are_all_or_nothing_fertile :
    ∃ h parent o source child s',
      History.run .fertile (Enclosure.empty 1280.0 720.0) 0 (([] : List TickCall).map .tick) = .ok h ∧
      h.world ∈ History.timeline .fertile (Enclosure.empty 1280.0 720.0) 0 (([] : List TickCall).map .tick) ∧
      (Stage.start h.world []).world = { h.world with source := h.world.source } ∧
      h.world.creatures.get? ⟨1⟩ = some parent ∧
      ¬ parent.mass < h.world.config.metabolism.replicateMass ∧
      h.world.population < h.world.config.world.populationCap ∧
      parent.lineage.generation + 1 < twoTo 32 ∧
      (parent.program.evolve parent.traits h.world.config.evolution).run.run h.world.source =
        .ok (.ok o, source) ∧
      o.mutated = true ∧ (Stage.start h.world []).replicate ⟨1⟩ = .ok s' ∧
      (Stage.start h.world []).Delivered ⟨1⟩ parent o source child s' ∧
      h.world.creatures.get? ⟨7⟩ = none ∧
      (Stage.start h.world []).replicate ⟨7⟩ = .ok (Stage.start h.world []) := by
  -- that the parent is ready and what it breeds are computed, and the delivery is taken from the theorem
  have hcheck : (History.run .fertile (Enclosure.empty 1280.0 720.0) 0 []).toOption.any (fun h =>
      (h.world.creatures.get? ⟨1⟩).any fun parent =>
        ((parent.program.evolve parent.traits h.world.config.evolution).run.run h.world.source).toOption.any
          fun (x, _) => x.toOption.any fun o =>
            decide (¬ parent.mass < h.world.config.metabolism.replicateMass ∧
              h.world.population < h.world.config.world.populationCap ∧
              parent.lineage.generation + 1 < twoTo 32 ∧ o.mutated = true ∧
              h.world.creatures.get? ⟨7⟩ = none)) = true := by
    decide +kernel
  obtain ⟨h, hrun, hcheck⟩ := except_any_inv hcheck
  obtain ⟨parent, hparent, hcheck⟩ := (Option.any_eq_true _ _).mp hcheck
  obtain ⟨⟨x, source⟩, hevolve, hcheck⟩ := except_any_inv hcheck
  obtain ⟨o, rfl, hcheck⟩ := except_any_inv hcheck
  obtain ⟨hheavy, hroom, hgeneration, hmutated, hnobody⟩ := of_decide_eq_true hcheck
  have hmoment : h.world ∈
      History.timeline .fertile (Enclosure.empty 1280.0 720.0) 0 (([] : List TickCall).map .tick) :=
    History.world_mem_timeline hrun []
  have hstage : (Stage.start h.world []).world = { h.world with source := h.world.source } := rfl
  obtain ⟨o', child, s', heq, -, hreplicate, hdelivered⟩ :=
    (replications_are_all_or_nothing hmoment hstage ⟨1⟩).2 parent (.ok o) source hparent hheavy hroom
      hgeneration hevolve
  cases heq
  refine ⟨h, parent, o, source, child, s', hrun, hmoment, hstage, hparent, hheavy, hroom, hgeneration, hevolve,
    hmutated, hreplicate, hdelivered, hnobody, ?_⟩
  refine (replications_are_all_or_nothing hmoment hstage ⟨7⟩).1 fun nobody hget => ?_
  cases hnobody.symm.trans hget

end Vivarium
