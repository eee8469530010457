import Vivarium.Proofs.Creature.Life
import Vivarium.Proofs.Physics
import Vivarium.World.Stage

/-!
# The changes of a world

All that ever happens in a world between two counts of its clock is made of six kinds of changes. A quiet
change moves bodies, draws random words, fills the memo or alters living creatures in their state alone;
an attack is a quiet change with an event. The other four let a pellet appear, a creature eat one, a
creature die and a creature be born. A `World.Change` says which of these it is, with what was true when
it happened, and carries the events that it raises; a `World.Course` is any number of changes one after
the other. An invariant of the world is proved over the six changes, whatever the code around them.
-/

namespace Vivarium

/-- What is told of the population: who was born, of what mutation, and that nobody is left. -/
def Event.Census : Event → Prop
  | .birth ..      => True
  | .mutation ..   => True
  | .extinction .. => True
  | _              => False

namespace World

variable {E : Type}

/-- The same creatures are alive in `w` and in `w'`. -/
structure Retains (w w' : World E) : Prop where
  keys_eq : w'.creatures.keys = w.creatures.keys
  lives   : ∀ rank c, w.creatures.get? rank = some c →
    ∃ c', w'.creatures.get? rank = some c' ∧ c.Lives c'

namespace Retains

theorem refl (w : World E) : Retains w w := ⟨rfl, fun _ c hc => ⟨c, hc, .refl c⟩⟩

theorem trans {w w' w'' : World E} (h : Retains w w') (h' : Retains w' w'') : Retains w w'' := by
  refine ⟨h'.keys_eq.trans h.keys_eq, fun rank c hc => ?_⟩
  obtain ⟨c', hc', hlives⟩ := h.lives rank c hc
  obtain ⟨c'', hc'', hlives'⟩ := h'.lives rank c' hc'
  exact ⟨c'', hc'', hlives.trans hlives'⟩

/-- Where the same creatures are alive, there are as many. -/
theorem population_eq {w w' : World E} (h : Retains w w') : w'.population = w.population := by
  have hlength := congrArg List.length h.keys_eq
  unfold Table.keys at hlength
  rw [List.length_map, List.length_map] at hlength
  exact hlength

end Retains

/-! ## Changing one creature -/

/-- To modify a creature leaves the others as they are. -/
theorem get?_modifyCreature (w : World E) (rank : Rank) (f : Creature → Creature) (other : Rank) :
    (w.modifyCreature rank f).creatures.get? other =
      if other = rank then (w.creatures.get? other).map f else w.creatures.get? other :=
  Table.get?_modify ..

variable [Physics E]

/-- To set a mass does too, and of the creature changes the mass only. -/
theorem get?_setMass (w : World E) (rank : Rank) (mass : Float) (other : Rank) :
    (w.setMass rank mass).creatures.get? other =
      if other = rank then (w.creatures.get? other).map fun c => { c with mass }
      else w.creatures.get? other := by
  -- without a creature under the rank nothing is set
  unfold World.setMass
  split
  · rename_i hnone
    split
    · rename_i heq
      rw [heq, hnone]
      rfl
    · rfl
  · rename_i c hc
    -- the body is resized along with it, which is not seen in the table
    show (w.creatures.modify rank fun _ => (c.setMass mass w.enclosure).1).get? other = _
    rw [Table.get?_modify]
    split
    · rename_i heq
      rw [heq, hc]
      rfl
    · rfl

/-! ## Quiet changes -/

section Lawful

variable [LawfulPhysics E]

/-- From `w` to `w'` nothing appeared and nothing vanished: ranks, indices, pellets and bodies are the
same, and each living creature lives on. -/
structure Quiet (w w' : World E) : Prop where
  config_eq         : w'.config = w.config
  tick_eq           : w'.tick = w.tick
  pendingEvents_eq  : w'.pendingEvents = w.pendingEvents
  lastRank_eq       : w'.lastRank = w.lastRank
  pellets_eq        : w'.pellets = w.pellets
  creatureOfBody_eq : w'.creatureOfBody = w.creatureOfBody
  creatureOfId_eq   : w'.creatureOfId = w.creatureOfId
  pelletOfBody_eq   : w'.pelletOfBody = w.pelletOfBody
  sameBodies        : Physics.SameBodies w.enclosure w'.enclosure
  keys_eq           : w'.creatures.keys = w.creatures.keys
  lives             : ∀ rank c, w.creatures.get? rank = some c →
    ∃ c', w'.creatures.get? rank = some c' ∧ c.Lives c'

namespace Quiet

/-- Nothing has changed. -/
theorem refl (w : World E) : Quiet w w :=
  ⟨rfl, rfl, rfl, rfl, rfl, rfl, rfl, rfl, .refl _, rfl, fun _ c hc => ⟨c, hc, .refl c⟩⟩

/-- One quiet change after another is quiet. -/
theorem trans {w w' w'' : World E} (h : Quiet w w') (h' : Quiet w' w'') : Quiet w w'' where
  config_eq         := h'.config_eq.trans h.config_eq
  tick_eq           := h'.tick_eq.trans h.tick_eq
  pendingEvents_eq  := h'.pendingEvents_eq.trans h.pendingEvents_eq
  lastRank_eq       := h'.lastRank_eq.trans h.lastRank_eq
  pellets_eq        := h'.pellets_eq.trans h.pellets_eq
  creatureOfBody_eq := h'.creatureOfBody_eq.trans h.creatureOfBody_eq
  creatureOfId_eq   := h'.creatureOfId_eq.trans h.creatureOfId_eq
  pelletOfBody_eq   := h'.pelletOfBody_eq.trans h.pelletOfBody_eq
  sameBodies        := h.sameBodies.trans h'.sameBodies
  keys_eq           := h'.keys_eq.trans h.keys_eq
  lives             := by
    intro rank c hc
    obtain ⟨c', hc', hlives⟩ := h.lives rank c hc
    obtain ⟨c'', hc'', hlives'⟩ := h'.lives rank c' hc'
    exact ⟨c'', hc'', hlives.trans hlives'⟩

/-- Only the memory of the world has changed: its source and its memo. -/
theorem memory (w : World E) (source : Source) (similarity : Cache) :
    Quiet w { w with source, similarity } :=
  ⟨rfl, rfl, rfl, rfl, rfl, rfl, rfl, rfl, .refl _, rfl, fun _ c hc => ⟨c, hc, .refl c⟩⟩

/-- Bodies have been moved, pushed or scaled. -/
theorem moved {w : World E} {enclosure : E} (h : Physics.SameBodies w.enclosure enclosure) :
    Quiet w { w with enclosure } :=
  ⟨rfl, rfl, rfl, rfl, rfl, rfl, rfl, rfl, h, rfl, fun _ c hc => ⟨c, hc, .refl c⟩⟩

/-- To modify a creature is quiet, if that is part of its life. -/
theorem modify {w : World E} {rank : Rank} {f : Creature → Creature}
    (hf : ∀ c, w.creatures.get? rank = some c → c.Lives (f c)) : Quiet w (w.modifyCreature rank f) where
  config_eq         := rfl
  tick_eq           := rfl
  pendingEvents_eq  := rfl
  lastRank_eq       := rfl
  pellets_eq        := rfl
  creatureOfBody_eq := rfl
  creatureOfId_eq   := rfl
  pelletOfBody_eq   := rfl
  sameBodies        := .refl _
  keys_eq           := Table.keys_modify f
  lives             := by
    intro rank' c hc
    rw [get?_modifyCreature]
    split
    -- the creature of the rank lives on as `f` says, the others as they are
    · rename_i heq
      rw [heq] at hc ⊢
      rw [hc, Option.map_some]
      exact ⟨f c, rfl, hf c hc⟩
    · exact ⟨c, hc, .refl c⟩

/-- To set a mass is quiet: the creature lives on, and its body is scaled. -/
theorem setMass (w : World E) (rank : Rank) (mass : Float) : Quiet w (w.setMass rank mass) := by
  unfold World.setMass
  split
  · exact .refl w
  · rename_i c hc
    -- first the creature, then the size of its body
    have hmodify : Quiet w (w.modifyCreature rank fun _ => (c.setMass mass w.enclosure).1) := by
      refine .modify fun d hd => ?_
      rw [hc] at hd
      cases hd
      exact c.setMass_lives mass _
    exact hmodify.trans (.moved (Physics.setMass_sameBodies c mass w.enclosure))

end Quiet

end Lawful

/-- All living creatures have the property. -/
def All (P : Creature → Prop) (w : World E) : Prop := ∀ rank c, w.creatures.get? rank = some c → P c

/-! ## Arrivals -/

/-- A creature `c`, made from a seed at the tick of `w` with the next body of `w`, comes into the world
under the given events. -/
inductive Arrives (w : World E) : Seed → Creature → List Event → Prop
  /-- It has no parent. Only its mass is not that of the seed. -/
  | fresh {place : Vec} {program : Program} {c : Creature} (hprogram : program.Executable)
      (hnewborn : c.Newborn (Birth.rootSeed place w.config program) w.tick w.enclosure) :
      Arrives w (Birth.rootSeed place w.config program)
        { c with mass := w.config.world.freshSpawnMass }
        [.birth c.id none c.lineage.generation w.tick]
  /-- It is the child of a creature that is alive, heavy enough and not short of room. -/
  | child {rank : Rank} {parent : Creature} {o : Offspring} {tr : Trace} {lineage : Lineage}
      {c : Creature} (hparent : w.creatures.get? rank = some parent)
      (hheavy : ¬ parent.mass < w.config.metabolism.replicateMass)
      (hroom : w.population < w.config.world.populationCap)
      (hreproduced : Reproduced parent.program parent.traits w.config.evolution o tr)
      (hlineage : Birth.childLineage parent o.mutated = .ok lineage)
      (hnewborn : c.Newborn
        (Birth.childSeed ((w.placeOf parent.body).add Stage.childOffset) w.config o lineage)
        w.tick w.enclosure) :
      Arrives w (Birth.childSeed ((w.placeOf parent.body).add Stage.childOffset) w.config o lineage) c
        (.birth c.id (some parent.id) c.lineage.generation w.tick ::
          (o.operator.map fun op => .mutation c.id op.name w.tick).toList)

namespace Arrives

variable {w : World E} {seed : Seed} {c : Creature} {es : List Event}

/-- An arrival is told as a birth, and a child's also as a mutation. -/
theorem census (h : w.Arrives seed c es) : ∀ e ∈ es, e.Census := by
  intro e he
  -- a birth is told, and after it at most a mutation
  cases h with
  | fresh =>
    rw [List.mem_singleton.mp he]
    trivial
  | @child _ _ o =>
    rcases List.mem_cons.mp he with rfl | hmutation
    · trivial
    · obtain ⟨op, -, rfl⟩ := Option.map_eq_some_iff.mp (Option.mem_toList.mp hmutation)
      trivial

/-- Whoever arrives has the body that its seed was put into. -/
theorem body_eq (h : w.Arrives seed c es) : c.body = seed.body w.enclosure := by
  cases h with
  | fresh _ hnewborn => exact hnewborn.body_eq
  | child _ _ _ _ _ hnewborn => exact hnewborn.body_eq

/-- And it is at the beginning of its program. -/
theorem seated (h : w.Arrives seed c es) : c.Seated := by
  cases h with
  | fresh _ hnewborn => exact ⟨hnewborn.seated.cursor_lt, hnewborn.seated.pending_none⟩
  | child _ _ _ _ _ hnewborn => exact hnewborn.seated

/-- Among creatures whose programs are executable, the program of one that arrives is executable. -/
theorem executable (h : w.Arrives seed c es)
    (hall : ∀ rank d, w.creatures.get? rank = some d → d.program.Executable) :
    c.program.Executable := by
  cases h with
  | fresh hprogram hnewborn =>
    show Program.Executable _
    rw [hnewborn.program_eq]
    exact hprogram
  | child hparent _ _ hreproduced _ hnewborn =>
    rw [hnewborn.program_eq]
    exact hreproduced.executable (hall _ _ hparent)

end Arrives

/-- A property that life keeps, and that whoever arrives has if all the living have it. -/
structure Vital (E : Type) [Physics E] (P : Creature → Prop) : Prop where
  lives   : ∀ c d, c.Lives d → P c → P d
  arrives : ∀ (w : World E) seed c es, Arrives w seed c es → w.All P → P c

/-! ## What the spawning and removing of single things did -/

/-- A pellet is put in with a body of its own, an identity that was drawn, and the next rank. -/
theorem spawnPellet_inv {w w' : World E} {place : Vec} {pellet : Pellet}
    (h : w.spawnPellet place = .ok (pellet, w')) :
    ∃ source, pellet.body = (Physics.addBody w.enclosure Pellet.radius place .food).1 ∧ pellet.position = place ∧
      w' = { w with
        enclosure    := (Physics.addBody w.enclosure Pellet.radius place .food).2
        source
        lastRank     := w.lastRank + 1
        pellets      := w.pellets.insert ⟨w.lastRank + 1⟩ pellet
        pelletOfBody := w.pelletOfBody.insert pellet.body ⟨w.lastRank + 1⟩ } := by
  obtain ⟨⟨id, w₁⟩, hdraw, hpure⟩ := except_bind_inv h
  obtain ⟨⟨id', source⟩, -, hdrawn⟩ := except_bind_inv hdraw
  cases hdrawn
  cases hpure
  exact ⟨source, rfl, rfl, rfl⟩

/-- A creature is taken out of its table, of both indices and of the engine. -/
theorem removeCreature_inv {w w' : World E} {rank : Rank} {c : Creature}
    (h : w.removeCreature rank = some (c, w')) :
    w.creatures.get? rank = some c ∧
      w' = { w with
        creatures      := w.creatures.erase rank
        creatureOfBody := w.creatureOfBody.erase c.body
        creatureOfId   := w.creatureOfId.erase c.id
        enclosure      := Physics.removeBody w.enclosure c.body } := by
  obtain ⟨d, hget, hd⟩ := Option.map_eq_some_iff.mp h
  cases hd
  exact ⟨hget, rfl⟩

/-- A pellet is taken out of its table, of its index and of the engine. -/
theorem removePellet_inv {w w' : World E} {rank : Rank} {p : Pellet}
    (h : w.removePellet rank = some (p, w')) :
    w.pellets.get? rank = some p ∧
      w' = { w with
        pellets      := w.pellets.erase rank
        pelletOfBody := w.pelletOfBody.erase p.body
        enclosure    := Physics.removeBody w.enclosure p.body } := by
  obtain ⟨q, hget, hq⟩ := Option.map_eq_some_iff.mp h
  cases hq
  exact ⟨hget, rfl⟩

/-! ## Changes and courses -/

variable [LawfulPhysics E]

/-- A quiet change leaves everybody alive. -/
theorem Quiet.retains {w w' : World E} (h : Quiet w w') : Retains w w' := ⟨h.keys_eq, h.lives⟩

/-- One change of the world, and the events that it raises. -/
inductive Change (w : World E) : List Event → World E → Prop
  | quiet {w' : World E} (h : w.Quiet w') : Change w [] w'
  | struck {actor target : Rank} {attacker victim : Creature} {w' : World E}
      (hattacker : w.creatures.get? actor = some attacker)
      (hvictim : w.creatures.get? target = some victim) (h : w.Quiet w') :
      Change w [.attack attacker.id victim.id w.tick] w'
  | pellet {place : Vec} {pellet : Pellet} {w' : World E}
      (h : w.spawnPellet place = .ok (pellet, w')) : Change w [] w'
  | eaten {rank food : Rank} {eater : Creature} {pellet : Pellet} {w₁ w' : World E}
      (heater : w.creatures.get? rank = some eater)
      (hremoved : w.removePellet food = some (pellet, w₁)) (h : w₁.Quiet w') :
      Change w [.foodEaten eater.id pellet.id w.tick] w'
  | died {rank : Rank} {c : Creature} {w' : World E} (hstarved : c.isStarved = true)
      (hremoved : w.removeCreature rank = some (c, w')) :
      Change w [.death c.id (c.age w.tick) w.tick] w'
  | born {seed : Seed} {c : Creature} {es : List Event} {w₁ : World E} (harrives : w.Arrives seed c es)
      (h : Quiet { w with enclosure := seed.bodied w.enclosure } w₁) :
      Change w es (w₁.spawnCreature c)

/-- Changes one after the other, and all the events that they raise. -/
inductive Course (w : World E) : List Event → World E → Prop
  | refl : Course w [] w
  | step {w' w'' : World E} {es fs : List Event} (h : Course w es w') (hchange : w'.Change fs w'') :
      Course w (es ++ fs) w''

namespace Course

/-- One change is a course. -/
theorem single {w w' : World E} {es : List Event} (h : w.Change es w') : w.Course es w' :=
  .step .refl h

/-- One course goes on where another ends, and so do their events. -/
theorem trans {w w' w'' : World E} {es fs : List Event} (h : w.Course es w') (h' : w'.Course fs w'') :
    w.Course (es ++ fs) w'' := by
  induction h' with
  | refl =>
    rw [List.append_nil]
    exact h
  | step _ hchange ih =>
    rw [← List.append_assoc]
    exact .step ih hchange

/-- A quiet change is a course that nothing is told of. -/
theorem quiet {w w' : World E} (h : w.Quiet w') : w.Course [] w' := .single (.quiet h)

end Course

/-- Whoever is alive after a quiet change was alive before it. -/
theorem Quiet.lived {w w' : World E} (h : w.Quiet w') {rank : Rank} {d : Creature}
    (hd : w'.creatures.get? rank = some d) : ∃ c, w.creatures.get? rank = some c ∧ c.Lives d := by
  have hmem : rank ∈ w.creatures.keys := h.keys_eq ▸ Table.mem_keys_of_get? hd
  cases hget : w.creatures.get? rank with
  | none => exact absurd hmem (Table.get?_eq_none_iff.mp hget)
  | some c =>
    obtain ⟨c', hc', hlives⟩ := h.lives rank c hget
    rw [hd, Option.some.injEq] at hc'
    exact ⟨c, rfl, hc' ▸ hlives⟩

/-- **Whoever is alive after a change** was alive before it, under the same rank, or has just arrived, under a
new one. -/
theorem Change.origin {w w' : World E} {es : List Event} (h : w.Change es w') {rank : Rank} {d : Creature}
    (hd : w'.creatures.get? rank = some d) :
    (∃ c, w.creatures.get? rank = some c ∧ c.Lives d) ∨
      ∃ seed, w.Arrives seed d es ∧ w.lastRank < rank.number := by
  -- only a death takes a rank out of the table, and only a birth puts one in
  cases h with
  | quiet hquiet => exact .inl (hquiet.lived hd)
  | struck _ _ hquiet => exact .inl (hquiet.lived hd)
  | pellet hspawn =>
    obtain ⟨source, -, -, rfl⟩ := spawnPellet_inv hspawn
    exact .inl ⟨d, hd, .refl d⟩
  | eaten _ hremoved hquiet =>
    obtain ⟨-, rfl⟩ := removePellet_inv hremoved
    exact .inl (hquiet.lived hd)
  | died _ hremoved =>
    obtain ⟨-, rfl⟩ := removeCreature_inv hremoved
    change (w.creatures.erase _).get? rank = some d at hd
    rw [Table.get?_erase] at hd
    split at hd
    · cases hd
    · exact .inl ⟨d, hd, .refl d⟩
  | @born seed c _ w₁ harrives hquiet =>
    change (w₁.creatures.insert _ c).get? rank = some d at hd
    rw [Table.get?_insert] at hd
    split at hd
    · rename_i heq
      cases hd
      have hlast : w₁.lastRank = w.lastRank := hquiet.lastRank_eq
      rw [heq, ← hlast]
      exact .inr ⟨seed, harrives, Nat.lt_succ_self _⟩
    · exact .inl (hquiet.lived hd)

/-- Ranks are only ever given out. -/
theorem Change.lastRank_le {w w' : World E} {es : List Event} (h : w.Change es w') :
    w.lastRank ≤ w'.lastRank := by
  -- ranks are given out to newcomers only, and to each the next one
  cases h with
  | quiet hquiet => exact hquiet.lastRank_eq.ge
  | struck _ _ hquiet => exact hquiet.lastRank_eq.ge
  | pellet hspawn =>
    obtain ⟨source, -, -, rfl⟩ := spawnPellet_inv hspawn
    exact Nat.le_succ _
  | eaten _ hremoved hquiet =>
    obtain ⟨-, rfl⟩ := removePellet_inv hremoved
    exact hquiet.lastRank_eq.ge
  | died _ hremoved =>
    obtain ⟨-, rfl⟩ := removeCreature_inv hremoved
    exact Nat.le_refl _
  | born _ hquiet => exact Nat.le_succ_of_le hquiet.lastRank_eq.ge

/-- Along a course no rank is taken back. -/
theorem Course.lastRank_le {w w' : World E} {es : List Event} (h : w.Course es w') :
    w.lastRank ≤ w'.lastRank := by
  induction h with
  | refl => exact Nat.le_refl _
  | step _ hchange ih => exact Nat.le_trans ih hchange.lastRank_le

/-- What life keeps and arrivals have, all the living have after any course of changes. -/
theorem All.course {P : Creature → Prop} (hvital : Vital E P) {w w' : World E} {es : List Event}
    (h : w.All P) (hcourse : w.Course es w') : w'.All P := by
  induction hcourse with
  | refl => exact h
  | step _ hchange ih =>
    intro rank d hd
    rcases hchange.origin hd with ⟨c, hc, hlives⟩ | ⟨seed, harrives, -⟩
    · exact hvital.lives c d hlives (ih rank c hc)
    · exact hvital.arrives _ seed d _ harrives ih

/-- No change touches the configuration, the clock or the events that wait for the next tick. -/
theorem Change.frame {w w' : World E} {es : List Event} (h : w.Change es w') :
    w'.config = w.config ∧ w'.tick = w.tick ∧ w'.pendingEvents = w.pendingEvents := by
  -- none of the six changes writes to the configuration, the clock or the pending events
  cases h with
  | quiet h => exact ⟨h.config_eq, h.tick_eq, h.pendingEvents_eq⟩
  | struck _ _ h => exact ⟨h.config_eq, h.tick_eq, h.pendingEvents_eq⟩
  | pellet h =>
    obtain ⟨source, -, -, rfl⟩ := spawnPellet_inv h
    exact ⟨rfl, rfl, rfl⟩
  | eaten _ hremoved h =>
    obtain ⟨-, rfl⟩ := removePellet_inv hremoved
    exact ⟨h.config_eq, h.tick_eq, h.pendingEvents_eq⟩
  | died _ hremoved =>
    obtain ⟨-, rfl⟩ := removeCreature_inv hremoved
    exact ⟨rfl, rfl, rfl⟩
  | born _ h => exact ⟨h.config_eq, h.tick_eq, h.pendingEvents_eq⟩

/-- Along a course neither the configuration nor the clock changes, nor what is pending. -/
theorem Course.frame {w w' : World E} {es : List Event} (h : w.Course es w') :
    w'.config = w.config ∧ w'.tick = w.tick ∧ w'.pendingEvents = w.pendingEvents := by
  induction h with
  | refl => exact ⟨rfl, rfl, rfl⟩
  | step _ hchange ih =>
    obtain ⟨hconfig, htick, hpending⟩ := hchange.frame
    exact ⟨hconfig.trans ih.1, htick.trans ih.2.1, hpending.trans ih.2.2⟩

end World

end Vivarium
