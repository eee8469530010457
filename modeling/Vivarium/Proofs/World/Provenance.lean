import Vivarium.Proofs.World.History

/-!
# Where the living come from

A creature comes into the world fresh or as a child. What is fresh is of the first generation, has the
default traits and a program of the default length, drawn from the part of the catalog that first programs
are drawn from. A child is of the generation after its parent's and counts one mutation more at most. Nobody
but a parent tells of a birth in its turn, so within the turns only children appear, and the fresh ones are
looked at where they are spawned.

Main result: `origins_of_the_living`.
-/

namespace Vivarium

/-! ## First programs -/

/-- The catalog lets the gene into first programs. -/
def Gene.IsFirst (g : Gene) : Prop :=
  ∃ rule, Catalog.rules[g.index]? = some rule ∧ rule.firstGeneration = true

/-- The program of a creature without a parent. -/
structure Program.IsFirst (p : Program) : Prop where
  length_eq : p.length = defaultLength
  genes     : ∀ g ∈ p.genes, g.IsFirst

namespace Catalog

theorem drawGene_yields (index len : Nat) : (drawGene index len).Yields (·.index = index) := by
  unfold drawGene
  exact .bind .any fun rule _ => .bind .any fun i _ => .bind .any fun id _ => .pure rfl

/-- What is drawn for a first program belongs into one. -/
theorem drawAnyGene_isFirst (len : Nat) : (drawAnyGene true len).Yields Gene.IsFirst := by
  unfold drawAnyGene
  refine .bind (.lift (Draw.position_lt _)) fun i (hi : i < firstGeneration.length) => ?_
  refine (drawGene_yields _ len).mono fun g hg => ?_
  -- the draw falls on one of the kinds that are marked, as a look at each of them shows
  have hall : ∀ k ∈ firstGeneration,
      (rules[k]?).any (·.firstGeneration) = true := by decide
  have hkind : firstGeneration.getD i 0 ∈ firstGeneration := by
    rw [List.getD_eq_getElem _ _ hi]
    exact List.getElem_mem hi
  unfold Gene.IsFirst
  rw [hg]
  exact (Option.any_eq_true _ _).mp (hall _ hkind)

end Catalog

/-- A first program is drawn gene by gene, one for each number below the default length. -/
theorem Program.random_isFirst : (Program.random true Program.defaultLength).Yields Program.IsFirst := by
  unfold Program.random
  -- all genes of a random program are drawn from the catalog of the first generation
  refine .bind (Build.Ensures.yields (.mapM fun _ _ =>
    (Catalog.drawAnyGene_ensures true _).and_yields (Catalog.drawAnyGene_isFirst _))) fun genes hgenes => ?_
  refine (Program.ofDrawn_yields genes).mono fun p hp => ⟨?_, fun g hg => ?_⟩
  · rw [Program.length, hp, ← hgenes.length_eq, List.length_range]
  · rw [hp] at hg
    obtain ⟨_, -, -, hfirst⟩ := forall₂_mem_right hgenes hg
    exact hfirst

/-! ## Founders and their descendants -/

/-- A creature without a parent, as it is when it appears and for life. -/
structure Creature.Founding (c : Creature) : Prop where
  generation_eq : c.lineage.generation = 1
  mutations_eq  : c.lineage.mutations = 0
  traits_eq     : c.traits = {}
  isFirst       : c.program.IsFirst

/-- The creature is a founder or a descendant, and was born by the given tick. -/
structure Creature.Sourced (tick : Nat) (c : Creature) : Prop where
  founding     : c.lineage.parentId = none → c.Founding
  descended    : ∀ parent, c.lineage.parentId = some parent →
    2 ≤ c.lineage.generation ∧ c.lineage.mutations ≤ c.lineage.generation - 1
  birthTick_le : c.birthTick ≤ tick

namespace Creature.Sourced

variable {tick : Nat} {c d : Creature}

/-- In every line fewer mutations are counted than generations. -/
theorem mutations_lt (h : c.Sourced tick) : c.lineage.mutations < c.lineage.generation := by
  cases hparent : c.lineage.parentId with
  | none =>
    obtain ⟨hgeneration, hmutations, -, -⟩ := h.founding hparent
    omega
  | some parent =>
    obtain ⟨htwo, hle⟩ := h.descended parent hparent
    omega

theorem same (h : c.Sourced tick) (hsame : c.Same d) : d.Sourced tick where
  -- all of this is said of the lineage, the traits, the program and the tick of birth, which stay
  founding     := by
    rw [hsame.lineage_eq]
    intro hnone
    obtain ⟨hgeneration, hmutations, htraits, hfirst⟩ := h.founding hnone
    exact ⟨by rw [hsame.lineage_eq, hgeneration], by rw [hsame.lineage_eq, hmutations],
      by rw [hsame.traits_eq, htraits], by rwa [hsame.program_eq]⟩
  descended    := by
    rw [hsame.lineage_eq]
    exact h.descended
  birthTick_le := by
    rw [hsame.birthTick_eq]
    exact h.birthTick_le

/-- A founder that appears now. -/
theorem of_founding (hfounding : c.Founding) (hparent : c.lineage.parentId = none)
    (hbirth : c.birthTick = tick) : c.Sourced tick where
  founding     := fun _ => hfounding
  descended    := fun parent hsome => by
    rw [hparent] at hsome
    cases hsome
  birthTick_le := hbirth.le

/-- A child that is born now. -/
theorem of_parent {parent : Creature} {mutated : Bool} (h : parent.Sourced tick)
    (hlineage : Birth.childLineage parent mutated = .ok c.lineage) (hbirth : c.birthTick = tick) :
    c.Sourced tick := by
  have hparent := h.mutations_lt
  have hone : mutated.toNat ≤ 1 := Bool.toNat_le mutated
  have hchild := Birth.childLineage_inv hlineage
  refine ⟨fun hnone => ?_, fun id _ => ?_, hbirth.le⟩
  · rw [hchild] at hnone
    cases hnone
  · -- one generation is added, and one mutation at most
    rw [hchild]
    show 2 ≤ parent.lineage.generation + 1 ∧
      parent.lineage.mutations + mutated.toNat ≤ parent.lineage.generation + 1 - 1
    omega

end Creature.Sourced

variable {E : Type}

/-- What is born without a parent is a founder. -/
theorem Birth.root_founding [Physics E] (position : Vec) (tick : Nat) (config : Config) (e : E) :
    (root position tick config e).Yields fun (birth, _) => birth.creature.Founding := by
  unfold root
  refine .bind Program.random_isFirst fun program hprogram => ?_
  refine .bind (.lift (Seed.embody_ensures _ _ _)) fun (c, e') ⟨hnewborn, _⟩ => .pure ?_
  have hlineage : c.lineage = {} := hnewborn.lineage_eq
  refine ⟨by rw [hlineage], by rw [hlineage], hnewborn.traits_eq, ?_⟩
  rw [hnewborn.program_eq]
  exact hprogram

/-! ## Turns -/

/-- No part of a turn tells of a birth without a parent. -/
theorem Stage.Step.parented [Physics E] [LawfulPhysics E] {s s' : Stage E} (h : s.Step s') {es : List Event}
    (hevents : s'.events = s.events ++ es) (id : Ident) (generation tick : Nat) :
    Event.birth id none generation tick ∉ es := by
  have hnothing (hsame : s.events = s.events ++ es) : Event.birth id none generation tick ∉ es := by
    rw [List.self_eq_append_right.mp hsame]
    exact List.not_mem_nil
  -- by what the part told: nothing, an attack, a meal, a death, or a birth that names the parent
  cases h with
  | quiet _ => exact hnothing hevents
  | struck _ _ _ =>
    rw [← List.append_cancel_left hevents]
    simp
  | eaten _ _ _ =>
    rw [← List.append_cancel_left hevents]
    simp
  | died _ =>
    unfold Stage.kill at hevents
    split at hevents
    · exact hnothing hevents
    · rw [← List.append_cancel_left hevents]
      simp
  | @born parent birth _ _ _ _ =>
    rw [deliver_events] at hevents
    rw [← List.append_cancel_left hevents]
    simp [birthEvents]

namespace World

/-- All the living have their origin. -/
def Sourced (w : World E) : Prop := w.All (·.Sourced w.tick)

variable {w w' : World E}

namespace Sourced

/-- Where nobody came and nobody left, only the clock may have been counted. -/
theorem of_creatures_eq (h : w.Sourced) (hcreatures : w'.creatures = w.creatures)
    (htick : w.tick ≤ w'.tick) : w'.Sourced := by
  intro rank c hc
  rw [hcreatures] at hc
  obtain ⟨hfounding, hdescended, hbirth⟩ := h rank c hc
  exact ⟨hfounding, hdescended, hbirth.trans htick⟩

theorem spawnCreature (h : w.Sourced) {c : Creature} (hc : c.Sourced w.tick) :
    (w.spawnCreature c).Sourced := by
  intro rank d hd
  change (w.creatures.insert _ c).get? rank = some d at hd
  rw [Table.get?_insert] at hd
  split at hd
  · cases hd
    exact hc
  · exact h rank d hd

end Sourced

variable [Physics E]

/-- Whoever arrives by a birth that names a parent is the child of somebody alive. -/
theorem Arrives.sourced {seed : Seed} {c : Creature} {es : List Event} (h : w.Arrives seed c es)
    (hall : w.Sourced)
    (hparented : ∀ id generation tick, Event.birth id none generation tick ∉ es) : c.Sourced w.tick := by
  -- a fresh creature would have been told of without a parent
  cases h with
  | fresh _ _ => exact absurd List.mem_cons_self (hparented _ _ _)
  | @child rank parent _ _ lineage _ hparent _ _ _ hlineage hnewborn =>
    have hline : lineage = c.lineage := hnewborn.lineage_eq.symm
    exact (hall rank parent hparent).of_parent (hline ▸ hlineage) hnewborn.birthTick_eq

namespace Sourced

variable [LawfulPhysics E]

theorem step {s s' : Stage E} (h : s.world.Sourced) (hstep : s.Step s') : s'.world.Sourced := by
  rcases hstep.change with rfl | ⟨es, hchange, hevents⟩
  · exact h
  intro rank d hd
  rw [hchange.frame.2.1]
  rcases hchange.origin hd with ⟨c, hc, hlives⟩ | ⟨seed, harrives, -⟩
  · exact (h rank c hc).same hlives.toSame
  · exact harrives.sourced h (hstep.parented hevents)

/-- Turns bring nobody but children. -/
theorem steps {s s' : Stage E} (h : s.world.Sourced) (hsteps : s.Steps s') : s'.world.Sourced := by
  induction hsteps with
  | refl => exact h
  | tail _ hstep ih => exact ih.step hstep

end Sourced

/-! ## Filling up -/

theorem spawnFresh_sourced (h : w.Sourced) :
    Outcome.Ensures w.spawnFresh fun (_, w') => w'.Sourced := by
  refine (w.spawnFresh_newborn fun place => Birth.root_founding place _ _ _).mono ?_
  rintro ⟨e, w'⟩ ⟨place, program, c, source, -, hnewborn, hfounding, -, rfl⟩
  have hparent : c.lineage.parentId = none := congrArg (·.parentId) hnewborn.lineage_eq
  have hfounder : c.Sourced w.tick := .of_founding hfounding hparent hnewborn.birthTick_eq
  -- only the mass is set after it was made
  have hmass : c.Same { c with mass := w.config.world.freshSpawnMass } := (c.setMass_lives _ w.enclosure).toSame
  exact Sourced.spawnCreature (h.of_creatures_eq rfl le_rfl) (hfounder.same hmass)

theorem spawnMany_sourced (n : Nat) (h : w.Sourced) :
    Outcome.Ensures (w.spawnMany n) fun (_, w') => w'.Sourced :=
  spawnMany_invariant (fun _ => spawnFresh_sourced) n w h

/-! ## Ticks -/

variable [LawfulPhysics E]

/-- **A tick brings founders and children** and nobody else. -/
theorem Sourced.tick (h : w.Sourced) {t : TickCall} {events : List Event}
    (htick : w.tickBy t = .ok (events, w')) : w'.Sourced := by
  obtain ⟨opened, stage, newborn, rest, hstart, hcreatures, hturns, -, hrefill, -⟩ := tickBy_inv htick
  obtain ⟨w₁, hopened, hcourse, -⟩ := (w.openingBy_ensures t).of_ok hstart
  cases hopened
  -- the opening only counts the clock, the turns bring children, and the filling up brings founders
  have hclock : w.tick ≤ opened.tick := hcourse.frame.2.1 ▸ Nat.le_succ w.tick
  have hbefore : opened.Sourced := h.of_creatures_eq hcreatures hclock
  have hafter : stage.world.Sourced := hbefore.steps ((Stage.turns_ensures _ _).of_ok hturns)
  exact (spawnMany_sourced _ hafter).of_ok hrefill

end World

/-! ## Histories -/

variable [Physics E] [LawfulPhysics E]

theorem History.sourced_run {config : Config} {enclosure : E} {entropy : BitVec 256}
    {ticks : List TickCall} {h : History E}
    (hrun : run config enclosure entropy (ticks.map .tick) = .ok h) : h.world.Sourced := by
  -- by induction on the ticks; nobody lives in the bare world that is filled up first
  refine run_induction hrun (P := fun h => h.world.Sourced) (fun w hw => ?_) fun h c h' hc ih hcall => ?_
  · obtain ⟨-, births, w₁, hrefill, rfl⟩ := World.create_refill hw
    have hbare : (World.bare config enclosure entropy).Sourced := fun _ _ hc => by cases hc
    have hfilled : w₁.Sourced := (World.spawnMany_sourced _ hbare).of_ok hrefill
    exact hfilled.of_creatures_eq rfl le_rfl
  · obtain ⟨t, -, rfl⟩ := List.mem_map.mp hc
    obtain ⟨events, w', htick, rfl⟩ := call_tick_inv hcall
    exact ih.tick htick

/-- **Everybody alive is a founder or a descendant.** Whatever configuration a world was set up on and
however it was run, whoever is alive and has no parent is of the first generation, has no mutations and the
default traits, and its program has twenty genes of kinds that the catalog lets into first programs. Whoever
has a parent is of the second generation at least, and counts fewer mutations than generations. Nobody was
born in the future. -/
theorem origins_of_the_living {config : Config} {enclosure : E} {entropy : BitVec 256}
    {ticks : List TickCall} {h : History E} {rank : Rank} {c : Creature}
    (hrun : History.run config enclosure entropy (ticks.map .tick) = .ok h)
    (hc : h.world.creatures.get? rank = some c) :
    (c.lineage.parentId = none →
      c.lineage.generation = 1 ∧ c.lineage.mutations = 0 ∧ c.traits = {} ∧ c.program.length = 20 ∧
        ∀ g ∈ c.program.genes, ∃ rule,
          Catalog.rules[g.index]? = some rule ∧ rule.firstGeneration = true) ∧
    (c.lineage.parentId ≠ none →
      2 ≤ c.lineage.generation ∧ c.lineage.mutations ≤ c.lineage.generation - 1) ∧
    c.birthTick ≤ h.world.tick := by
  obtain ⟨hfounding, hdescended, hbirth⟩ := History.sourced_run hrun rank c hc
  refine ⟨fun hnone => ?_, fun hparent => ?_, hbirth⟩
  · obtain ⟨hgeneration, hmutations, htraits, hlength, hgenes⟩ := hfounding hnone
    exact ⟨hgeneration, hmutations, htraits, hlength, hgenes⟩
  · obtain ⟨parent, hsome⟩ := Option.ne_none_iff_exists'.mp hparent
    exact hdescended parent hsome

/-- A world for one creature, heavy enough to have a child at once. -/
def Config.fertile : Config :=
  { world := { seed := some 4, populationFloor := 1, freshSpawnMass := 400.0 }
    food  := { maxFood := 0.0, maxFoodEarly := 0.0 } }

/-- After one tick the founder and its first child are alive. -/
theorem origins_of_the_living_fertile :
    ∃ h founder child,
      History.run .fertile (Enclosure.empty 1280.0 720.0) 0 ([TickCall.update].map .tick) = .ok h ∧
      h.world.creatures.get? ⟨1⟩ = some founder ∧ founder.lineage.parentId = none ∧
      h.world.creatures.get? ⟨2⟩ = some child ∧ child.lineage.parentId = some founder.id ∧
      founder.lineage.generation = 1 ∧ founder.program.length = 20 ∧
      2 ≤ child.lineage.generation ∧ child.lineage.mutations ≤ child.lineage.generation - 1 ∧
      child.birthTick ≤ h.world.tick := by
  -- who descends from whom is computed, and what follows is taken from the theorem
  have hcheck : (History.run .fertile (Enclosure.empty 1280.0 720.0) 0
      ([TickCall.update].map .tick)).toOption.any (fun h =>
        (h.world.creatures.get? ⟨1⟩).any fun founder => (h.world.creatures.get? ⟨2⟩).any fun child =>
          decide (founder.lineage.parentId = none ∧ child.lineage.parentId = some founder.id)) = true := by
    decide +kernel
  obtain ⟨h, hrun, hcheck⟩ := except_any_inv hcheck
  obtain ⟨founder, hfounder, hcheck⟩ := (Option.any_eq_true _ _).mp hcheck
  obtain ⟨child, hchild, hcheck⟩ := (Option.any_eq_true _ _).mp hcheck
  obtain ⟨hnone, hparent⟩ := of_decide_eq_true hcheck
  obtain ⟨hgeneration, -, -, hlength, -⟩ := (origins_of_the_living hrun hfounder).1 hnone
  obtain ⟨-, hdescended, hbirth⟩ := origins_of_the_living hrun hchild
  obtain ⟨htwo, hle⟩ := hdescended (by rw [hparent]; exact Option.some_ne_none _)
  exact ⟨h, founder, child, hrun, hfounder, hnone, hchild, hparent, hgeneration, hlength, htwo, hle, hbirth⟩

end Vivarium
