import Vivarium.Proofs.Evolution.Alterations
import Vivarium.Proofs.World.Requests
import Vivarium.Proofs.World.Timeline

/-!
# What a mutation event tells

A replication tells of a mutation just where an operator was selected, and names that operator. Whether the
child then differs from its parent is up to the operator: those that change the length always make a
difference, while the one that draws genes anew and the one that modifies traits may have made none. So the
event tells that an operator was run, and not that anything came of it.

Main result: `mutation_events_tell_operators`.
-/

namespace Vivarium

/-- The child's program, the identities of the genes apart, or its traits are not those of the parent. -/
def Creature.DiffersFrom (child parent : Creature) : Prop :=
  ¬ child.program.Alike parent.program ∨ child.traits ≠ parent.traits

instance (child parent : Creature) : Decidable (child.DiffersFrom parent) := inferInstanceAs (Decidable (_ ∨ _))

/-! ## The birth behind a replication -/

variable {E : Type} [Physics E]

/-- A child that was made comes from a reproduction that has returned, and its lineage could be counted on. -/
theorem Birth.child_inv {parent : Creature} {place : Vec} {tick : Nat} {config : Config} {e : E}
    {s s' : Source} {made : Birth × E}
    (h : (child parent place tick config e).run.run s = .ok (.ok made, s')) :
    ∃ o source lineage, (parent.program.evolve parent.traits config.evolution).run.run s = .ok (.ok o, source) ∧
      childLineage parent o.mutated = .ok lineage ∧
      made.1 = { creature := made.1.creature, mutated := o.mutated, operator := o.operator } ∧
      made.1.creature.Newborn (childSeed place config o lineage) tick e := by
  -- the program first, then the lineage, and the body last
  obtain ⟨o, source, hevolve, h⟩ := Build.bind_inv h
  obtain ⟨lineage, s₁, hlift, h⟩ := Build.bind_inv h
  obtain ⟨_, hvalue, hrun⟩ := Build.lift_inv hlift
  cases hvalue
  obtain ⟨lineage', hlineage, hcounted⟩ := except_bind_inv hrun
  cases hcounted
  obtain ⟨⟨c, e'⟩, s₂, hlift, hpure⟩ := Build.bind_inv h
  obtain ⟨_, hvalue, hembody⟩ := Build.lift_inv hlift
  cases hvalue
  cases hpure
  obtain ⟨hnewborn, -⟩ := (childSeed place config o lineage).embody_ensures tick e _ _ _ hembody
  exact ⟨o, source, lineage, hevolve, hlineage, rfl, hnewborn⟩

variable [LawfulPhysics E]

/-- **A replication that has returned changes nothing, or delivers a child** once it is paid for: the child of
a reproduction of the parent's program, and of the next generation. -/
theorem Stage.replicate_inv {s s' : Stage E} {rank : Rank} (hrun : s.replicate rank = .ok s') :
    s' = s ∨ ∃ parent o tr source child paid, s.world.creatures.get? rank = some parent ∧
      (parent.program.evolveTraced parent.traits s.world.config.evolution).run.run s.world.source =
        .ok (.ok (o, tr), source) ∧
      Reproduced parent.program parent.traits s.world.config.evolution o tr ∧
      child.program = o.program ∧ child.traits = o.traits ∧
      child.lineage.generation = parent.lineage.generation + 1 ∧
      paid.tick = s.world.tick ∧ paid.lastRank = s.world.lastRank ∧
      s' = s.deliver parent ⟨child, o.mutated, o.operator⟩ paid := by
  rw [replicate_eq] at hrun
  cases hparent : s.world.creatures.get? rank with
  | none =>
    rw [hparent] at hrun
    cases hrun
    exact .inl rfl
  | some parent =>
    rw [hparent] at hrun
    dsimp only at hrun
    split at hrun
    · cases hrun
      exact .inl rfl
    · obtain ⟨⟨⟨birth, enclosure⟩, world⟩, hbuild, hpure⟩ := except_bind_inv hrun
      cases hpure
      obtain ⟨source, hchild, rfl⟩ := World.build_inv hbuild
      obtain ⟨o, source', lineage, hevolve, hlineage, hbirth, hnewborn⟩ := Birth.child_inv hchild
      obtain ⟨tr, htraced, hreproduced⟩ := Program.evolve_traced hevolve
      have hgeneration : birth.creature.lineage.generation = parent.lineage.generation + 1 := by
        rw [hnewborn.lineage_eq]
        exact congrArg Lineage.generation (Birth.childLineage_inv hlineage)
      -- the parent pays with its mass, which the clock and the ranks do not notice
      have hpaid := World.Quiet.setMass { s.world with source, enclosure } rank
        (parent.mass - birth.creature.mass)
      rw [hbirth]
      exact .inr ⟨parent, o, tr, source', birth.creature, _, rfl, htraced, hreproduced, hnewborn.program_eq,
        hnewborn.traits_eq, hgeneration, hpaid.tick_eq, hpaid.lastRank_eq, rfl⟩

/-! ## Mutation events -/

/-- Where an operator that keeps the kinds of genes in order has made a difference. -/
structure Creature.DiffersBy (child parent : Creature) (op : MutationOperator) (tr : Trace) : Prop where
  /-- Some gene that was touched came out different. -/
  redrawn  : op = .mutateMemory → (child.DiffersFrom parent ↔ ∃ (k : Nat) (c g : Gene),
    child.program.genes[k]? = some c ∧ parent.program.genes[k]? = some g ∧ tr.Touched g k ∧ ¬ c.Alike g)
  /-- The traits came out different. -/
  modified : op = .modifyTraits → (child.DiffersFrom parent ↔ child.traits ≠ parent.traits)

section

variable {child parent : Creature} {config : EvolutionConfig} {o : Offspring} {tr : Trace} {op : MutationOperator}

theorem Reproduced.differsFrom (h : Reproduced parent.program parent.traits config o tr)
    (hop : o.operator = some op) (hprogram : child.program = o.program) (hresizes : op.Resizes) :
    child.DiffersFrom parent := by
  refine .inl fun halike => h.length_ne hop hresizes ?_
  rw [← hprogram]
  exact halike.length_eq

theorem Reproduced.differsBy (h : Reproduced parent.program parent.traits config o tr)
    (hop : o.operator = some op) (hprogram : child.program = o.program) (htraits : child.traits = o.traits)
    (hinherits : config.recloneMemory = false) (hdistinct : tr.Distinct) (hparent : parent.program.Executable) :
    child.DiffersBy parent op tr := by
  have hiff (hkeeps : ¬ op.Resizes) := h.not_alike_iff hop hkeeps hinherits hdistinct hparent
  rw [← hprogram] at hiff
  constructor
  -- the traits are handed on, so the programs decide
  · rintro rfl
    have hkept : child.traits = parent.traits := by
      rw [htraits]
      exact h.becomes.eq (by rw [hop]; nofun)
    rw [← hiff nofun]
    exact or_iff_left fun hne => hne hkept
  -- no gene is touched, so the programs are alike
  · rintro rfl
    refine or_iff_right ?_
    rw [hiff nofun]
    rintro ⟨k, c, g, -, -, htouched, -⟩
    exact h.not_touched hop g k htouched

end

/-- **A mutation event tells that an operator was run.** At every moment of every run, in the middle of a tick
too, on whatever source and whatever is in view and has been told: a replication that tells of a mutation tells
of a birth and of this one mutation, whose name is that of the operator that the reproduction of the parent's
program has run. If genes were copied, brought in or cut out, the child differs from its parent. Otherwise its
genes are of the same kinds. Then, where memory is inherited, the drawn identities are distinct and all guests
had executable programs, the child differs just where a gene that was touched, or the traits, came out
different. -/
theorem mutation_events_tell_operators {config : Config} {enclosure : E} {entropy : BitVec 256}
    {calls : List Call} {w : World E} {given : Source} {s s' : Stage E} {rank : Rank} {told : List Event}
    {id : Ident} {name : String} {tick : Nat}
    (hw : w ∈ History.timeline config enclosure entropy calls)
    (hs : s.world = { w with source := given }) (hrun : s.replicate rank = .ok s')
    (hevents : s'.events = s.events ++ told) (htold : .mutation id name tick ∈ told) :
    ∃ parent child o tr source op,
      s.world.creatures.get? rank = some parent ∧
      (parent.program.evolveTraced parent.traits s.world.config.evolution).run.run s.world.source =
        .ok (.ok (o, tr), source) ∧
      o.operator = some op ∧
      s'.world.creatures.get? ⟨s.world.lastRank + 1⟩ = some child ∧
      child.program = o.program ∧ child.traits = o.traits ∧
      told = [.birth child.id (some parent.id) (parent.lineage.generation + 1) s.world.tick,
        .mutation child.id op.name s.world.tick] ∧
      parent.traits.Becomes (some op) child.traits ∧
      (op.Resizes → child.DiffersFrom parent) ∧
      (¬ op.Resizes → child.program.indices = parent.program.indices) ∧
      ((∀ seed, .insertCreature seed ∈ calls → seed.program.Executable) →
        s.world.config.evolution.recloneMemory = false → tr.Distinct → child.DiffersBy parent op tr) := by
  obtain rfl | ⟨parent, o, tr, source, child, paid, hparent, htraced, hreproduced, hprogram, htraits, hgeneration,
    htick, hlast, rfl⟩ := Stage.replicate_inv hrun
  -- where nothing is changed nothing is told
  · rw [List.self_eq_append_right.mp hevents] at htold
    cases htold
  have hsame := hevents.symm.trans (Stage.deliver_events s parent ⟨child, o.mutated, o.operator⟩ paid)
  rw [List.append_cancel_left_eq] at hsame
  change told = .birth child.id (some parent.id) child.lineage.generation paid.tick ::
    (o.operator.map fun op => .mutation child.id op.name paid.tick).toList at hsame
  rw [hgeneration, htick] at hsame
  have hborn : (s.deliver parent ⟨child, o.mutated, o.operator⟩ paid).world.creatures.get?
      ⟨s.world.lastRank + 1⟩ = some child := by
    rw [Stage.deliver_world, ← hlast]
    show (paid.creatures.insert ⟨paid.lastRank + 1⟩ child).get? _ = _
    rw [Table.get?_insert, if_pos rfl]
  cases hop : o.operator with
  -- without an operator only the birth would have been told
  | none =>
    rw [hsame, hop] at htold
    simp at htold
  | some op =>
    rw [hop] at hsame hborn
    have hbecomes := hreproduced.becomes
    rw [hop, ← htraits] at hbecomes
    refine ⟨parent, child, o, tr, source, op, hparent, htraced, hop, hborn, hprogram, htraits, hsame,
      hbecomes, hreproduced.differsFrom hop hprogram, fun hkeeps => ?_, fun hguests hinherits hdistinct => ?_⟩
    · rw [hprogram]
      exact hreproduced.indices_eq hop hkeeps
    · have hexecutable : parent.program.Executable := by
        rw [hs] at hparent
        exact History.timeline_lasting executable_vital.lasting nofun
          (fun seed hseed => World.welcomes_all fun _ _ (_ : E) hnewborn =>
            hnewborn.program_eq ▸ hguests seed hseed)
          w hw rank parent hparent
      exact hreproduced.differsBy hop hprogram htraits hinherits hdistinct hexecutable

/-- Nothing to eat, heavy founders, and children that inherit the memory of their parent. -/
def Config.inheriting (founders seed : Nat) : Config where
  world     := { seed := some seed, populationFloor := founders, freshSpawnMass := 400.0 }
  food      := { maxFood := 0.0, maxFoodEarly := 0.0 }
  evolution := { recloneMemory := false }

/-- All jumps of pacers lead inside. -/
theorem Program.pacing_executable : Program.pacing.Executable := by
  intro g hg
  obtain ⟨i, -, rfl⟩ := List.mem_map.mp hg
  split
  · refine ⟨⟨rfl, rfl⟩, fun goal hgoal => ?_⟩
    cases hgoal
    exact Nat.mod_lt _ (by decide)
  · exact ⟨⟨rfl, rfl⟩, nofun⟩

/-- A heavy guest, every other gene of whose program is a jump. -/
def Seed.pacer : Seed where
  program  := .pacing
  position := ⟨100.0, 100.0⟩
  mass     := 400.0

/-- Right after it was put in, a guest has a child whose memory is drawn anew in part: some gene that was touched
came out different, and a mutation is told. -/
theorem mutation_events_tell_operators_pacing :
    ∃ h s' parent child o tr source,
      History.run (.inheriting 0 4) (Enclosure.empty 1280.0 720.0) 0 [.insertCreature .pacer] = .ok h ∧
      h.world ∈ History.timeline (.inheriting 0 4) (Enclosure.empty 1280.0 720.0) 0 [.insertCreature .pacer] ∧
      (Stage.start h.world []).world = { h.world with source := h.world.source } ∧
      (Stage.start h.world []).replicate ⟨1⟩ = .ok s' ∧
      s'.events = (Stage.start h.world []).events ++ s'.events ∧
      .mutation child.id MutationOperator.mutateMemory.name 0 ∈ s'.events ∧
      h.world.creatures.get? ⟨1⟩ = some parent ∧ s'.world.creatures.get? ⟨2⟩ = some child ∧
      (parent.program.evolveTraced parent.traits h.world.config.evolution).run.run h.world.source =
        .ok (.ok (o, tr), source) ∧
      child.program = o.program ∧ child.traits = parent.traits ∧ tr.Distinct ∧ child.DiffersFrom parent ∧
      ∃ (k : Nat) (c g : Gene), child.program.genes[k]? = some c ∧ parent.program.genes[k]? = some g ∧
        tr.Touched g k ∧ ¬ c.Alike g := by
  have hcheck : (History.run (.inheriting 0 4) (Enclosure.empty 1280.0 720.0) 0
      [.insertCreature .pacer]).toOption.any (fun h =>
        ((Stage.start h.world []).replicate ⟨1⟩).toOption.any fun s' =>
          (h.world.creatures.get? ⟨1⟩).any fun parent => (s'.world.creatures.get? ⟨2⟩).any fun child =>
            ((parent.program.evolveTraced parent.traits h.world.config.evolution).run.run
              h.world.source).toOption.any fun returned => returned.1.toOption.any fun made =>
                decide (made.1.operator = some .mutateMemory ∧ h.world.config.evolution.recloneMemory = false ∧
                  h.world.lastRank = 1 ∧ made.2.Distinct ∧ child.DiffersFrom parent ∧
                  .mutation child.id MutationOperator.mutateMemory.name 0 ∈ s'.events)) = true := by
    decide +kernel
  obtain ⟨h, hrun, hcheck⟩ := except_any_inv hcheck
  obtain ⟨s', hreplicate, hcheck⟩ := except_any_inv hcheck
  obtain ⟨parent, hparent, hcheck⟩ := (Option.any_eq_true _ _).mp hcheck
  obtain ⟨child, hchild, hcheck⟩ := (Option.any_eq_true _ _).mp hcheck
  obtain ⟨⟨x, source⟩, htraced, hcheck⟩ := except_any_inv hcheck
  obtain ⟨⟨o, tr⟩, rfl, hcheck⟩ := except_any_inv hcheck
  obtain ⟨hoperator, hinherits, hlast, hdistinct, hdiffers, htold⟩ := of_decide_eq_true hcheck
  have hmoment := History.world_mem_timeline hrun []
  have hstage : (Stage.start h.world []).world = { h.world with source := h.world.source } := rfl
  have hevents : s'.events = (Stage.start h.world []).events ++ s'.events := rfl
  obtain ⟨parent', child', o', tr', source', op, hparent', htraced', hop, hchild', hprogram, -, -, hbecomes, -, -,
    hwhere⟩ := mutation_events_tell_operators hmoment hstage hreplicate hevents htold
  -- the replication is the one that was looked at
  change h.world.creatures.get? ⟨1⟩ = some parent' at hparent'
  rw [hparent, Option.some.injEq] at hparent'
  subst hparent'
  change (parent.program.evolveTraced parent.traits h.world.config.evolution).run.run h.world.source = _ at htraced'
  rw [htraced] at htraced'
  cases htraced'
  change s'.world.creatures.get? ⟨h.world.lastRank + 1⟩ = some child' at hchild'
  rw [hlast, hchild, Option.some.injEq] at hchild'
  subst hchild'
  rw [hoperator, Option.some.injEq] at hop
  subst hop
  have hguests : ∀ seed, .insertCreature seed ∈ [Call.insertCreature .pacer] → seed.program.Executable := by
    intro seed hseed
    obtain rfl : seed = .pacer := by simpa using hseed
    exact Program.pacing_executable
  have hplaces := (hwhere hguests hinherits hdistinct).redrawn rfl
  exact ⟨h, s', parent, child, o, tr, source, hrun, hmoment, hstage, hreplicate, hevents, htold, hparent, hchild,
    htraced, hprogram, hbecomes, hdistinct, hdiffers, hplaces.mp hdiffers⟩

/-- **A mutation event need not mean a change.** In the first tick of this run a founder has a child; the
operator that draws genes anew is told of, but the child has its parent's program and traits. -/
theorem mutation_told_without_difference :
    ∃ h parent child,
      History.run (.inheriting 1 64) (Enclosure.empty 1280.0 720.0) 0 [.tick .update] = .ok h ∧
      .mutation child.id MutationOperator.mutateMemory.name 1 ∈ h.log ∧
      h.world.creatures.get? ⟨1⟩ = some parent ∧ h.world.creatures.get? ⟨2⟩ = some child ∧
      child.lineage.parentId = some parent.id ∧ ¬ child.DiffersFrom parent := by
  -- the operator is told in the log, and the child is the same as its parent
  have hcheck : (History.run (.inheriting 1 64) (Enclosure.empty 1280.0 720.0) 0
    [.tick .update]).toOption.any (fun h =>
      (h.world.creatures.get? ⟨1⟩).any fun parent => (h.world.creatures.get? ⟨2⟩).any fun child =>
        decide (.mutation child.id MutationOperator.mutateMemory.name 1 ∈ h.log ∧
          child.lineage.parentId = some parent.id ∧ ¬ child.DiffersFrom parent)) = true := by
    decide +kernel
  obtain ⟨h, hrun, hcheck⟩ := except_any_inv hcheck
  obtain ⟨parent, hparent, hcheck⟩ := (Option.any_eq_true _ _).mp hcheck
  obtain ⟨child, hchild, hcheck⟩ := (Option.any_eq_true _ _).mp hcheck
  obtain ⟨htold, hkin, hsame⟩ := of_decide_eq_true hcheck
  exact ⟨h, parent, child, hrun, htold, hparent, hchild, hkin, hsame⟩

end Vivarium
