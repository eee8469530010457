import Vivarium.Proofs.Evolution.Edit

/-!
# What every drawn gene hands on

A property of instructions that everything drawn from the catalog has, and that does not depend on where a
jump leads, is handed on: if all genes of a program have it, so have all genes of its offspring, whatever
the operator. First programs have it to begin with.

Main results: `Heritable.random`, `Heritable.evolve`.
-/

namespace Vivarium

/-- All instructions drawn from the catalog have the property, and the repair of a jump keeps it. -/
structure Heritable (Q : Instruction → Prop) : Prop where
  drawn    : ∀ index len, (Catalog.drawInstruction index len).Yields Q
  retarget : ∀ i goal, Q i → Q (i.retarget goal)

/-- All genes of a program have the property. -/
def Program.Has (Q : Instruction → Prop) (p : Program) : Prop := ∀ g ∈ p.genes, Q g.instruction

namespace Heritable

variable {Q : Instruction → Prop} (h : Heritable Q)

include h

/-! ## Drawing -/

/-- A gene that is drawn holds an instruction that can be drawn. -/
theorem drawGene (index len : Nat) : (Catalog.drawGene index len).Yields fun g => Q g.instruction := by
  unfold Catalog.drawGene
  refine .bind .any fun rule _ => ?_
  exact .bind (h.drawn index len) fun i hi => .bind .any fun id _ => .pure hi

theorem drawAnyGene (first : Bool) (len : Nat) :
    (Catalog.drawAnyGene first len).Yields fun g => Q g.instruction := by
  unfold Catalog.drawAnyGene
  exact .bind .any fun i _ => h.drawGene _ _

omit h in
/-- A list of such genes makes such a program, or none. -/
theorem ofDrawn {genes : List Gene} (hgenes : ∀ g ∈ genes, Q g.instruction) :
    (Program.ofDrawn genes).Yields (·.Has Q) :=
  (Program.ofDrawn_yields genes).mono fun _ hp g hg => hgenes g (hp ▸ hg)

/-- **A first program has what everything drawn has.** -/
theorem random (first : Bool) (len : Nat) : (Program.random first len).Yields (·.Has Q) := by
  unfold Program.random
  exact .bind (.mapM fun _ _ => h.drawAnyGene first len) fun genes hgenes => ofDrawn hgenes

/-! ## The operators -/

/-- Whether genes are copied or drawn anew, the clone has such genes. -/
theorem cloneGenes {parent : Program} (hparent : parent.Has Q) (reclone : Bool) :
    (parent.cloneGenes reclone).Yields fun genes => ∀ g ∈ genes, Q g.instruction := by
  refine .mapM fun g hg => .ite (fun _ => h.drawGene _ _) fun _ => .lift ?_
  refine g.copy_ensures.mono fun k hk => ?_
  rw [hk.instruction_eq]
  exact hparent g hg

omit h in
/-- To duplicate a segment brings copies of what is there. -/
theorem duplicate {slots : List Slot} (hslots : ∀ s ∈ slots, Q s.gene.instruction) :
    (Slot.duplicate slots).Ensures fun slots' => ∀ s ∈ slots', Q s.gene.instruction := by
  unfold Slot.duplicate
  refine .bind .any fun size _ => .bind .any fun start _ => .bind .any fun i _ => ?_
  -- a copy carries the instruction of the gene that it is made from
  refine .bind (.mapM (R := fun s s' => s'.gene.Alike s.gene) fun s _ => ?_) fun copies hcopies => .pure ?_
  · exact .bind s.gene.copy_ensures fun g hg => .pure hg
  intro s hs
  rcases Tagged.mem_splice.mp hs with hmem | hmem
  · exact hslots s hmem
  · obtain ⟨s', hs', hcopy⟩ := forall₂_mem_right hcopies hmem
    rw [hcopy.instruction_eq]
    exact hslots s' (Tagged.mem_of_mem_run hs')

theorem fresh (len : Nat) : (Slot.fresh len).Yields fun s => Q s.gene.instruction := by
  unfold Slot.fresh
  exact .bind (h.drawAnyGene false len) fun g hg => .pure hg

/-- What is drawn for a new segment has the property as well. -/
theorem freshRun (len : Nat) (continueProb : Float) :
    ∀ room, (Slot.freshRun len continueProb room).Yields fun run => ∀ s ∈ run, Q s.gene.instruction
  | 0 => by
    unfold Slot.freshRun
    exact .bind .any fun _ _ => .pure (by simp)
  | room + 1 => by
    unfold Slot.freshRun
    -- the run ends with this roll, or a fresh slot is followed by the rest of it
    refine .bind .any fun roll _ => .ite (fun _ => ?_) fun _ => .pure (by simp)
    refine .bind (h.fresh len) fun s hs => ?_
    refine .bind (freshRun len continueProb room) fun run hrun => .pure ?_
    exact List.forall_mem_cons.mpr ⟨hs, hrun⟩

/-- So it may be put in. -/
theorem insert {slots : List Slot} (hslots : ∀ s ∈ slots, Q s.gene.instruction) (continueProb : Float) :
    (Slot.insert slots continueProb).Yields fun slots' => ∀ s ∈ slots', Q s.gene.instruction := by
  unfold Slot.insert
  refine .bind .any fun i _ => .bind (h.fresh _) fun first hfirst => ?_
  refine .bind (h.freshRun _ _ _) fun others hothers => .pure fun s hs => ?_
  rcases Tagged.mem_splice.mp hs with hmem | hmem
  · exact hslots s hmem
  · rcases List.mem_cons.mp hmem with rfl | hmem
    · exact hfirst
    · exact hothers s hmem

omit h in
/-- To delete a segment brings nothing. -/
theorem delete {slots : List Slot} (hslots : ∀ s ∈ slots, Q s.gene.instruction) :
    (Slot.delete slots).Ensures fun slots' => ∀ s ∈ slots', Q s.gene.instruction := by
  unfold Slot.delete
  refine .bind .any fun start _ => .bind .any fun size _ => .pure fun s hs => ?_
  rcases List.mem_append.mp hs with hmem | hmem
  · exact hslots s (List.mem_of_mem_take hmem)
  · exact hslots s (List.mem_of_mem_drop hmem)

/-- To redraw operands brings instructions that can be drawn. The induction is on how many may still be redrawn. -/
theorem redraw (continueProb : Float) : ∀ (fuel : Nat) {slots : List Slot},
    (∀ s ∈ slots, Q s.gene.instruction) →
      (Slot.redraw continueProb slots fuel).Yields fun slots' => ∀ s ∈ slots', Q s.gene.instruction
  | 0, _, _ => .fault
  | fuel + 1, slots, hslots => by
    unfold Slot.redraw
    -- what is drawn takes the place of an old gene, and both are as required
    refine .bind .any fun roll _ => .ite (fun _ => ?_) fun _ => .pure hslots
    refine .bind .any fun i _ => .bind (h.drawGene _ _) fun g hg => ?_
    refine redraw continueProb fuel fun s hs => ?_
    rcases List.mem_or_eq_of_mem_set hs with hmem | rfl
    · exact hslots s hmem
    · exact hg

/-- **No operator brings an instruction without the property.** -/
theorem apply (op : MutationOperator) {slots : List Slot} (hslots : ∀ s ∈ slots, Q s.gene.instruction)
    (config : EvolutionConfig) (traits : Traits) :
    (op.apply config slots traits).Yields fun (slots', _) => ∀ s ∈ slots', Q s.gene.instruction := by
  cases op with
  | duplicateSegment => exact .bind (.lift (duplicate hslots)) fun _ hslots' => .pure hslots'
  | insertSegment => exact .bind (h.insert hslots _) fun _ hslots' => .pure hslots'
  | deleteSegment => exact .bind (.lift (delete hslots)) fun _ hslots' => .pure hslots'
  | mutateMemory => exact .bind (h.redraw _ _ hslots) fun _ hslots' => .pure hslots'
  | modifyTraits => exact .bind .any fun _ _ => .pure hslots

/-- The repair of its jump leaves a gene what it has. -/
theorem repaired (slots : List Slot) {s : Slot} (hs : Q s.gene.instruction) :
    (Slot.repaired slots s).Ensures fun g => Q g.instruction := by
  unfold Slot.repaired
  split
  · exact .pure hs
  · split
    · exact .pure (h.retarget _ _ hs)
    · exact .bind .any fun goal _ => .pure (h.retarget _ _ hs)

/-- To repair a jump changes its goal, which the property does not look at. -/
theorem repair {slots : List Slot} (hslots : ∀ s ∈ slots, Q s.gene.instruction) :
    (Slot.repair slots).Ensures fun genes => ∀ g ∈ genes, Q g.instruction := by
  refine Draw.Ensures.mono (.mapM (R := fun _ g => Q g.instruction) fun s hs => ?_) ?_
  · exact h.repaired slots (hslots s hs)
  · intro genes hgenes g hg
    obtain ⟨_, -, hQ⟩ := forall₂_mem_right hgenes hg
    exact hQ

/-! ## Reproduction -/

/-- **The offspring has what its parent has**, if that is what everything drawn has. -/
theorem evolve {parent : Program} (hparent : parent.Has Q) (traits : Traits) (config : EvolutionConfig) :
    (parent.evolve traits config).Yields fun o => o.program.Has Q := by
  unfold Program.evolve
  refine .bind (h.cloneGenes hparent _) fun genes hgenes => .bind .any fun roll _ => ?_
  refine .ite (fun _ => .bind (ofDrawn hgenes) fun p hp => .pure hp) fun _ => ?_
  have hslots : ∀ s ∈ Slot.ofGenes genes, Q s.gene.instruction := by
    intro s hs
    obtain ⟨g, hg, rfl⟩ := List.mem_map.mp hs
    exact hgenes g hg
  refine .bind .any fun operator _ => ?_
  -- what follows the edit, whichever operator made it
  have hrest : ∀ (slots : List Slot) (traits' : Traits), (∀ s ∈ slots, Q s.gene.instruction) →
      Build.Yields (do
        let genes ← Slot.repair slots
        let offspring : Offspring :=
          { program := ← Program.ofDrawn genes, traits := traits', mutated := true, operator }
        return offspring)
        fun o => o.program.Has Q := by
    intro slots traits' hedited
    refine .bind (.lift (h.repair hedited)) fun repaired hrepaired => ?_
    exact .bind (ofDrawn hrepaired) fun p hp => .pure hp
  cases operator with
  | none => exact hrest _ _ hslots
  | some op => exact .bind (h.apply op hslots config traits) fun edited hedited => hrest _ _ hedited

end Heritable

end Vivarium
