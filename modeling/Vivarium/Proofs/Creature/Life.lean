import Vivarium.Creature.Birth
import Vivarium.Proofs.Evolution.Reproduction
import Vivarium.Turn.Run

/-!
# What a creature keeps while it lives

Feeding, attacks, hunger and its own genes change a creature's state, and never what it is: its identity,
body, lineage, traits, program and hue and the tick of its birth. Between its turns its program stands at
one of its own genes, and no jump is pending.

Main results:

* `takeTurn_ensures`: a turn leaves a creature what it is, with its program at a gene.
* `Birth.root_ensures`, `Birth.child_ensures`: no birth is refused, and what is born is a newborn of an
  executable first program, or of what a reproduction of the parent returned.
-/

namespace Vivarium

namespace Creature

/-- The program stands at one of its genes, and no jump is pending. -/
structure Seated (c : Creature) : Prop where
  cursor_lt    : c.cursor < c.program.length
  pending_none : c.pendingJump = none

/-- Two states of one creature: it is the same in all that it keeps. -/
structure Same (c d : Creature) : Prop where
  id_eq        : d.id = c.id
  body_eq      : d.body = c.body
  lineage_eq   : d.lineage = c.lineage
  traits_eq    : d.traits = c.traits
  program_eq   : d.program = c.program
  hue_eq       : d.hue = c.hue
  birthTick_eq : d.birthTick = c.birthTick

/-- What a creature `c` may become in the course of its life. -/
structure Lives (c d : Creature) : Prop extends Same c d where
  seated : c.Seated → d.Seated

namespace Same

theorem refl (c : Creature) : Same c c := ⟨rfl, rfl, rfl, rfl, rfl, rfl, rfl⟩

theorem symm {c d : Creature} (h : Same c d) : Same d c :=
  ⟨h.id_eq.symm, h.body_eq.symm, h.lineage_eq.symm, h.traits_eq.symm, h.program_eq.symm, h.hue_eq.symm,
    h.birthTick_eq.symm⟩

theorem trans {c d e : Creature} (hcd : Same c d) (hde : Same d e) : Same c e where
  id_eq        := hde.id_eq.trans hcd.id_eq
  body_eq      := hde.body_eq.trans hcd.body_eq
  lineage_eq   := hde.lineage_eq.trans hcd.lineage_eq
  traits_eq    := hde.traits_eq.trans hcd.traits_eq
  program_eq   := hde.program_eq.trans hcd.program_eq
  hue_eq       := hde.hue_eq.trans hcd.hue_eq
  birthTick_eq := hde.birthTick_eq.trans hcd.birthTick_eq

end Same

namespace Lives

theorem refl (c : Creature) : Lives c c := ⟨.refl c, fun h => h⟩

theorem trans {c d e : Creature} (hcd : Lives c d) (hde : Lives d e) : Lives c e :=
  ⟨hcd.toSame.trans hde.toSame, fun h => hde.seated (hcd.seated h)⟩

end Lives

/-! ## Mass, hunger and the laser -/

/-- Eating and fighting change hunger. -/
theorem adjustHunger_lives (c : Creature) (delta : Float) : c.Lives (c.adjustHunger delta) :=
  ⟨⟨rfl, rfl, rfl, rfl, rfl, rfl, rfl⟩, fun h => ⟨h.cursor_lt, h.pending_none⟩⟩

/-- Metabolism changes hunger. -/
theorem starve_lives (c : Creature) (rate : Float) : c.Lives (c.starve rate) :=
  c.adjustHunger_lives _

/-- Growing changes the mass. -/
theorem setMass_lives {E : Type} [Physics E] (c : Creature) (mass : Float) (e : E) :
    c.Lives (c.setMass mass e).1 :=
  ⟨⟨rfl, rfl, rfl, rfl, rfl, rfl, rfl⟩, fun h => ⟨h.cursor_lt, h.pending_none⟩⟩

/-- A laser comes and goes. -/
theorem withLaser_lives (c : Creature) (laser : Option Laser) : c.Lives { c with laser } :=
  ⟨⟨rfl, rfl, rfl, rfl, rfl, rfl, rfl⟩, fun h => ⟨h.cursor_lt, h.pending_none⟩⟩

/-- To count a laser down changes the laser at most. -/
theorem tickLaser_lives (c : Creature) (own target : Option Vec) :
    c.Lives (c.tickLaser own target) := by
  unfold tickLaser
  split
  · split
    · exact c.withLaser_lives _
    · exact c.withLaser_lives _
  · exact c.withLaser_lives _

/-! ## Turns -/

/-- An instruction changes the heading, hunger, the delay and the pending jump at most. -/
theorem execute_ensures (c : Creature) (position : Vec) (s : Surroundings) (i : Instruction) :
    (c.execute position s i).Ensures fun effect => c.Same effect.creature := by
  unfold execute
  -- none of the six writes to a field that `Same` speaks of
  cases i with
  | move power => exact .pure (c.adjustHunger_lives _).toSame
  | turn facing => exact .bind .any fun direction _ => .pure ⟨rfl, rfl, rfl, rfl, rfl, rfl, rfl⟩
  | jump condition goal =>
    exact .ite (fun _ => .pure ⟨rfl, rfl, rfl, rfl, rfl, rfl, rfl⟩) fun _ => .pure (.refl c)
  | attack =>
    dsimp only
    split
    · exact .pure (.refl c)
    · exact .pure ⟨rfl, rfl, rfl, rfl, rfl, rfl, rfl⟩
  | replicate => exact .ite (fun _ => .pure (.refl c)) fun _ => .pure (.refl c)
  | wait => exact .pure (.refl c)

/-- The cursor goes to a gene of the program, wherever the jump leads. -/
theorem nextCursor_ensures (p : Program) (i : Nat) (goal : Option Nat) :
    (Turn.nextCursor p i goal).Ensures (· < p.length) := by
  unfold Turn.nextCursor
  cases goal with
  | none => exact .pure (Nat.mod_lt _ p.length_pos)
  | some goal => exact .ite (fun hlt => .pure hlt) fun _ => Draw.position_lt _

/-- So does one gene with its delay. -/
theorem executeGene_ensures (position : Vec) (s : Surroundings) (t : Turn) :
    (Turn.executeGene position s t).Ensures fun t' => t.creature.Lives t'.creature := by
  unfold Turn.executeGene
  refine .bind (execute_ensures _ _ _ _) fun effect heffect => ?_
  -- wherever the gene leads, the cursor is set and the jump is settled afterwards
  refine .bind (nextCursor_ensures _ _ _) fun next hnext => .pure ⟨?_, fun _ => ⟨hnext, rfl⟩⟩
  have hsame : Same t.creature effect.creature := by
    refine Same.trans ?_ heffect
    exact ⟨rfl, rfl, rfl, rfl, rfl, rfl, rfl⟩
  exact hsame.trans ⟨rfl, rfl, rfl, rfl, rfl, rfl, rfl⟩

/-- And so do all genes that a tick allows. -/
theorem executeGenes_ensures (position : Vec) (s : Surroundings) :
    ∀ (budget : Nat) (t : Turn),
      (Turn.executeGenes position s budget t).Ensures fun t' => t.creature.Lives t'.creature
  | 0, t => .pure (.refl t.creature)
  | budget + 1, t => by
    unfold Turn.executeGenes
    refine .ite (fun _ => ?_) fun _ => .pure (.refl t.creature)
    refine .bind (executeGene_ensures position s t) fun t' ht' => ?_
    exact (executeGenes_ensures position s budget t').mono fun t'' ht'' => ht'.trans ht''

/-- **A turn leaves a creature what it is**, and leaves its program at a gene. -/
theorem takeTurn_ensures (c : Creature) (position : Vec) (s : Surroundings) :
    (c.takeTurn position s).Ensures fun turn => c.Lives turn.creature := by
  unfold takeTurn
  refine .ite (fun _ => .pure ?_) fun _ => executeGenes_ensures position s _ _
  exact ⟨⟨rfl, rfl, rfl, rfl, rfl, rfl, rfl⟩, fun h => ⟨h.cursor_lt, h.pending_none⟩⟩

end Creature

/-! ## Births -/

variable {E : Type} [Physics E]

/-- The handle of the body that a seed is given. -/
def Seed.body (seed : Seed) (e : E) : Handle :=
  (Physics.addBody e seed.mass.sqrt seed.position .creature).1

/-- The engine with the body that a seed is given. -/
def Seed.bodied (seed : Seed) (e : E) : E := (Physics.addBody e seed.mass.sqrt seed.position .creature).2

/-- `c` has just been made from a seed at a tick, with the next body of an engine. -/
structure Creature.Newborn (seed : Seed) (tick : Nat) (e : E) (c : Creature) : Prop where
  body_eq      : c.body = seed.body e
  lineage_eq   : c.lineage = seed.lineage
  traits_eq    : c.traits = seed.traits
  program_eq   : c.program = seed.program
  hue_eq       : c.hue = geneticHue seed.program.geneticString
  hunger_eq    : c.hunger = 1.0
  mass_eq      : c.mass = seed.mass
  cursor_eq    : c.cursor = 0
  pending_none : c.pendingJump = none
  idle         : c.moveDelay = 0
  unarmed      : c.laser = none
  birthTick_eq : c.birthTick = tick

/-- A newborn is at the beginning of its program, with no jump pending. -/
theorem Creature.Newborn.seated {seed : Seed} {tick : Nat} {e : E} {c : Creature}
    (h : c.Newborn seed tick e) : c.Seated where
  cursor_lt    := by
    rw [h.cursor_eq]
    exact c.program.length_pos
  pending_none := h.pending_none

/-- To embody a seed makes a newborn of it, and puts its body in. -/
theorem Seed.embody_ensures (seed : Seed) (tick : Nat) (e : E) :
    (seed.embody tick e).Ensures fun (c, e') => c.Newborn seed tick e ∧ e' = seed.bodied e := by
  unfold Seed.embody
  refine .bind .any fun id _ => .bind .any fun direction _ => .pure ⟨?_, rfl⟩
  exact ⟨rfl, rfl, rfl, rfl, rfl, rfl, rfl, rfl, rfl, rfl, rfl, rfl⟩

namespace Birth

variable (position : Vec) (tick : Nat) (config : Config) (e : E)

/-- The seed of a creature without a parent. -/
def rootSeed (program : Program) : Seed :=
  { program, position, mass := config.metabolism.birthMass }

/-- The seed of a child. -/
def childSeed (o : Offspring) (lineage : Lineage) : Seed :=
  { program := o.program, traits := o.traits, lineage, position, mass := config.metabolism.birthMass }

/-- The counter of a child is the parent's and what was added to it. -/
theorem addCount_inv {n m k : Nat} (h : addCount n m = .ok k) : k = n + m := by
  unfold addCount at h
  split at h
  · cases h
    rfl
  · cases h

/-- A counter that does not grow out of its word counts. -/
theorem addCount_of_lt {n m : Nat} (h : n + m < twoTo 32) : addCount n m = .ok (n + m) := if_pos h

/-- A child names its parent and is of the next generation, and its mutations are counted on. -/
theorem childLineage_inv {parent : Creature} {mutated : Bool} {lineage : Lineage}
    (h : childLineage parent mutated = .ok lineage) :
    lineage = { parentId   := some parent.id
                generation := parent.lineage.generation + 1
                mutations  := parent.lineage.mutations + mutated.toNat } := by
  obtain ⟨generation, hgeneration, h⟩ := except_bind_inv h
  obtain ⟨mutations, hmutations, hpure⟩ := except_bind_inv h
  cases hpure
  rw [addCount_inv hgeneration, addCount_inv hmutations]

/-- A child whose counters fit has its lineage. -/
theorem childLineage_of_lt {parent : Creature} {mutated : Bool}
    (hgeneration : parent.lineage.generation + 1 < twoTo 32)
    (hmutations : parent.lineage.mutations + mutated.toNat < twoTo 32) :
    childLineage parent mutated = .ok
      { parentId   := some parent.id
        generation := parent.lineage.generation + 1
        mutations  := parent.lineage.mutations + mutated.toNat } := by
  unfold childLineage
  rw [addCount_of_lt hgeneration, addCount_of_lt hmutations]
  rfl

/-- The birth of a creature without a parent is not refused, and its program is executable. -/
theorem root_ensures :
    Build.Ensures (root position tick config e) fun (birth, e') =>
      ∃ program, program.Executable ∧
        birth.creature.Newborn (rootSeed position config program) tick e ∧
        e' = (rootSeed position config program).bodied e := by
  unfold root
  refine .bind (Program.random_ensures (by decide) (by decide)) fun program hprogram => ?_
  refine .bind (.lift (Seed.embody_ensures _ _ _)) fun (c, e') h => .pure ?_
  exact ⟨program, hprogram, h.1, h.2⟩

/-- The birth of a child is not refused, and the child is what a reproduction of the parent returned. -/
theorem child_ensures (parent : Creature) :
    Build.Ensures (child parent position tick config e) fun (birth, e') =>
      ∃ o tr lineage, Reproduced parent.program parent.traits config.evolution o tr ∧
        childLineage parent o.mutated = .ok lineage ∧
        birth.creature.Newborn (childSeed position config o lineage) tick e ∧
        birth.operator = o.operator ∧ e' = (childSeed position config o lineage).bodied e := by
  unfold child
  refine .bind (evolve_ensures _ _ _) fun o ho => ?_
  obtain ⟨tr, ho⟩ := ho
  refine .bind (.lift (.lift fun lineage hlineage => hlineage)) fun lineage hlineage => ?_
  refine .bind (.lift (Seed.embody_ensures _ _ _)) fun (c, e') h => .pure ?_
  exact ⟨o, tr, lineage, ho, hlineage, h.1, rfl, h.2⟩

end Birth

end Vivarium
