import Vivarium.Evolution.Slot
import Vivarium.Program.Build

/-!
# Offspring

Reproduction clones the parent's genes and, with the probability that its traits give, runs exactly one
operator on the clone. The result says whether the roll succeeded and which operator ran; a roll can
succeed without any operator being eligible, and an operator can leave everything as it was.
-/

namespace Vivarium

namespace Slot

/-- The place of the first slot whose gene has the identity `id`. -/
def find? (slots : List Slot) (id : Ident) : Option Nat := slots.findIdx? fun s => s.gene.id == id

/-- The gene of a slot with its jump, if it has one, pointed at the remembered gene among `slots`, or at
a random place where there is none. -/
def repaired (slots : List Slot) (s : Slot) : Draw Gene := do
  match s.gene.instruction.target? with
  | none   => return s.gene
  | some _ =>
    match s.jumpTo.bind (find? slots) with
    | some goal => return s.gene.retarget goal
    | none    => return s.gene.retarget (← Draw.position slots.length)

/-- The genes of the slots with all jumps repaired. -/
def repair (slots : List Slot) : Draw (List Gene) := slots.mapM (repaired slots)

end Slot

/-- The result of one reproduction. -/
structure Offspring where
  program  : Program
  traits   : Traits
  /-- Whether the roll for a mutation succeeded. -/
  mutated  : Bool
  operator : Option MutationOperator

/-- A child's program and traits from those of its parent. -/
def Program.evolve (parent : Program) (traits : Traits) (config : EvolutionConfig) :
    Build Offspring := do
  let genes ← parent.cloneGenes config.recloneMemory
  -- a roll that is just the rate lets the mutation go on
  if (← Draw.fraction) > traits.mutationRate then
    return { program := ← ofDrawn genes, traits, mutated := false, operator := none }
  else
    let slots := Slot.ofGenes genes
    let operator ← MutationOperator.select slots.length config.operatorWeights
    -- without an eligible operator the slots stay as they are, and the child still counts as mutated
    let (slots, traits) ←
      match operator with
      | some op => op.apply config slots traits
      | none    => pure (slots, traits)
    let genes ← Slot.repair slots
    return { program := ← ofDrawn genes, traits, mutated := true, operator }

end Vivarium
