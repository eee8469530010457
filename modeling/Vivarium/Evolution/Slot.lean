import Vivarium.Config.Basic
import Vivarium.Creature.Basic
import Vivarium.Evolution.Clone
import Vivarium.Evolution.Operator

/-!
# Editing a clone

While a clone is edited, each gene sits in a slot that remembers which gene its jump led to before the
edit, by that gene's identity. An operator cuts, copies or draws slots, or changes the traits; afterwards
each jump is pointed at the place where its gene now is. A jump whose gene is gone, or that a fresh gene
brought along, leads to a random place.
-/

namespace Vivarium

/-- A gene under edit. -/
structure Slot where
  gene   : Gene
  jumpTo : Option Ident
deriving DecidableEq

namespace Slot

/-- The slots of a list of genes. A jump past the end leads to no gene. -/
def ofGenes (genes : List Gene) : List Slot :=
  genes.map fun g =>
    { gene := g, jumpTo := (g.instruction.target?.bind fun goal => genes[goal]?).map (·.id) }

/-- A bound above the length of a copied or deleted run. -/
def segmentBound : Nat := 10

/-- The run of at most `size` items from `start` on. -/
def run (xs : List α) (start size : Nat) : List α := (xs.drop start).take size

/-- `xs` with `ys` put before the item at `i`. -/
def splice (xs : List α) (i : Nat) (ys : List α) : List α := xs.take i ++ ys ++ xs.drop i

/-! ## The operators -/

/-- Copies a run, under fresh identities, to before a random slot, as far as there is room. -/
def duplicate (slots : List Slot) : Draw (List Slot) := do
  let size  ← Draw.number 1 segmentBound
  let start ← Draw.position slots.length
  let i     ← Draw.position slots.length
  let copies ← ((run slots start size).take (longestProgram - slots.length)).mapM fun s =>
    return { s with gene := ← s.gene.copy }
  return splice slots i copies

/-- A slot with a gene drawn from the whole catalog. -/
def fresh (len : Nat) : Build Slot := do
  return { gene := ← Catalog.drawAnyGene false len, jumpTo := none }

/-- Fresh slots, one more for each draw below `continueProb`, but no more than `room`. -/
def freshRun (len : Nat) (continueProb : Float) : (room : Nat) → Build (List Slot)
  | 0        => do
    -- the roll is made even where there is no room left
    let _ ← Draw.fraction
    return []
  | room + 1 => do
    if (← Draw.fraction) < continueProb then
      let slot ← fresh len
      return slot :: (← freshRun len continueProb room)
    else
      return []

/-- Puts a run of fresh slots before a random slot. -/
def insert (slots : List Slot) (continueProb : Float) : Build (List Slot) := do
  let len := slots.length
  let i ← Draw.position len
  let first ← fresh len
  let others ← freshRun len continueProb (longestProgram - len - 1)
  return splice slots i (first :: others)

/-- Cuts out a run. -/
def delete (slots : List Slot) : Draw (List Slot) := do
  let start ← Draw.position slots.length
  let size  ← Draw.number 1 segmentBound
  return slots.take start ++ slots.drop (start + size)

/-- Draws the gene of a random slot anew, of the same kind, once for each draw below `continueProb`. -/
def redraw (continueProb : Float) (slots : List Slot) : (fuel : Nat) → Build (List Slot)
  | 0        => throwThe Fault .exhausted
  | fuel + 1 => do
    if (← Draw.fraction) < continueProb then
      let i ← Draw.position slots.length
      let gene ← Catalog.drawGene ((slots[i]?.map (·.gene.index)).getD 0) slots.length
      redraw continueProb (slots.set i { gene, jumpTo := none }) fuel
    else
      return slots

end Slot

/-- The sum of vision and attack range after a trade between them. -/
def tradeoffTotal : Float := 350.0

/-- A bound above the attack range. -/
def attackRangeBound : Nat := 175

/-- Trades vision against attack range, or sets threshold and mutation rate to one value. -/
def Traits.modify (t : Traits) : Draw Traits := do
  if ← Draw.chance 0.5 then
    let attackRange := Float.ofNat (← Draw.shortNumber 0 attackRangeBound)
    return { t with vision := tradeoffTotal - attackRange, attackRange }
  else
    let yoked ← Draw.fraction
    return { t with familyThreshold := yoked, mutationRate := yoked }

/-- Runs one operator on the slots and traits of a clone. -/
def MutationOperator.apply (config : EvolutionConfig) (slots : List Slot) (traits : Traits) :
    MutationOperator → Build (List Slot × Traits)
  | duplicateSegment => return (← Slot.duplicate slots, traits)
  | insertSegment    => return (← Slot.insert slots config.segmentContinueProb, traits)
  | deleteSegment    => return (← Slot.delete slots, traits)
  | mutateMemory     => return (← Slot.redraw config.segmentContinueProb slots Draw.patience, traits)
  | modifyTraits     => return (slots, ← traits.modify)

end Vivarium
