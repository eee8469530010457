import Vivarium.Evolution.Offspring

/-!
# Reproduction with a record of where each gene comes from

An operator moves, copies, draws and drops slots, and the child's genes alone do not say which is which.
Here every slot carries its origin: the place of the gene in the clone that it is, or is a copy of, or
that it was drawn from the catalog during the edit. `Program.evolveTraced` makes the same draws as
`Program.evolve` and returns the record beside the offspring.

Main result: `evolve_eq_fst_evolveTraced`. Dropping the record gives back the reproduction itself, as
one computation, so what is proved with the record holds of every run of `Program.evolve`.
-/

namespace Vivarium

/-- Where a gene of an edited clone comes from. -/
inductive Origin where
  /-- It is the clone's gene at this index. -/
  | kept (i : Nat)
  /-- It is a copy of the clone's gene at this index. -/
  | copy (i : Nat)
  /-- It was drawn from the catalog during the edit. -/
  | fresh
deriving DecidableEq, Repr

namespace Origin

/-- The index of the clone's gene itself. -/
def kept? : Origin → Option Nat
  | kept i => some i
  | _      => none

/-- The index of the clone's gene of which it is an instance, itself or a copy. -/
def model? : Origin → Option Nat
  | kept i => some i
  | copy i => some i
  | fresh  => none

/-- The origin of a copy. -/
def copied : Origin → Origin
  | kept i => copy i
  | o      => o

end Origin

/-- A slot with the origin of its gene. -/
structure Tagged where
  slot   : Slot
  origin : Origin

namespace Tagged

/-- The slots of a clone, each its own origin. -/
def ofGenes (genes : List Gene) : List Tagged :=
  (Slot.ofGenes genes).zipIdx.map fun (s, i) => ⟨s, .kept i⟩

/-! ## The operators on tagged slots -/

/-- A copy of the slot under a fresh identity. -/
def copy (t : Tagged) : Draw Tagged := do
  return { slot := { t.slot with gene := ← t.slot.gene.copy }, origin := t.origin.copied }

/-- `Slot.duplicate`, with origins. -/
def duplicate (ts : List Tagged) : Draw (List Tagged) := do
  let size  ← Draw.number 1 Slot.segmentBound
  let start ← Draw.position ts.length
  let i     ← Draw.position ts.length
  let copies ← ((Slot.run ts start size).take (longestProgram - ts.length)).mapM copy
  return Slot.splice ts i copies

/-- `Slot.insert`, with origins. -/
def insert (ts : List Tagged) (continueProb : Float) : Build (List Tagged) := do
  let len := ts.length
  let i ← Draw.position len
  let first ← Slot.fresh len
  let others ← Slot.freshRun len continueProb (longestProgram - len - 1)
  return Slot.splice ts i ((first :: others).map (⟨·, .fresh⟩))

/-- `Slot.delete`, with origins. -/
def delete (ts : List Tagged) : Draw (List Tagged) := do
  let start ← Draw.position ts.length
  let size  ← Draw.number 1 Slot.segmentBound
  return ts.take start ++ ts.drop (start + size)

/-- `Slot.redraw`, with origins. -/
def redraw (continueProb : Float) (ts : List Tagged) : (fuel : Nat) → Build (List Tagged)
  | 0        => throwThe Fault .exhausted
  | fuel + 1 => do
    if (← Draw.fraction) < continueProb then
      let i ← Draw.position ts.length
      let gene ← Catalog.drawGene ((ts[i]?.map (·.slot.gene.index)).getD 0) ts.length
      redraw continueProb (ts.set i ⟨{ gene, jumpTo := none }, .fresh⟩) fuel
    else
      return ts

end Tagged

/-- `MutationOperator.apply`, with origins. -/
def MutationOperator.applyTagged (config : EvolutionConfig) (ts : List Tagged) (traits : Traits) :
    MutationOperator → Build (List Tagged × Traits)
  | duplicateSegment => return (← Tagged.duplicate ts, traits)
  | insertSegment    => return (← Tagged.insert ts config.segmentContinueProb, traits)
  | deleteSegment    => return (← Tagged.delete ts, traits)
  | mutateMemory     => return (← Tagged.redraw config.segmentContinueProb ts Draw.patience, traits)
  | modifyTraits     => return (ts, ← traits.modify)

/-- The record of a reproduction: the genes of the clone, and the slots after the edit, with origins. -/
structure Trace where
  clone  : List Gene
  edited : List Tagged

/-- What `Program.evolve` makes of the genes of a clone, with the record of it. -/
def Offspring.ofCloneTraced (genes : List Gene) (traits : Traits) (config : EvolutionConfig) :
    Build (Offspring × Trace) := do
  if (← Draw.fraction) > traits.mutationRate then
    let offspring :=
      { program := ← Program.ofDrawn genes, traits, mutated := false, operator := none }
    return (offspring, { clone := genes, edited := Tagged.ofGenes genes })
  else
    let ts := Tagged.ofGenes genes
    let operator ← MutationOperator.select ts.length config.operatorWeights
    let (ts, traits) ←
      match operator with
      | some op => op.applyTagged config ts traits
      | none    => pure (ts, traits)
    let repaired ← Slot.repair (ts.map (·.slot))
    let offspring := { program := ← Program.ofDrawn repaired, traits, mutated := true, operator }
    return (offspring, { clone := genes, edited := ts })

/-- `Program.evolve`, with the record of what it did. -/
def Program.evolveTraced (parent : Program) (traits : Traits) (config : EvolutionConfig) :
    Build (Offspring × Trace) := do
  let genes ← parent.cloneGenes config.recloneMemory
  Offspring.ofCloneTraced genes traits config

/-! ## Dropping the origins -/

namespace Tagged

/-- The slots without their origins. -/
abbrev slots (ts : List Tagged) : List Slot := ts.map (·.slot)

@[simp] theorem slots_ofGenes (genes : List Gene) : slots (ofGenes genes) = Slot.ofGenes genes := by
  simp [slots, ofGenes, Function.comp_def]

@[simp] theorem length_ofGenes (genes : List Gene) : (ofGenes genes).length = genes.length := by
  simp [ofGenes, Slot.ofGenes]

/-- The slots of a run are the run of the slots. -/
theorem slots_run (ts : List Tagged) (start size : Nat) :
    slots (Slot.run ts start size) = Slot.run (slots ts) start size := by
  simp [slots, Slot.run]

theorem slots_set (ts : List Tagged) (i : Nat) (t : Tagged) :
    slots (ts.set i t) = (slots ts).set i t.slot := by
  simp [slots, List.map_set]

/-- Spliced slots are the slots of what was spliced. -/
theorem slots_splice (ts us : List Tagged) (i : Nat) :
    slots (Slot.splice ts i us) = Slot.splice (slots ts) i (slots us) := by
  simp [slots, Slot.splice]

end Tagged

/-- Mapping before a sequence of draws, or after it. -/
theorem mapM_map_eq_map_mapM {m : Type → Type} [Monad m] [LawfulMonad m] {α β γ δ : Type}
    {f : α → β} {g : γ → δ} {run : β → m δ} {run' : α → m γ} (h : ∀ a, run (f a) = g <$> run' a) :
    ∀ xs : List α, (xs.map f).mapM run = List.map g <$> xs.mapM run'
  | [] => by simp
  | x :: xs => by
    rw [List.map_cons, List.mapM_cons, List.mapM_cons, h, mapM_map_eq_map_mapM h xs]
    simp

/-- To duplicate tagged slots duplicates the slots. -/
theorem duplicate_eq (ts : List Tagged) :
    Slot.duplicate (Tagged.slots ts) = Tagged.slots <$> Tagged.duplicate ts := by
  -- a copy with its tag is the copy without it
  have hcopy : ∀ t : Tagged, (do return { t.slot with gene := ← t.slot.gene.copy } : Draw Slot) =
      (·.slot) <$> t.copy := fun t => by simp [Tagged.copy]
  unfold Slot.duplicate Tagged.duplicate
  simp only [map_bind, List.length_map]
  refine bind_congr fun size => bind_congr fun start => bind_congr fun i => ?_
  rw [← Tagged.slots_run, ← List.map_take, mapM_map_eq_map_mapM hcopy, bind_map_left]
  refine bind_congr fun copies => ?_
  rw [map_pure, Tagged.slots_splice]

/-- To insert into them inserts into the slots. -/
theorem insert_eq (ts : List Tagged) (continueProb : Float) :
    Slot.insert (Tagged.slots ts) continueProb = Tagged.slots <$> Tagged.insert ts continueProb := by
  unfold Slot.insert Tagged.insert
  simp only [map_bind, List.length_map]
  refine bind_congr fun i => bind_congr fun first => bind_congr fun others => ?_
  rw [map_pure, Tagged.slots_splice]
  simp [Tagged.slots, Function.comp_def]

/-- To delete from them deletes from the slots. -/
theorem delete_eq (ts : List Tagged) :
    Slot.delete (Tagged.slots ts) = Tagged.slots <$> Tagged.delete ts := by
  unfold Slot.delete Tagged.delete
  simp only [map_bind, List.length_map]
  refine bind_congr fun start => bind_congr fun size => ?_
  simp [Tagged.slots]

/-- To redraw them redraws the slots. The induction is on how many may still be redrawn. -/
theorem redraw_eq (continueProb : Float) :
    ∀ (fuel : Nat) (ts : List Tagged), Slot.redraw continueProb (Tagged.slots ts) fuel =
      Tagged.slots <$> Tagged.redraw continueProb ts fuel
  | 0, ts => rfl
  | fuel + 1, ts => by
    unfold Slot.redraw Tagged.redraw
    simp only [map_bind, List.length_map]
    refine bind_congr fun roll => ?_
    -- a round with tags draws what the round without them draws, and the tags are dropped at the end
    split
    · simp only [map_bind]
      refine bind_congr fun i => ?_
      rw [List.getElem?_map, Option.map_map]
      refine bind_congr fun gene => ?_
      rw [← redraw_eq continueProb fuel, Tagged.slots_set]
    · rw [map_pure]

/-- **The tags are only looked on**: an operator does to tagged slots what it does to slots. -/
theorem apply_eq (op : MutationOperator) (config : EvolutionConfig) (ts : List Tagged)
    (traits : Traits) :
    op.apply config (Tagged.slots ts) traits =
      Prod.map Tagged.slots id <$> op.applyTagged config ts traits := by
  -- the tags go along with the slots, and no draw looks at them
  cases op with
  | duplicateSegment =>
    unfold MutationOperator.apply MutationOperator.applyTagged
    rw [duplicate_eq]
    simp
  | insertSegment =>
    unfold MutationOperator.apply MutationOperator.applyTagged
    rw [insert_eq]
    simp
  | deleteSegment =>
    unfold MutationOperator.apply MutationOperator.applyTagged
    rw [delete_eq]
    simp
  | mutateMemory =>
    unfold MutationOperator.apply MutationOperator.applyTagged
    rw [redraw_eq]
    simp
  | modifyTraits =>
    unfold MutationOperator.apply MutationOperator.applyTagged
    simp

/-- **Dropping the record.** The traced reproduction makes the same draws as the plain one and returns
the same offspring. -/
theorem evolve_eq_fst_evolveTraced (parent : Program) (traits : Traits) (config : EvolutionConfig) :
    parent.evolve traits config = Prod.fst <$> parent.evolveTraced traits config := by
  unfold Program.evolve Program.evolveTraced Offspring.ofCloneTraced
  simp only [map_bind]
  refine bind_congr fun genes => bind_congr fun roll => ?_
  -- the roll decides alike in both
  split
  · simp
  · simp only [map_bind]
    -- from here on the plain slots are the tagged ones without their tags
    rw [← Tagged.slots_ofGenes, List.length_map]
    refine bind_congr fun operator => ?_
    cases operator with
    | none =>
      simp
    | some op =>
      simp only [apply_eq, bind_map_left]
      simp

end Vivarium
