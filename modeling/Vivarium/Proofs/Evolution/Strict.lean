import Vivarium.Proofs.Evolution.Steady

/-!
# Cuts stay in range

The operators take parts out of lists and put others in, at places that they draw, and count the room that
is left. The functions that do so are total: beyond the end of a list they take what there is, and a
difference below zero is zero. Here they are written once more in a strict way, which breaks off wherever a
place does not lie in the list or a difference is not a count. Reproduction that works strictly is the same
as reproduction, so it never reaches beyond the end of a list.

Main result: `Program.evolveStrictly_eq`.
-/

namespace Vivarium

/-! ## Sequences that agree on what can be returned -/

/-- What comes second may be replaced by what does the same on all that the first can return. -/
theorem Draw.Ensures.bind_congr {α β : Type} {d : Draw α} {f g : α → Draw β} {P : α → Prop}
    (h : d.Ensures P) (hfg : ∀ a, P a → f a = g a) : d >>= f = d >>= g := by
  funext s
  show (d >>= f).run s = (d >>= g).run s
  rw [StateT.run_bind, StateT.run_bind]
  cases hd : d.run s with
  | error cause => rfl
  | ok x =>
    show (f x.1).run x.2 = (g x.1).run x.2
    rw [hfg x.1 (h s x.1 x.2 hd)]

theorem Build.Yields.bind_congr {α β : Type} {b : Build α} {f g : α → Build β} {P : α → Prop}
    (h : Build.Yields b P) (hfg : ∀ a, P a → f a = g a) : b >>= f = b >>= g := by
  refine ExceptT.ext ?_
  rw [ExceptT.run_bind, ExceptT.run_bind]
  refine Draw.Ensures.bind_congr (P := fun x => ∀ a, x = .ok a → P a) ?_ fun x hx => ?_
  · intro s x s' hrun a ha
    subst ha
    exact h s a s' hrun
  · cases x with
    | error cause => rfl
    | ok a => exact congrArg ExceptT.run (hfg a (hx a rfl))

/-! ## Strict work on lists -/

namespace Strict

variable {α : Type}

/-- The item at a place of the list. -/
def item (xs : List α) (i : Nat) : Draw α :=
  match xs[i]? with
  | some x => pure x
  | none   => throw .emptyRange

/-- The items from `start` up to `stop`. -/
def slice (xs : List α) (start stop : Nat) : Draw (List α) :=
  if start ≤ stop ∧ stop ≤ xs.length then pure ((xs.drop start).take (stop - start)) else throw .emptyRange

/-- The list with `ys` in the place of the items from `start` up to `stop`. -/
def replace (xs : List α) (start stop : Nat) (ys : List α) : Draw (List α) :=
  if start ≤ stop ∧ stop ≤ xs.length then pure (xs.take start ++ ys ++ xs.drop stop) else throw .emptyRange

/-- What is left of a count. -/
def less (n m : Nat) : Draw Nat := if m ≤ n then pure (n - m) else throw .overflow

/-- A place inside is indexed without a fault. -/
theorem item_eq {xs : List α} {i : Nat} (h : i < xs.length) : item xs i = pure xs[i] := by
  unfold item
  rw [List.getElem?_eq_getElem h]

/-- A run that is cut off at the end of the list is the whole of it. -/
theorem slice_eq {xs : List α} {start : Nat} (h : start < xs.length) (size : Nat) :
    slice xs start (min (start + size) xs.length) = pure (Slot.run xs start size) := by
  unfold slice Slot.run
  rw [if_pos (by omega)]
  refine congrArg pure ?_
  -- the run ends within the list, or it is all that is left of it
  rcases Nat.le_total (start + size) xs.length with hle | hle
  · rw [Nat.min_eq_left hle, Nat.add_sub_cancel_left]
  · have hshort : (xs.drop start).length ≤ size := by
      rw [List.length_drop]
      omega
    rw [Nat.min_eq_right hle, ← List.length_drop, List.take_length, List.take_of_length_le hshort]

/-- To put a list in at a place inside is no fault either. -/
theorem splice_eq {xs ys : List α} {i : Nat} (h : i < xs.length) :
    replace xs i i ys = pure (Slot.splice xs i ys) := by
  unfold replace
  rw [if_pos (by omega)]
  rfl

/-- Nor is it to cut a segment out. -/
theorem cut_eq {xs : List α} {start : Nat} (h : start < xs.length) (size : Nat) :
    replace xs start (min (start + size) xs.length) [] = pure (xs.take start ++ xs.drop (start + size)) := by
  unfold replace
  rw [if_pos (by omega), List.append_nil]
  rcases Nat.le_total (start + size) xs.length with hle | hle
  · rw [Nat.min_eq_left hle]
  · rw [Nat.min_eq_right hle, List.drop_eq_nil_of_le hle, List.drop_length]

/-- Nor to subtract what is no more. -/
theorem less_eq {n m : Nat} (h : m ≤ n) : less n m = pure (n - m) := if_pos h

end Strict

/-! ## The operators, strictly -/

namespace Slot

open Strict

/-- Copies a run to before a random slot. -/
def duplicateStrictly (slots : List Slot) : Draw (List Slot) := do
  let size  ← Draw.number 1 segmentBound
  let start ← Draw.position slots.length
  let i     ← Draw.position slots.length
  let room  ← less longestProgram slots.length
  let items ← slice slots start (min (start + size) slots.length)
  let copies ← (items.take room).mapM fun s => return { s with gene := ← s.gene.copy }
  replace slots i i copies

/-- Puts a run of fresh slots before a random slot. -/
def insertStrictly (slots : List Slot) (continueProb : Float) : Build (List Slot) := do
  let len := slots.length
  let i ← Draw.position len
  let first ← fresh len
  let others ← freshRun len continueProb (longestProgram - len - 1)
  replace slots i i (first :: others)

/-- Cuts out a run. -/
def deleteStrictly (slots : List Slot) : Draw (List Slot) := do
  let start ← Draw.position slots.length
  let size  ← Draw.number 1 segmentBound
  replace slots start (min (start + size) slots.length) []

/-- Draws the gene of a random slot anew, once for each draw below `continueProb`. -/
def redrawStrictly (continueProb : Float) (slots : List Slot) : (fuel : Nat) → Build (List Slot)
  | 0        => throwThe Fault .exhausted
  | fuel + 1 => do
    if (← Draw.fraction) < continueProb then
      let i ← Draw.position slots.length
      let slot ← (item slots i : Draw Slot)
      let gene ← Catalog.drawGene slot.gene.index slots.length
      redrawStrictly continueProb (slots.set i { gene, jumpTo := none }) fuel
    else
      return slots

/-- So with every index checked, to duplicate a segment does what it does without checks. -/
theorem duplicateStrictly_eq {slots : List Slot} (h : slots.length ≤ longestProgram) :
    duplicateStrictly slots = duplicate slots := by
  unfold duplicateStrictly duplicate
  refine bind_congr fun size => ?_
  refine (Draw.position_lt _).bind_congr fun start hstart => ?_
  refine (Draw.position_lt _).bind_congr fun i hi => ?_
  rw [less_eq h, pure_bind, slice_eq hstart, pure_bind]
  exact bind_congr fun copies => splice_eq hi

/-- To insert one does too. -/
theorem insertStrictly_eq (slots : List Slot) (continueProb : Float) :
    insertStrictly slots continueProb = insert slots continueProb := by
  unfold insertStrictly insert
  refine (Build.Yields.lift (Draw.position_lt _)).bind_congr fun i hi => ?_
  refine bind_congr fun first => bind_congr fun others => ?_
  rw [splice_eq hi]
  rfl

/-- And to delete one. -/
theorem deleteStrictly_eq (slots : List Slot) : deleteStrictly slots = delete slots := by
  unfold deleteStrictly delete
  refine (Draw.position_lt _).bind_congr fun start hstart => ?_
  exact bind_congr fun size => cut_eq hstart size

/-- And to redraw operands. -/
theorem redrawStrictly_eq (continueProb : Float) :
    ∀ (fuel : Nat) (slots : List Slot),
      redrawStrictly continueProb slots fuel = redraw continueProb slots fuel
  | 0, slots => by
    unfold redrawStrictly redraw
    rfl
  | fuel + 1, slots => by
    unfold redrawStrictly redraw
    refine bind_congr fun roll => ?_
    refine ite_congr rfl (fun _ => ?_) fun _ => rfl
    refine (Build.Yields.lift (Draw.position_lt _)).bind_congr fun i hi => ?_
    rw [item_eq hi, List.getElem?_eq_getElem hi]
    show Catalog.drawGene slots[i].gene.index slots.length >>= _ = _
    exact bind_congr fun gene => redrawStrictly_eq continueProb fuel _

end Slot

/-- Runs one operator strictly. -/
def MutationOperator.applyStrictly (config : EvolutionConfig) (slots : List Slot) (traits : Traits) :
    MutationOperator → Build (List Slot × Traits)
  | duplicateSegment => return (← Slot.duplicateStrictly slots, traits)
  | insertSegment    => return (← Slot.insertStrictly slots config.segmentContinueProb, traits)
  | deleteSegment    => return (← Slot.deleteStrictly slots, traits)
  | mutateMemory     => return (← Slot.redrawStrictly config.segmentContinueProb slots Draw.patience, traits)
  | modifyTraits     => return (slots, ← traits.modify)

/-- **No operator indexes outside of its slots**, and none takes a length below zero. -/
theorem MutationOperator.applyStrictly_eq (op : MutationOperator) (config : EvolutionConfig)
    {slots : List Slot} (h : slots.length ≤ longestProgram) (traits : Traits) :
    op.applyStrictly config slots traits = op.apply config slots traits := by
  -- each operator makes its own checks, and never fails one
  cases op with
  | duplicateSegment =>
    unfold applyStrictly apply
    rw [Slot.duplicateStrictly_eq h]
  | insertSegment =>
    unfold applyStrictly apply
    rw [Slot.insertStrictly_eq]
  | deleteSegment =>
    unfold applyStrictly apply
    rw [Slot.deleteStrictly_eq]
  | mutateMemory =>
    unfold applyStrictly apply
    rw [Slot.redrawStrictly_eq]
  | modifyTraits => rfl

/-- A child's program and traits from those of its parent, by strict operators. -/
def Program.evolveStrictly (parent : Program) (traits : Traits) (config : EvolutionConfig) :
    Build Offspring := do
  let genes ← parent.cloneGenes config.recloneMemory
  if (← Draw.fraction) > traits.mutationRate then
    return { program := ← ofDrawn genes, traits, mutated := false, operator := none }
  else
    let slots := Slot.ofGenes genes
    let operator ← MutationOperator.select slots.length config.operatorWeights
    let (slots, traits) ←
      match operator with
      | some op => op.applyStrictly config slots traits
      | none    => pure (slots, traits)
    let genes ← Slot.repair slots
    return { program := ← ofDrawn genes, traits, mutated := true, operator }

/-- **No operator reaches beyond the end of a list**: reproduction by strict operators is reproduction. -/
theorem Program.evolveStrictly_eq (parent : Program) (traits : Traits) (config : EvolutionConfig) :
    parent.evolveStrictly traits config = parent.evolve traits config := by
  unfold evolveStrictly evolve
  refine (parent.cloneGenes_length _).bind_congr fun genes hgenes => ?_
  refine bind_congr fun roll => ite_congr rfl (fun _ => rfl) fun _ => ?_
  -- a program is never longer than the longest one, so neither is the clone that is edited
  have hslots : (Slot.ofGenes genes).length ≤ longestProgram := hgenes ▸ parent.isProgram.le_longest
  refine bind_congr fun operator => ?_
  cases operator with
  | none => rfl
  | some op =>
    dsimp only
    rw [op.applyStrictly_eq config hslots]

end Vivarium
