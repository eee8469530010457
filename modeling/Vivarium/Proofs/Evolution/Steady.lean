import Vivarium.Proofs.Evolution.Choice
import Vivarium.Proofs.Evolution.Reproduction
import Vivarium.Proofs.Steady

/-!
# Reproduction does not break off

Reproduction draws from ranges that hold something: the programs that it works on have genes, and the runs
that it copies, puts in or cuts out have bounds that are far apart. One condition is not met by itself. The
weights of the operators that are eligible are summed in 32 bits, so they have to fit.

Main result: `Program.evolve_steady`.
-/

namespace Vivarium

/-! ## The choice of an operator -/

/-- The sum of the weights of all operators. -/
def OperatorWeights.total (w : OperatorWeights) : Nat := w.toList.sum

namespace MutationOperator

/-- The eligible operators weigh no more than all operators together. -/
theorem pool_le_total (len : Nat) (weights : OperatorWeights) : pool len weights ≤ weights.total := by
  have hweights : weights.toList = table.map weights.of := rfl
  unfold pool OperatorWeights.total
  rw [hweights]
  refine List.sum_le_sum fun op _ => ?_
  unfold share
  split
  · exact Nat.le_refl _
  · exact Nat.zero_le _

/-- An operator is selected with weights whose sum fits its word. -/
theorem select_steady (len : Nat) {weights : OperatorWeights} (h : weights.total < twoTo 32) :
    (select len weights).Steady :=
  (select_settles (Nat.lt_of_le_of_lt (pool_le_total len weights) h) len).steady

end MutationOperator

/-! ## The operators -/

theorem Gene.copy_steady (g : Gene) : g.copy.Steady := .bind Draw.ident_steady .any fun _ _ => .pure

theorem Traits.modify_steady (t : Traits) : t.modify.Steady := by
  unfold modify
  refine .bind (Draw.chance_steady (by decide +kernel)) .any fun flip _ => .ite (fun _ => ?_) fun _ => ?_
  · exact .bind (Draw.shortNumber_steady (by decide)) .any fun _ _ => .pure
  · exact .bind Draw.fraction_steady .any fun _ _ => .pure

namespace Slot

/-- A segment is chosen from a list that is not empty. -/
theorem duplicate_steady {slots : List Slot} (h : 0 < slots.length) : (duplicate slots).Steady := by
  unfold duplicate
  refine .bind (Draw.number_steady (by decide)) .any fun size _ => ?_
  refine .bind (Draw.position_steady h) .any fun start _ => ?_
  refine .bind (Draw.position_steady h) .any fun i _ => ?_
  exact .bind (.mapM fun s _ => .bind s.gene.copy_steady .any fun _ _ => .pure) .any fun _ _ => .pure

theorem fresh_steady (len : Nat) : (fresh len).Steady :=
  .bind (Catalog.drawAnyGene_steady false len) .any fun _ _ => .pure

/-- A run of fresh slots goes on by chance, as far as there is room. -/
theorem freshRun_steady (len : Nat) (continueProb : Float) : ∀ room, (freshRun len continueProb room).Steady
  | 0 => .bind (.lift Draw.fraction_steady) .any fun _ _ => .pure
  | room + 1 => by
    unfold freshRun
    refine .bind (.lift Draw.fraction_steady) .any fun roll _ => .ite (fun _ => ?_) fun _ => .pure
    refine .bind (fresh_steady len) .any fun _ _ => ?_
    exact .bind (freshRun_steady len continueProb room) .any fun _ _ => .pure

theorem insert_steady {slots : List Slot} (h : 0 < slots.length) (continueProb : Float) :
    (insert slots continueProb).Steady := by
  unfold insert
  refine .bind (.lift (Draw.position_steady h)) .any fun i _ => ?_
  refine .bind (fresh_steady _) .any fun first _ => ?_
  exact .bind (freshRun_steady _ _ _) .any fun _ _ => .pure

theorem delete_steady {slots : List Slot} (h : 0 < slots.length) : (delete slots).Steady := by
  unfold delete
  refine .bind (Draw.position_steady h) .any fun start _ => ?_
  exact .bind (Draw.number_steady (by decide)) .any fun _ _ => .pure

/-- Whether to go on redrawing is a chance as well. -/
theorem redraw_steady (continueProb : Float) :
    ∀ (fuel : Nat) {slots : List Slot}, 0 < slots.length → (redraw continueProb slots fuel).Steady
  | 0, _, _ => .exhausted
  | fuel + 1, slots, h => by
    unfold redraw
    refine .bind (.lift Draw.fraction_steady) .any fun roll _ => .ite (fun _ => ?_) fun _ => .pure
    refine .bind (.lift (Draw.position_steady h)) .any fun i _ => ?_
    refine .bind (Catalog.drawGene_steady _ _) .any fun gene _ => redraw_steady continueProb fuel ?_
    rwa [List.length_set]

/-- Where there is a jump to repair, there is a place for it. -/
theorem repair_steady (slots : List Slot) : (repair slots).Steady := by
  refine .mapM fun s hs => ?_
  unfold repaired
  split
  · exact .pure
  · split
    · exact .pure
    · exact .bind (Draw.position_steady (List.length_pos_of_mem hs)) .any fun _ _ => .pure

end Slot

/-- **No operator breaks off** on slots that are not empty. -/
theorem MutationOperator.apply_steady (op : MutationOperator) (config : EvolutionConfig) {slots : List Slot}
    (h : 0 < slots.length) (traits : Traits) : (op.apply config slots traits).Steady := by
  cases op with
  | duplicateSegment => exact .bind (.lift (Slot.duplicate_steady h)) .any fun _ _ => .pure
  | insertSegment => exact .bind (Slot.insert_steady h _) .any fun _ _ => .pure
  | deleteSegment => exact .bind (.lift (Slot.delete_steady h)) .any fun _ _ => .pure
  | mutateMemory => exact .bind (Slot.redraw_steady _ _ h) .any fun _ _ => .pure
  | modifyTraits => exact .bind (.lift traits.modify_steady) .any fun _ _ => .pure

/-! ## The whole reproduction -/

namespace Program

/-- A clone is made gene by gene, by copying or by drawing. -/
theorem cloneGenes_steady (parent : Program) (reclone : Bool) : (parent.cloneGenes reclone).Steady := by
  refine .mapM fun g _ => .ite (fun _ => Catalog.drawGene_steady _ _) fun _ => .lift g.copy_steady

/-- A clone has as many genes as its parent. -/
theorem cloneGenes_length (parent : Program) (reclone : Bool) :
    Build.Yields (parent.cloneGenes reclone) fun genes => (Slot.ofGenes genes).length = parent.length := by
  refine (Build.Ensures.mono (parent.cloneGenes_ensures reclone) fun genes hgenes => ?_).yields
  unfold Slot.ofGenes
  rw [List.length_map, ← hgenes.length_eq]
  rfl

/-- **A reproduction does not break off**, whatever the parent and its traits, if the weights of the operators
fit into 32 bits together. -/
theorem evolve_steady (parent : Program) (traits : Traits) {config : EvolutionConfig}
    (h : config.operatorWeights.total < twoTo 32) : (parent.evolve traits config).Steady := by
  unfold evolve
  refine .bind (parent.cloneGenes_steady _) (parent.cloneGenes_length _) fun genes hgenes => ?_
  refine .bind (.lift Draw.fraction_steady) .any fun roll _ => .ite (fun _ => ?_) fun _ => ?_
  · exact .bind (ofDrawn_steady genes) .any fun _ _ => .pure
  · have hslots : 0 < (Slot.ofGenes genes).length := hgenes ▸ parent.length_pos
    refine .bind (.lift (MutationOperator.select_steady _ h)) .any fun operator _ => ?_
    -- the jumps are repaired whether or not there was an operator to run
    have hrest (slots : List Slot) (traits : Traits) : Build.Steady (do
        let genes ← (Slot.repair slots : Draw (List Gene))
        return { program := ← ofDrawn genes, traits, mutated := true, operator : Offspring }) :=
      .bind (.lift (Slot.repair_steady slots)) .any fun genes _ =>
        .bind (ofDrawn_steady genes) .any fun _ _ => .pure
    cases operator with
    | none => exact .bind .pure .any fun (slots, traits) _ => hrest slots traits
    | some op =>
      refine .bind (op.apply_steady config hslots traits) .any fun (slots, traits) _ => ?_
      exact hrest slots traits

end Program

end Vivarium
