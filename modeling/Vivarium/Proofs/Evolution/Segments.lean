import Vivarium.Proofs.Evolution.Descent
import Vivarium.Proofs.Evolution.Steady
import Vivarium.Proofs.Random.Attain

/-!
# The segments that are copied and cut out

A segment is a run of genes that are next to each other. Its size is drawn below a bound of ten, which is not
itself drawn, so a segment has one to nine genes, cut short at the end of the program and, if it is copied, at
the most genes that a program can have.

All these segments are found on some source, and no others on any. To tell them apart in the child, the clone is
drawn with distinct identities, which no edit changes.

Main result: `segments_of_one_to_nine_genes`.
-/

namespace Vivarium

/-! ## The only operator that can be chosen -/

namespace MutationOperator

variable {len : Nat} {weights : OperatorWeights} {op : MutationOperator}

/-- **An operator without a rival is chosen**, whatever is drawn. -/
theorem select_run_of_only (hfits : pool len weights < twoTo 32) (hop : Available len weights op)
    (honly : ∀ op', Available len weights op' → op' = op) (s : Source) :
    (select len weights).run s = .ok (some op, s.next64.2) := by
  have hsmall : pool len weights < 2 ^ 53 := Nat.lt_trans hfits (by decide)
  have hpos : 0 < pool len weights := pool_pos_iff.mpr ⟨op, hop⟩
  obtain ⟨draw, hdraw, hlow, hhigh⟩ :=
    Draw.real_run (Double.isWhole_ofNat hsmall).1 (normal_ofNat hpos hsmall) s
  -- the scan finds somebody, and whom it finds is a candidate
  have hzero : Double.IsWhole 0.0 ((0 : Nat) : Int) := by decide +kernel
  obtain ⟨-, op', -, -, hpick, -⟩ :=
    pick?_shares (share len weights) table hzero hlow (by rwa [Nat.zero_add]) (by rwa [Nat.zero_add])
  rw [← candidates_eq] at hpick
  have hmem := pick?_mem hpick
  rw [candidates_eq, List.map_map] at hmem
  obtain ⟨op'', hshare, rfl⟩ := List.mem_map.mp hmem
  have havailable := share_pos_iff.mp (of_decide_eq_true (List.mem_filter.mp hshare).2)
  obtain rfl : op'' = op := honly op'' havailable
  rw [select_of_pos hfits hpos, Draw.bind_run hdraw, StateT.run_pure, hpick]
  rfl

/-- The weights among which only one operator has any. -/
def weightsOnly (w : Nat) : MutationOperator → OperatorWeights
  | duplicateSegment => ⟨w, 0, 0, 0, 0⟩
  | insertSegment    => ⟨0, w, 0, 0, 0⟩
  | deleteSegment    => ⟨0, 0, w, 0, 0⟩
  | mutateMemory     => ⟨0, 0, 0, w, 0⟩
  | modifyTraits     => ⟨0, 0, 0, 0, w⟩

theorem of_weightsOnly (w : Nat) (op op' : MutationOperator) :
    (weightsOnly w op).of op' = if op' = op then w else 0 := by
  cases op <;> cases op' <;> rfl

/-- The only operator with a weight is chosen for every program for which it is eligible. -/
theorem select_weightsOnly {w : Nat} (hw : 0 < w) (hfits : w < 2 ^ 32) (heligible : op.isEligible len = true)
    (s : Source) : (select len (weightsOnly w op)).run s = .ok (some op, s.next64.2) := by
  refine select_run_of_only ?_ ⟨?_, heligible⟩ (fun op' hop' => ?_) s
  · -- all the weight is on one operator, so the pool does not overflow
    have htotal : (weightsOnly w op).total = w := by
      cases op <;> simp [weightsOnly, OperatorWeights.total, OperatorWeights.toList]
    have hpool := pool_le_total len (weightsOnly w op)
    rw [htotal] at hpool
    exact Nat.lt_of_le_of_lt hpool hfits
  · rwa [of_weightsOnly, if_pos rfl]
  · -- any other operator weighs nothing, and is not in the pool
    by_contra hne
    have hweight := hop'.1
    rw [of_weightsOnly, if_neg hne] at hweight
    exact Nat.lt_irrefl 0 hweight

theorem select_weightsOnly_attains {w : Nat} (hw : 0 < w) (hfits : w < 2 ^ 32)
    (heligible : op.isEligible len = true) : (select len (weightsOnly w op)).Attains (some op) :=
  .of_word 0 fun s _ => select_weightsOnly hw hfits heligible s

end MutationOperator

/-! ## What becomes of the clone's genes -/

/-- The genes of the program are these, but for where their jumps lead. -/
def Program.Holds (p : Program) (genes : List Gene) : Prop :=
  List.Forall₂ (fun g h => ∃ goal, h = g.retarget goal) genes p.genes

theorem Program.Holds.length_eq {p : Program} {genes : List Gene} (h : p.Holds genes) :
    p.length = genes.length :=
  (List.Forall₂.length_eq h).symm

/-- Where a jump leads does not touch the identity of its gene. -/
theorem Program.Holds.ids_eq {p : Program} {genes : List Gene} (h : p.Holds genes) :
    p.genes.map (·.id) = genes.map (·.id) :=
  forall₂_map_eq h fun g k hk => by
    obtain ⟨goal, rfl⟩ := hk
    rfl

/-- On the source, a reproduction of the parent begins with the genes `clone` and returns `o`. -/
structure Program.Breeds (parent : Program) (traits : Traits) (config : EvolutionConfig) (s : Source)
    (clone : List Gene) (o : Offspring) : Prop where
  clone_run  : ∃ s', (parent.cloneGenes config.recloneMemory).run.run s = .ok (.ok clone, s')
  evolve_run : ∃ s', (parent.evolve traits config).run.run s = .ok (.ok o, s')
  /-- The genes of the clone are those of the parent, one by one. -/
  clone_of   : List.Forall₂ (Gene.CloneOf config.recloneMemory parent.length) parent.genes clone

theorem Slot.length_ofGenes (clone : List Gene) : (ofGenes clone).length = clone.length := List.length_map _

@[simp] theorem Slot.map_gene_ofGenes (clone : List Gene) : (ofGenes clone).map (·.gene) = clone := by
  simp [ofGenes, Function.comp_def]

namespace Tagged

/-- The genes in tagged slots. -/
def genes (ts : List Tagged) : List Gene := (slots ts).map (·.gene)

@[simp] theorem genes_append (ts us : List Tagged) : genes (ts ++ us) = genes ts ++ genes us := by
  simp [genes]

@[simp] theorem genes_take (ts : List Tagged) (k : Nat) : genes (ts.take k) = (genes ts).take k := by
  simp [genes]

@[simp] theorem genes_drop (ts : List Tagged) (k : Nat) : genes (ts.drop k) = (genes ts).drop k := by
  simp [genes]

@[simp] theorem genes_ofGenes (clone : List Gene) : genes (ofGenes clone) = clone := by
  rw [genes, slots_ofGenes, Slot.map_gene_ofGenes]

/-- Copies of slots hold genes that are alike. -/
theorem alike_of_copies {ts us : List Tagged} (h : List.Forall₂ CopyOf ts us) :
    List.Forall₂ (fun g k => k.Alike g) (genes ts) (genes us) := by
  unfold genes slots
  rw [List.map_map, List.map_map, List.forall₂_map_left_iff, List.forall₂_map_right_iff]
  exact h.imp fun t u hcopy => hcopy.alike

end Tagged

/-- Genes with repaired jumps are the genes of the slots. -/
theorem Program.holds_of_repaired {p : Program} {us : List Tagged}
    (h : List.Forall₂ (Slot.Repaired (Tagged.slots us)) (Tagged.slots us) p.genes) :
    p.Holds (Tagged.genes us) := by
  unfold Holds Tagged.genes
  rw [List.forall₂_map_left_iff]
  exact h.imp fun s g hrepaired => hrepaired.retarget_eq

/-- **A reproduction that returns begins with a clone**, which is left as it is, or edited. -/
theorem Program.breeds_of_run {parent : Program} {traits : Traits} {config : EvolutionConfig} {s s' : Source}
    {x : Except Refusal Offspring} (hrun : (parent.evolve traits config).run.run s = .ok (x, s')) :
    ∃ clone o, x = .ok o ∧ parent.Breeds traits config s clone o ∧
      ((o.mutated = false ∧ o.operator = none ∧ o.program.genes = clone) ∨
        ∃ us, o.mutated = true ∧ EditedBy (Tagged.ofGenes clone) us o.operator ∧
          o.program.Holds (Tagged.genes us)) := by
  obtain ⟨o, rfl, -⟩ := evolve_ensures parent traits config s x s' hrun
  obtain ⟨tr, htraced, hreproduced⟩ := Program.evolve_traced hrun
  have hcloned := evolveTraced_clone htraced
  -- the roll fails and the child is the clone, or it succeeds and the child is what the repair makes of the
  -- edit
  cases hreproduced with
  | @plain clone p hclone hgenes =>
    exact ⟨clone, _, rfl, ⟨hcloned, ⟨s', hrun⟩, hclone⟩, .inl ⟨rfl, rfl, hgenes⟩⟩
  | @mutated clone us operator traits' p hclone hedit htraits hgenes =>
    exact ⟨clone, _, rfl, ⟨hcloned, ⟨s', hrun⟩, hclone⟩, .inr ⟨us, rfl, hedit, holds_of_repaired hgenes⟩⟩

/-! ## Segments -/

namespace Offspring

/-- `size` genes of the clone, from `start` on, are missing from the offspring, and nothing else is changed. -/
def Lacks (clone : List Gene) (start size : Nat) (o : Offspring) : Prop :=
  o.operator = some .deleteSegment ∧ o.program.Holds (clone.take start ++ clone.drop (start + size))

/-- Copies of `size` genes of the clone, from `start` on, are put in before place `i` of the offspring, and nothing
else is changed. -/
def Repeats (clone : List Gene) (start size i : Nat) (o : Offspring) : Prop :=
  o.operator = some .duplicateSegment ∧ ∃ copies,
    List.Forall₂ (fun g k => k.Alike g) ((clone.drop start).take size) copies ∧
    o.program.Holds (clone.take i ++ copies ++ clone.drop i)

end Offspring

namespace Tagged

variable {ts us : List Tagged}

/-- A run that goes beyond the end is the run up to the end. -/
theorem Edited.cut (h : Edited ts .deleteSegment us) :
    ∃ start size, 1 ≤ size ∧ size ≤ 9 ∧ start + size ≤ ts.length ∧
      us = ts.take start ++ ts.drop (start + size) := by
  cases h with
  | @delete start size hstart hsize =>
    have hbound : size < 10 := hsize.2
    refine ⟨start, min size (ts.length - start), by omega, by omega, by omega, ?_⟩
    -- whatever is dropped beyond the end is empty
    rcases Nat.le_total size (ts.length - start) with hle | hle
    · rw [Nat.min_eq_left hle]
    · rw [Nat.min_eq_right hle, List.drop_eq_nil_of_le (by omega), List.drop_eq_nil_of_le (by omega)]

/-- A run that goes beyond the end, or for which there is not enough room, is a shorter run. -/
theorem Edited.copied (h : Edited ts .duplicateSegment us) (hroom : ts.length < longestProgram) :
    ∃ start size i copies, 1 ≤ size ∧ size ≤ 9 ∧ start + size ≤ ts.length ∧ ts.length + size ≤ longestProgram ∧
      i < ts.length ∧ List.Forall₂ CopyOf ((ts.drop start).take size) copies ∧
      us = ts.take i ++ copies ++ ts.drop i := by
  cases h with
  | @duplicate start size i copies hstart hsize hi hcopies =>
    have hbound : size < 10 := hsize.2
    refine ⟨start, min (longestProgram - ts.length) (min size (ts.length - start)), i, copies, by omega, by omega,
      by omega, by omega, hi, ?_, rfl⟩
    -- what is cut off for lack of room leaves a run of the length that is claimed
    have hrun : (Slot.run ts start size).take (longestProgram - ts.length) =
        (ts.drop start).take (min (longestProgram - ts.length) (min size (ts.length - start))) := by
      rw [Slot.run, List.take_take, List.take_eq_take_iff, List.length_drop]
      omega
    rwa [← hrun]

end Tagged

/-! ## No other segments -/

section Sound

variable {parent : Program} {traits : Traits} {config : EvolutionConfig} {s s' : Source}
  {op : MutationOperator} {w : Nat}

/-- A mutation runs the only operator that has a weight. -/
theorem Program.operator_of_weightsOnly {o : Offspring}
    (hrun : (parent.evolve traits config).run.run s = .ok (.ok o, s')) (hmutated : o.mutated = true) (hw : 0 < w)
    (hfits : w < 2 ^ 32) (hweights : config.operatorWeights = op.weightsOnly w)
    (heligible : op.isEligible parent.length = true) : o.operator = some op := by
  cases evolve_rolled hrun with
  | spared _ _ hspared _ =>
    rw [hspared] at hmutated
    cases hmutated
  | @succeeded genes cloned selected hclone _ hselect _ =>
    -- there are as many clones as genes, so the operator is eligible among them as well
    obtain ⟨_, heq, hgenes⟩ := parent.cloneGenes_ensures _ _ _ _ hclone
    cases heq
    have hlength : genes.length = parent.length := hgenes.length_eq.symm
    rw [hweights, hlength, MutationOperator.select_weightsOnly hw hfits heligible] at hselect
    exact (Prod.mk.inj (Except.ok.inj hselect)).1.symm

/-- So the clone is left as it is, or edited by that operator. -/
theorem Program.breeds_weightsOnly {x : Except Refusal Offspring}
    (hrun : (parent.evolve traits config).run.run s = .ok (x, s')) (hw : 0 < w) (hfits : w < 2 ^ 32)
    (hweights : config.operatorWeights = op.weightsOnly w) (heligible : op.isEligible parent.length = true) :
    ∃ clone o, x = .ok o ∧ parent.Breeds traits config s clone o ∧
      ((o.operator = none ∧ o.program.genes = clone) ∨
        ∃ us, o.operator = some op ∧ Tagged.Edited (Tagged.ofGenes clone) op us ∧
          o.program.Holds (Tagged.genes us)) := by
  obtain ⟨clone, o, rfl, hbreeds, ⟨-, hnone, hgenes⟩ | ⟨us, hmutated, hedited, hholds⟩⟩ := breeds_of_run hrun
  · exact ⟨clone, o, rfl, hbreeds, .inl ⟨hnone, hgenes⟩⟩
  · have hoperator := operator_of_weightsOnly hrun hmutated hw hfits hweights heligible
    rw [hoperator] at hedited
    exact ⟨clone, o, rfl, hbreeds, .inr ⟨us, hoperator, hedited.2, hholds⟩⟩

theorem Program.Breeds.length_ofGenes {clone : List Gene} {o : Offspring}
    (h : parent.Breeds traits config s clone o) : (Tagged.ofGenes clone).length = parent.length := by
  rw [Tagged.length_ofGenes]
  exact h.clone_of.length_eq.symm

/-- Whatever is cut out is a segment of one to nine genes. -/
theorem Program.lacks_of_run {x : Except Refusal Offspring}
    (hrun : (parent.evolve traits config).run.run s = .ok (x, s')) (hw : 0 < w) (hfits : w < 2 ^ 32)
    (hweights : config.operatorWeights = MutationOperator.deleteSegment.weightsOnly w)
    (hlong : 25 < parent.length) :
    ∃ clone o, x = .ok o ∧ parent.Breeds traits config s clone o ∧
      ((o.operator = none ∧ o.program.genes = clone) ∨
        ∃ start size, 1 ≤ size ∧ size ≤ 9 ∧ start + size ≤ parent.length ∧ o.Lacks clone start size) := by
  obtain ⟨clone, o, rfl, hbreeds, hplain | ⟨us, hoperator, hedited, hholds⟩⟩ :=
    breeds_weightsOnly hrun hw hfits hweights (decide_eq_true hlong)
  · exact ⟨clone, o, rfl, hbreeds, .inl hplain⟩
  · obtain ⟨start, size, hsize, hbound, hinside, rfl⟩ := hedited.cut
    rw [hbreeds.length_ofGenes] at hinside
    refine ⟨clone, o, rfl, hbreeds, .inr ⟨start, size, hsize, hbound, hinside, hoperator, ?_⟩⟩
    simpa using hholds

/-- Whatever is copied is a segment of one to nine genes, for which there is room. -/
theorem Program.repeats_of_run {x : Except Refusal Offspring}
    (hrun : (parent.evolve traits config).run.run s = .ok (x, s')) (hw : 0 < w) (hfits : w < 2 ^ 32)
    (hweights : config.operatorWeights = MutationOperator.duplicateSegment.weightsOnly w)
    (hroom : parent.length < 60) :
    ∃ clone o, x = .ok o ∧ parent.Breeds traits config s clone o ∧
      ((o.operator = none ∧ o.program.genes = clone) ∨
        ∃ start size i, 1 ≤ size ∧ size ≤ 9 ∧ start + size ≤ parent.length ∧ parent.length + size ≤ 60 ∧
          i < parent.length ∧ o.Repeats clone start size i) := by
  obtain ⟨clone, o, rfl, hbreeds, hplain | ⟨us, hoperator, hedited, hholds⟩⟩ :=
    breeds_weightsOnly hrun hw hfits hweights (decide_eq_true hroom)
  · exact ⟨clone, o, rfl, hbreeds, .inl hplain⟩
  · have hlength := hbreeds.length_ofGenes
    obtain ⟨start, size, i, copies, hsize, hbound, hinside, hfit, hi, hcopies, rfl⟩ :=
      hedited.copied (hlength ▸ hroom)
    rw [hlength] at hinside hfit hi
    refine ⟨clone, o, rfl, hbreeds, .inr ⟨start, size, i, hsize, hbound, hinside, hfit, hi, hoperator,
      Tagged.genes copies, ?_, ?_⟩⟩
    · simpa using Tagged.alike_of_copies hcopies
    · simpa using hholds

end Sound

/-! ## Every segment is attained -/

namespace Slot

variable {slots : List Slot}

theorem delete_attains {start size : Nat} (hsize : 1 ≤ size) (hbound : size ≤ 9)
    (hinside : start + size ≤ slots.length) (hlength : slots.length ≤ longestProgram) :
    (delete slots).Attains (slots.take start ++ slots.drop (start + size)) := by
  have hword : slots.length ≤ 2 ^ 64 := Nat.le_trans hlength (by decide)
  unfold delete
  refine .bind (Draw.position_attains (i := start) (by omega) hword) ?_
  exact .bind (Draw.number_attains hsize (Nat.lt_succ_of_le hbound) (by decide)) (.pure _)

/-- Copies of a run are attained under all identities. -/
theorem duplicate_attains {start size i : Nat} (hsize : 1 ≤ size) (hbound : size ≤ 9)
    (hinside : start + size ≤ slots.length) (hroom : slots.length + size ≤ longestProgram)
    (hi : i < slots.length) (ids : List Ident) (hids : ids.length = size) :
    ∃ copies, copies.map (·.gene.id) = ids ∧
      List.Forall₂ (fun s s' => s'.gene.Alike s.gene) ((slots.drop start).take size) copies ∧
      (duplicate slots).Attains (slots.take i ++ copies ++ slots.drop i) := by
  have hword : slots.length ≤ 2 ^ 64 := Nat.le_trans (by omega) (show longestProgram ≤ 2 ^ 64 by decide)
  have hrun : (run slots start size).take (longestProgram - slots.length) = (slots.drop start).take size := by
    rw [run, List.take_of_length_le]
    rw [List.length_take]
    omega
  have hlength : ids.length = ((slots.drop start).take size).length := by
    rw [List.length_take, List.length_drop]
    omega
  have hcopy : ∀ s ∈ (slots.drop start).take size, ∀ id : Ident, ∃ s' : Slot, s'.gene.id = id ∧
      Draw.Attains (do return { s with gene := ← s.gene.copy }) s' := by
    intro s _ id
    exact ⟨{ s with gene := { s.gene with id } }, rfl, .bind (s.gene.copy_attains id) (.pure _)⟩
  obtain ⟨copies, hcopied, hattained⟩ := Draw.Attains.mapM_keyed (fun s : Slot => s.gene.id) hcopy ids hlength
  -- what is attained is what copying can return at all
  have hcopies : List.Forall₂ (fun s s' : Slot => s'.gene.Alike s.gene) ((slots.drop start).take size) copies := by
    obtain ⟨words, hwords⟩ := hattained
    refine Draw.Ensures.mapM (fun s _ => ?_) _ _ _ (hwords default)
    exact .bind s.gene.copy_ensures fun g hg => .pure hg
  refine ⟨copies, hcopied, hcopies, ?_⟩
  unfold duplicate
  refine .bind (Draw.number_attains hsize (Nat.lt_succ_of_le hbound) (by decide)) ?_
  refine .bind (Draw.position_attains (i := start) (by omega) hword) ?_
  refine .bind (Draw.position_attains hi hword) ?_
  rw [hrun]
  exact .bind hattained (.pure _)

/-- Some repair of the jumps is attained. -/
theorem repair_attains (hlength : slots.length ≤ longestProgram) : ∃ genes, (repair slots).Attains genes := by
  refine Draw.Attains.mapM fun s hs => ?_
  have hpos : 0 < slots.length := List.length_pos_of_mem hs
  unfold repaired
  split
  · exact ⟨_, .pure _⟩
  · split
    · exact ⟨_, .pure _⟩
    · exact ⟨_, .bind (Draw.position_attains hpos (Nat.le_trans hlength (by decide))) (.pure _)⟩

end Slot

/-- A clone is attained under all identities. -/
theorem Program.cloneGenes_attains (parent : Program) (reclone : Bool) (ids : List Ident)
    (hids : ids.length = parent.length) :
    ∃ clone, clone.map (·.id) = ids ∧ Build.Attains (parent.cloneGenes reclone) clone := by
  refine Build.Attains.mapM_keyed Gene.id (fun g hg id => ?_) ids hids
  cases reclone with
  | true =>
    have hlength : parent.length ≤ 2 ^ 64 := Nat.le_trans parent.isProgram.le_longest (by decide)
    exact Catalog.drawGene_attains (parent.isProgram.index_lt hg) hlength id
  | false => exact ⟨_, rfl, .lift (g.copy_attains id)⟩

theorem Program.ofDrawn_attains {genes : List Gene} (h : IsProgram genes) :
    Build.Attains (ofDrawn genes) ⟨genes, h⟩ := by
  unfold ofDrawn
  rw [ofGenes_of_isProgram h]
  exact .pure _

/-- The slots that an operator attains are those of an edit. -/
theorem Tagged.exists_editedBy_of_attains {clone : List Gene} {op : MutationOperator} {config : EvolutionConfig}
    {traits traits' : Traits} {slots : List Slot} (hprogram : IsProgram clone)
    (heligible : op.isEligible clone.length = true)
    (hedit : Build.Attains (op.apply config (Slot.ofGenes clone) traits) (slots, traits')) :
    ∃ us, Tagged.slots us = slots ∧ EditedBy (ofGenes clone) us (some op) := by
  obtain ⟨words, hedited⟩ := hedit
  have hrun := hedited default
  -- the tagged edit makes the same draws, and forgetting its tags gives the slots
  rw [← slots_ofGenes, apply_eq, map_eq_pure_bind] at hrun
  obtain ⟨⟨us, traits''⟩, _, happly, hpure⟩ := Build.bind_inv hrun
  have htagged : 0 < (ofGenes clone).length := by
    rw [length_ofGenes]
    exact Nat.lt_of_lt_of_le (by decide) hprogram.shortest_le
  obtain ⟨_, heq, hop, -⟩ := applyTagged_ensures htagged
    (fun t ht => hprogram.index_lt (mem_ofGenes ht)) config traits op _ _ _ happly
  cases heq
  cases hpure
  exact ⟨us, rfl, (length_ofGenes clone).symm ▸ heligible, hop⟩

/-- **What an operator attains, a reproduction attains**: from every clone that is attained, if the roll of zero
succeeds and the operator is chosen. -/
theorem Program.evolve_attains {parent : Program} {traits : Traits} {config : EvolutionConfig} {clone : List Gene}
    {op : MutationOperator} {slots : List Slot} {traits' : Traits}
    (hclone : Build.Attains (parent.cloneGenes config.recloneMemory) clone)
    (hrate : ¬ 0.0 > traits.mutationRate)
    (hselect : (MutationOperator.select clone.length config.operatorWeights).Attains (some op))
    (hedit : Build.Attains (op.apply config (Slot.ofGenes clone) traits) (slots, traits')) :
    ∃ s o, parent.Breeds traits config s clone o ∧ o.operator = some op ∧
      o.program.Holds (slots.map (·.gene)) := by
  -- what is attained is what the clone, the choice and the edit can be at all
  have hcloneOf : List.Forall₂ (Gene.CloneOf config.recloneMemory parent.length) parent.genes clone :=
    hclone.of_ensures (parent.cloneGenes_ensures _)
  have hprogram : IsProgram clone := isProgram_of_clone hcloneOf
  have heligible : op.isEligible clone.length = true :=
    hselect.of_ensures (MutationOperator.select_ensures _ _) op rfl
  obtain ⟨us, rfl, hedited⟩ := Tagged.exists_editedBy_of_attains hprogram heligible hedit
  have hlength : us.length ≤ longestProgram := by
    refine (hedited.length_bounds ?_ ?_).2 <;> rw [Tagged.length_ofGenes]
    · exact hprogram.shortest_le
    · exact hprogram.le_longest
  have hshort : (Tagged.slots us).length ≤ longestProgram := by rwa [List.length_map]
  obtain ⟨genes, hrepair⟩ := Slot.repair_attains hshort
  have hrepaired := hrepair.of_ensures (Slot.repair_ensures _)
  have hchild : IsProgram genes := isProgram_of_repaired hprogram hedited hrepaired
  -- the roll is the word zero, whose fraction is not above any rate that admits mutations
  have hzero : ¬ Draw.fractionOfWord 0 > traits.mutationRate := by
    rwa [show Draw.fractionOfWord 0 = 0.0 by decide +kernel]
  obtain ⟨s, hcloned, hevolved⟩ : ∃ s,
      (∃ s', (parent.cloneGenes config.recloneMemory).run.run s = .ok (.ok clone, s')) ∧
      ∃ s', (parent.evolve traits config).run.run s =
        .ok (.ok { program := ⟨genes, hchild⟩, traits := traits', mutated := true, operator := some op }, s') := by
    -- the parts of the reproduction one after the other
    unfold evolve
    refine hclone.run_bind (.bind (.lift (Draw.fraction_attains 0)) ?_)
    rw [if_neg hzero]
    refine .bind (.lift ((Slot.length_ofGenes clone).symm ▸ hselect)) (.bind hedit ?_)
    exact .bind (.lift hrepair) (.bind (ofDrawn_attains hchild) (.pure _))
  exact ⟨s, _, ⟨hcloned, hevolved, hcloneOf⟩, rfl, holds_of_repaired hrepaired⟩

/-- There are as many distinct identities as one needs. -/
theorem exists_distinct_idents {n : Nat} (hn : n ≤ 2 ^ 64) : ∃ ids : List Ident, ids.length = n ∧ ids.Nodup := by
  refine ⟨(List.range n).map fun k => ⟨0, UInt64.ofNat k⟩, ?_, ?_⟩
  · rw [List.length_map, List.length_range]
  · refine List.nodup_range.map_on fun k hk l hl heq => ?_
    -- the names differ in their lower halves, which count up
    have hlow : (UInt64.ofNat k).toNat = (UInt64.ofNat l).toNat := congrArg (fun id => id.low.toNat) heq
    have hk' := List.mem_range.mp hk
    have hl' := List.mem_range.mp hl
    rwa [UInt64.toNat_ofNat_of_lt' (Nat.lt_of_lt_of_le hk' hn),
      UInt64.toNat_ofNat_of_lt' (Nat.lt_of_lt_of_le hl' hn)] at hlow

section Exact

variable {parent : Program} {traits : Traits} {config : EvolutionConfig} {w : Nat}

/-- Every segment of one to nine genes is cut out on some source. -/
theorem Program.lacks_attained (hrate : ¬ 0.0 > traits.mutationRate) (hw : 0 < w) (hfits : w < 2 ^ 32)
    (hweights : config.operatorWeights = MutationOperator.deleteSegment.weightsOnly w)
    (hlong : 25 < parent.length) {start size : Nat} (hsize : 1 ≤ size) (hbound : size ≤ 9)
    (hinside : start + size ≤ parent.length) :
    ∃ s clone o, parent.Breeds traits config s clone o ∧ (clone.map (·.id)).Nodup ∧ o.Lacks clone start size := by
  have hmost : parent.length ≤ longestProgram := parent.isProgram.le_longest
  -- names that differ are drawn for the clones, and the source is put together from what each step asks for
  obtain ⟨ids, hids, hdistinct⟩ := exists_distinct_idents (n := parent.length) (Nat.le_trans hmost (by decide))
  obtain ⟨clone, rfl, hclone⟩ := parent.cloneGenes_attains config.recloneMemory ids hids
  have hslots : (Slot.ofGenes clone).length = parent.length := by rw [Slot.length_ofGenes, ← hids, List.length_map]
  have heligible : MutationOperator.deleteSegment.isEligible clone.length = true := by
    rw [← Slot.length_ofGenes, hslots]
    exact decide_eq_true hlong
  have hselect := MutationOperator.select_weightsOnly_attains hw hfits heligible
  rw [← hslots] at hinside hmost
  have hdelete := Slot.delete_attains hsize hbound hinside hmost
  obtain ⟨s, o, hbreeds, hoperator, hholds⟩ :=
    evolve_attains hclone hrate (hweights ▸ hselect) (.bind (.lift hdelete) (.pure (_, traits)))
  refine ⟨s, clone, o, hbreeds, hdistinct, hoperator, ?_⟩
  simpa using hholds

/-- Copies of every segment of one to nine genes are put in at every place on some source, where there is room. -/
theorem Program.repeats_attained (hrate : ¬ 0.0 > traits.mutationRate) (hw : 0 < w) (hfits : w < 2 ^ 32)
    (hweights : config.operatorWeights = MutationOperator.duplicateSegment.weightsOnly w)
    {start size i : Nat} (hsize : 1 ≤ size) (hbound : size ≤ 9) (hinside : start + size ≤ parent.length)
    (hroom : parent.length + size ≤ 60) (hi : i < parent.length) :
    ∃ s clone o, parent.Breeds traits config s clone o ∧ (o.program.genes.map (·.id)).Nodup ∧
      o.Repeats clone start size i := by
  obtain ⟨ids, hids, hdistinct⟩ := exists_distinct_idents (n := parent.length + size) (by omega)
  -- the clone has the first identities, and the copies have the others
  obtain ⟨clone, hcloned, hclone⟩ := parent.cloneGenes_attains config.recloneMemory (ids.take parent.length)
    (by rw [List.length_take]; omega)
  have hslots : (Slot.ofGenes clone).length = parent.length := by
    rw [Slot.length_ofGenes, ← List.length_map (·.id), hcloned, List.length_take]
    omega
  have heligible : MutationOperator.duplicateSegment.isEligible clone.length = true := by
    rw [← Slot.length_ofGenes, hslots]
    exact decide_eq_true (show parent.length < 60 by omega)
  have hselect := MutationOperator.select_weightsOnly_attains hw hfits heligible
  have hrest : (ids.drop parent.length).length = size := by
    rw [List.length_drop]
    omega
  rw [← hslots] at hinside hroom hi
  obtain ⟨copies, hcopied, halike, hduplicate⟩ := Slot.duplicate_attains hsize hbound hinside hroom hi _ hrest
  obtain ⟨s, o, hbreeds, hoperator, hholds⟩ :=
    evolve_attains hclone hrate (hweights ▸ hselect) (.bind (.lift hduplicate) (.pure (_, traits)))
  have hgenes : o.program.Holds (clone.take i ++ copies.map (·.gene) ++ clone.drop i) := by simpa using hholds
  refine ⟨s, clone, o, hbreeds, ?_, hoperator, copies.map (·.gene), ?_, hgenes⟩
  · -- put together, the identities are those that there were
    rw [hgenes.ids_eq, List.map_append, List.map_append, List.map_take, List.map_drop, hcloned, List.map_map,
      show ((·.id) ∘ (·.gene) : Slot → Ident) = (·.gene.id) from rfl, hcopied]
    have hperm : ((ids.take parent.length).take i ++ ids.drop parent.length ++
        (ids.take parent.length).drop i).Perm ids := by
      rw [List.append_assoc]
      refine (List.perm_append_comm.append_left _).trans ?_
      rw [← List.append_assoc, List.take_append_drop, List.take_append_drop]
    exact hperm.nodup_iff.mpr hdistinct
  · rw [List.forall₂_map_right_iff]
    rw [← Slot.map_gene_ofGenes clone, ← List.map_drop, ← List.map_take, List.forall₂_map_left_iff]
    exact halike

end Exact

/-! ## Exactly the segments of one to nine genes -/

/-- **Segments have one to nine genes, and each of them is found.** Whatever the parent, its traits and the
configuration, if mutations are not ruled out and only one operator has a weight:

Where genes may be cut out, for every segment of one to nine genes there is a source on which exactly it is cut
out, and on no source is anything else cut out. Where genes may be copied, for every such segment, and for
every place, there is a source on which exactly copies of it are put in there, if there is room, and on no source
is anything else put in. -/
theorem segments_of_one_to_nine_genes {parent : Program} {traits : Traits} {config : EvolutionConfig} {w : Nat}
    (hrate : ¬ 0.0 > traits.mutationRate) (hw : 0 < w) (hfits : w < 2 ^ 32) :
    (config.operatorWeights = ⟨0, 0, w, 0, 0⟩ → 25 < parent.length →
      (∀ start size, 1 ≤ size → size ≤ 9 → start + size ≤ parent.length →
        ∃ s clone o, parent.Breeds traits config s clone o ∧ (clone.map (·.id)).Nodup ∧
          o.Lacks clone start size) ∧
      ∀ s s' x, (parent.evolve traits config).run.run s = .ok (x, s') →
        ∃ clone o, x = .ok o ∧ parent.Breeds traits config s clone o ∧
          ((o.operator = none ∧ o.program.genes = clone) ∨
            ∃ start size, 1 ≤ size ∧ size ≤ 9 ∧ start + size ≤ parent.length ∧ o.Lacks clone start size)) ∧
    (config.operatorWeights = ⟨w, 0, 0, 0, 0⟩ → parent.length < 60 →
      (∀ start size i, 1 ≤ size → size ≤ 9 → start + size ≤ parent.length → parent.length + size ≤ 60 →
        i < parent.length → ∃ s clone o, parent.Breeds traits config s clone o ∧
          (o.program.genes.map (·.id)).Nodup ∧ o.Repeats clone start size i) ∧
      ∀ s s' x, (parent.evolve traits config).run.run s = .ok (x, s') →
        ∃ clone o, x = .ok o ∧ parent.Breeds traits config s clone o ∧
          ((o.operator = none ∧ o.program.genes = clone) ∨
            ∃ start size i, 1 ≤ size ∧ size ≤ 9 ∧ start + size ≤ parent.length ∧ parent.length + size ≤ 60 ∧
              i < parent.length ∧ o.Repeats clone start size i)) := by
  constructor
  · -- deletion: every run can be taken out, and nothing else is
    intro hweights hlong
    constructor
    · intro start size hsize hbound hinside
      exact Program.lacks_attained hrate hw hfits hweights hlong hsize hbound hinside
    · intro s s' x hrun
      exact Program.lacks_of_run hrun hw hfits hweights hlong
  · -- duplication: every run can be put anywhere, as long as there is room for it
    intro hweights hroom
    constructor
    · intro start size i hsize hbound hinside hfit hi
      exact Program.repeats_attained hrate hw hfits hweights hsize hbound hinside hfit hi
    · intro s s' x hrun
      exact Program.repeats_of_run hrun hw hfits hweights hroom

/-- Of attackers the last nine genes can be cut out, and copies of the first nine can be put in before the last. -/
theorem segments_of_one_to_nine_genes_pouncing :
    ¬ 0.0 > ({ mutationRate := 1.0 } : Traits).mutationRate ∧ Program.pouncing.length = 26 ∧
      (∃ s clone o, Program.pouncing.Breeds { mutationRate := 1.0 } .cutting s clone o ∧
        (clone.map (·.id)).Nodup ∧ o.Lacks clone 17 9) ∧
      ∃ s clone o, Program.pouncing.Breeds { mutationRate := 1.0 } .duplicating s clone o ∧
        (o.program.genes.map (·.id)).Nodup ∧ o.Repeats clone 0 9 25 := by
  have hrate : ¬ 0.0 > ({ mutationRate := 1.0 } : Traits).mutationRate := by decide +kernel
  obtain ⟨hcut, -⟩ := @segments_of_one_to_nine_genes .pouncing _ .cutting 1 hrate (by decide) (by decide)
  obtain ⟨-, hcopy⟩ := @segments_of_one_to_nine_genes .pouncing _ .duplicating 1 hrate (by decide) (by decide)
  exact ⟨hrate, by decide, (hcut rfl (by decide)).1 17 9 (by decide) (by decide) (by decide),
    (hcopy rfl (by decide)).1 0 9 25 (by decide) (by decide) (by decide) (by decide) (by decide)⟩

/-- **Ten genes are never cut out** of attackers, whatever is drawn, although there are enough of them. -/
theorem ten_genes_are_never_cut :
    25 < Program.pouncing.length ∧ ∀ s clone o,
      Program.pouncing.Breeds { mutationRate := 1.0 } .cutting s clone o → ¬ o.Lacks clone 0 10 := by
  refine ⟨by decide, fun s clone o hbreeds ⟨hoperator, hlacks⟩ => ?_⟩
  obtain ⟨s', hrun⟩ := hbreeds.evolve_run
  obtain ⟨clone', o', heq, hbreeds', ⟨hnone, -⟩ | ⟨start, size, -, hbound, hinside, -, hholds⟩⟩ :=
    Program.lacks_of_run (w := 1) hrun (by decide) (by decide) rfl (by decide)
  · cases heq
    rw [hnone] at hoperator
    cases hoperator
  · -- sixteen genes would be left, but there are seventeen at least
    cases heq
    have hshort := hlacks.length_eq
    have hleft := hholds.length_eq
    have hlength : clone.length = 26 := hbreeds.clone_of.length_eq.symm
    have hlength' : clone'.length = 26 := hbreeds'.clone_of.length_eq.symm
    rw [List.length_append, List.length_take, List.length_drop] at hshort hleft
    omega

end Vivarium
