import Mathlib.Data.List.Nodup
import Vivarium.Proofs.Evolution.Reproduction

/-!
# Jump repair keeps the control flow

A jump names its goal by a place in the program, and the operators move genes to other places. Before the
edit each slot remembers the identity of the gene that its jump leads to, and afterwards the jump is
pointed at the place where that gene now is. Two facts make this right: the slots that hold the clone's
own genes are a sublist of the clone's slots (`Edited.kept_sublist`), so each of its genes is at one place
at most, and identities tell these genes from copies and from drawn ones.

Main result: `repaired_jumps_follow_genes`.
-/

namespace Vivarium

namespace Trace

/-- The origin of the gene at a place of the child. -/
def origin? (tr : Trace) (place : Nat) : Option Origin := (tr.edited[place]?).map (·.origin)

/-- The identities that were drawn for the clone's genes, and for the genes that the operator brought
in, are pairwise distinct. An identity that was drawn for a slot and then overwritten may be any. -/
def Distinct (tr : Trace) : Prop :=
  (tr.clone.map (·.id) ++ (tr.edited.filter (!·.isKept)).map (·.slot.gene.id)).Nodup

instance (tr : Trace) : Decidable tr.Distinct := by
  unfold Distinct
  infer_instance

/-- What holds between a clone and the genes of the child that it was edited and repaired into. -/
structure Preserves (tr : Trace) (genes : List Gene) : Prop where
  /-- The genes of the clone that are still there are those whose identities are. -/
  kept_iff  : ∀ place c i g, genes[place]? = some c → tr.clone[i]? = some g →
    (tr.origin? place = some (.kept i) ↔ c.id = g.id)
  /-- A gene of the clone, and a copy of one, has kept everything but the goal of its jump. -/
  constants : ∀ place c i g, genes[place]? = some c → (tr.origin? place).bind (·.model?) = some i →
    tr.clone[i]? = some g →
      c.index = g.index ∧ c.timeCost = g.timeCost ∧ ∃ goal, c.instruction = g.instruction.retarget goal
  /-- It jumps to the place of the gene that it jumped to in the clone, if that gene is still there. -/
  follows   : ∀ place c i g t target, genes[place]? = some c →
    (tr.origin? place).bind (·.model?) = some i → tr.clone[i]? = some g →
      g.instruction.target? = some t → tr.origin? target = some (.kept t) →
        c.instruction.target? = some target

end Trace

/-! ## The slots of a clone -/

namespace Tagged

/-- The slot of the gene `g` of a clone. -/
theorem getElem?_slot_ofGenes {genes : List Gene} {i : Nat} {g : Gene} (h : genes[i]? = some g) :
    (Slot.ofGenes genes)[i]? = some
      { gene := g, jumpTo := (g.instruction.target?.bind fun goal => genes[goal]?).map (·.id) } := by
  unfold Slot.ofGenes
  rw [List.getElem?_map, h, Option.map_some]

/-- A slot of a clone is the slot of one of its genes. -/
theorem gene_of_getElem?_slot {genes : List Gene} {i : Nat} {s : Slot}
    (h : (Slot.ofGenes genes)[i]? = some s) : genes[i]? = some s.gene := by
  unfold Slot.ofGenes at h
  rw [List.getElem?_map] at h
  obtain ⟨g, hg, rfl⟩ := Option.map_eq_some_iff.mp h
  exact hg

/-- What is tagged at first is each gene under its own place. -/
theorem mem_ofGenes_iff {genes : List Gene} {t : Tagged} :
    t ∈ ofGenes genes ↔ ∃ i, t.origin = .kept i ∧ (Slot.ofGenes genes)[i]? = some t.slot := by
  unfold ofGenes
  rw [List.mem_map]
  constructor
  · rintro ⟨⟨s, i⟩, hmem, rfl⟩
    exact ⟨i, rfl, List.mk_mem_zipIdx_iff_getElem?.mp hmem⟩
  · rintro ⟨i, horigin, hslot⟩
    refine ⟨(t.slot, i), List.mk_mem_zipIdx_iff_getElem?.mpr hslot, ?_⟩
    show (⟨t.slot, .kept i⟩ : Tagged) = t
    rw [← horigin]

theorem faithful_of_mem_ofGenes {genes : List Gene} {t : Tagged} (h : t ∈ ofGenes genes) :
    Faithful genes t := by
  obtain ⟨i, horigin, hslot⟩ := mem_ofGenes_iff.mp h
  intro j hj
  rw [horigin] at hj
  cases hj
  exact ⟨t.slot, hslot, rfl, Gene.Alike.refl _⟩

/-- The tags do not change the identities. -/
theorem map_id_ofGenes (genes : List Gene) :
    (ofGenes genes).map (·.slot.gene.id) = genes.map (·.id) := by
  have hslots : (slots (ofGenes genes)).map (·.gene.id) = genes.map (·.id) := by
    rw [slots_ofGenes]
    simp [Slot.ofGenes, Function.comp_def]
  rw [← hslots, List.map_map]
  rfl

end Tagged

section Edit

variable {genes : List Gene} {us : List Tagged} {operator : Option MutationOperator}

/-- Whatever was edited, the slots are faithful to the clone. -/
theorem EditedBy.faithful (h : EditedBy (Tagged.ofGenes genes) us operator) :
    ∀ u ∈ us, Tagged.Faithful genes u := by
  have hclone : ∀ t ∈ Tagged.ofGenes genes, Tagged.Faithful genes t :=
    fun t ht => Tagged.faithful_of_mem_ofGenes ht
  cases operator with
  | none =>
    rw [show us = Tagged.ofGenes genes from h]
    exact hclone
  | some op => exact h.2.faithful hclone

/-- The genes that are kept are kept in order. -/
theorem EditedBy.kept_sublist (h : EditedBy (Tagged.ofGenes genes) us operator) :
    (us.filter Tagged.isKept).Sublist (Tagged.ofGenes genes) := by
  cases operator with
  | none =>
    rw [show us = Tagged.ofGenes genes from h]
    exact List.filter_sublist
  | some op => exact h.2.kept_sublist.trans List.filter_sublist

/-- A kept slot is the clone's own. -/
theorem EditedBy.slot_of_kept (h : EditedBy (Tagged.ofGenes genes) us operator) {u : Tagged}
    (hu : u ∈ us) {i : Nat} (horigin : u.origin = .kept i) :
    (Slot.ofGenes genes)[i]? = some u.slot := by
  -- it is one of the slots that were kept, and these are some of the given ones, in their order
  have hkept : u ∈ us.filter Tagged.isKept := by
    rw [List.mem_filter]
    refine ⟨hu, ?_⟩
    unfold Tagged.isKept
    rw [horigin]
    rfl
  obtain ⟨j, hj, hslot⟩ := Tagged.mem_ofGenes_iff.mp (h.kept_sublist.subset hkept)
  rw [horigin] at hj
  cases hj
  exact hslot

/-- It holds the gene that it held before. -/
theorem EditedBy.gene_of_kept (h : EditedBy (Tagged.ofGenes genes) us operator) {u : Tagged} (hu : u ∈ us)
    {i : Nat} (horigin : u.origin = .kept i) : genes[i]? = some u.slot.gene :=
  Tagged.gene_of_getElem?_slot (h.slot_of_kept hu horigin)

/-- A gene of the clone, or a copy of one, has kept everything but its identity, and its slot remembers where
the jump of that gene led. -/
theorem EditedBy.alike (h : EditedBy (Tagged.ofGenes genes) us operator) {u : Tagged} (hu : u ∈ us) {i : Nat}
    {g : Gene} (hmodel : u.origin.model? = some i) (hg : genes[i]? = some g) :
    u.slot.jumpTo = (g.instruction.target?.bind fun goal => genes[goal]?).map (·.id) ∧
      u.slot.gene.Alike g := by
  obtain ⟨s, hs, hjump, halike⟩ := h.faithful u hu i hmodel
  rw [Tagged.getElem?_slot_ofGenes hg] at hs
  cases hs
  exact ⟨hjump, halike⟩

/-- With distinct drawn identities, each identity is found at one place of the edited clone. -/
theorem EditedBy.ids_nodup (h : EditedBy (Tagged.ofGenes genes) us operator)
    (hdistinct : Trace.Distinct ⟨genes, us⟩) : (us.map (·.slot.gene.id)).Nodup := by
  have hkept : ((us.filter Tagged.isKept).map (·.slot.gene.id)).Sublist (genes.map (·.id)) := by
    rw [← Tagged.map_id_ofGenes]
    exact h.kept_sublist.map _
  -- the kept slots and the others make up all slots
  have hparts := List.Nodup.sublist (hkept.append_right _) hdistinct
  rw [← List.map_append] at hparts
  exact ((List.filter_append_perm Tagged.isKept us).map _).nodup_iff.mp hparts

/-- With distinct drawn identities, the slot with the identity of a gene of the clone is that of this gene. -/
theorem EditedBy.kept_of_id (h : EditedBy (Tagged.ofGenes genes) us operator)
    (hdistinct : Trace.Distinct ⟨genes, us⟩) {u : Tagged} (hu : u ∈ us) {i : Nat} {g : Gene}
    (hg : genes[i]? = some g) (hid : u.slot.gene.id = g.id) : u.origin = .kept i := by
  have hclone : g.id ∈ genes.map (·.id) := List.mem_map_of_mem (List.mem_of_getElem? hg)
  obtain ⟨hnodup, -, hdisjoint⟩ := List.nodup_append.mp hdistinct
  cases horigin : u.origin with
  | kept j =>
    -- two genes of the clone with one identity are the same gene
    have hgene := h.gene_of_kept hu horigin
    have hids : (genes.map (·.id))[j]? = (genes.map (·.id))[i]? := by
      rw [List.getElem?_map, List.getElem?_map, hgene, hg, Option.map_some, Option.map_some, hid]
    obtain ⟨hlt, -⟩ := List.getElem?_eq_some_iff.mp hgene
    rw [(List.getElem?_inj (by rwa [List.length_map]) hnodup).mp hids]
  | _ =>
    -- a gene that the operator brought in has an identity that no gene of the clone has
    have hnew : u.slot.gene.id ∈ (us.filter (!·.isKept)).map (·.slot.gene.id) := by
      refine List.mem_map_of_mem (List.mem_filter.mpr ⟨hu, ?_⟩)
      unfold Tagged.isKept
      rw [horigin]
      rfl
    exact absurd hid.symm (hdisjoint _ hclone _ hnew)

end Edit

/-- An identity that one slot has is found at the place of that slot. -/
theorem Slot.find?_eq_of_nodup {slots : List Slot} (hnodup : (slots.map (·.gene.id)).Nodup)
    {place : Nat} {s : Slot} (hs : slots[place]? = some s) :
    Slot.find? slots s.gene.id = some place := by
  obtain ⟨hlt, hget⟩ := List.getElem?_eq_some_iff.mp hs
  unfold Slot.find?
  rw [List.findIdx?_eq_some_iff_getElem]
  refine ⟨hlt, by rw [hget, beq_self_eq_true], fun j hj hfound => ?_⟩
  rw [beq_iff_eq, ← hget] at hfound
  -- an earlier slot of that name would make the name stand in two places
  have hmap : (slots.map (·.gene.id))[j]? = (slots.map (·.gene.id))[place]? := by
    rw [List.getElem?_map, List.getElem?_map, List.getElem?_eq_getElem (by omega),
      List.getElem?_eq_getElem hlt, Option.map_some, Option.map_some, hfound]
  have heq : j = place := (List.getElem?_inj (by rw [List.length_map]; omega) hnodup).mp hmap
  omega

/-! ## The repaired child -/

section Repaired

variable {clone genes : List Gene} {us : List Tagged} {operator : Option MutationOperator}

/-- Each gene of the child is the repaired gene of the slot in its place. -/
theorem repaired_of_getElem?
    (hgenes : List.Forall₂ (Slot.Repaired (Tagged.slots us)) (Tagged.slots us) genes)
    {place : Nat} {c : Gene} (hc : genes[place]? = some c) :
    ∃ u, us[place]? = some u ∧ u.slot.Repaired (Tagged.slots us) c := by
  obtain ⟨s, hs, hrepaired⟩ := forall₂_getElem?_right hgenes hc
  rw [List.getElem?_map] at hs
  obtain ⟨u, hu, rfl⟩ := Option.map_eq_some_iff.mp hs
  exact ⟨u, hu, hrepaired⟩

theorem Trace.origin?_eq {tr : Trace} {place : Nat} {u : Tagged} (hu : tr.edited[place]? = some u) :
    tr.origin? place = some u.origin := by
  unfold Trace.origin?
  rw [hu, Option.map_some]

/-- The repair does not touch identities. -/
theorem Slot.Repaired.id_eq {slots : List Slot} {s : Slot} {c : Gene} (h : s.Repaired slots c) :
    c.id = s.gene.id := by
  obtain ⟨goal, rfl⟩ := h.retarget_eq
  rfl

/-- **An edit and the repair after it preserve what the trace says**: a kept gene keeps its identity, and a jump
to a gene that is still there leads to it. -/
theorem EditedBy.preserves (hedit : EditedBy (Tagged.ofGenes clone) us operator)
    (hgenes : List.Forall₂ (Slot.Repaired (Tagged.slots us)) (Tagged.slots us) genes)
    (hdistinct : Trace.Distinct ⟨clone, us⟩) : Trace.Preserves ⟨clone, us⟩ genes where
  kept_iff := by
    intro place c i g hc hg
    obtain ⟨u, hu, hrepaired⟩ := repaired_of_getElem? hgenes hc
    have hmem : u ∈ us := List.mem_of_getElem? hu
    rw [Trace.origin?_eq hu, hrepaired.id_eq, Option.some.injEq]
    refine ⟨fun horigin => ?_, hedit.kept_of_id hdistinct hmem hg⟩
    -- a kept slot is the clone's own
    have hgene := hedit.gene_of_kept hmem horigin
    rw [hg, Option.some.injEq] at hgene
    rw [hgene]
  constants := by
    intro place c i g hc hmodel hg
    obtain ⟨u, hu, hrepaired⟩ := repaired_of_getElem? hgenes hc
    rw [Trace.origin?_eq hu] at hmodel
    obtain ⟨-, halike⟩ := hedit.alike (List.mem_of_getElem? hu) hmodel hg
    obtain ⟨goal, rfl⟩ := hrepaired.retarget_eq
    refine ⟨halike.index_eq, halike.timeCost_eq, goal, ?_⟩
    show u.slot.gene.instruction.retarget goal = g.instruction.retarget goal
    rw [halike.instruction_eq]
  follows := by
    intro place c i g t target hc hmodel hg ht htarget
    obtain ⟨u, hu, hrepaired⟩ := repaired_of_getElem? hgenes hc
    rw [Trace.origin?_eq hu] at hmodel
    obtain ⟨hjump, halike⟩ := hedit.alike (List.mem_of_getElem? hu) hmodel hg
    -- the slot at the target still holds the gene that the clone's jump led to
    obtain ⟨v, hv, horigin⟩ := Option.map_eq_some_iff.mp htarget
    have hgene := hedit.gene_of_kept (List.mem_of_getElem? hv) horigin
    have hplace : (Tagged.slots us)[target]? = some v.slot := by
      rw [List.getElem?_map, hv, Option.map_some]
    have hfind : Slot.find? (Tagged.slots us) v.slot.gene.id = some target := by
      refine Slot.find?_eq_of_nodup ?_ hplace
      rw [List.map_map]
      exact hedit.ids_nodup hdistinct
    -- the slot remembers that gene, and no other has its identity
    refine hrepaired.follows t target ?_ ?_
    · rw [halike.instruction_eq]
      exact ht
    · rw [hjump, ht, Option.bind_some, hgene, Option.map_some, Option.bind_some]
      exact hfind

end Repaired

/-- **Jump repair preserves the control flow.** Whenever a reproduction returns a mutated child, all jumps
of the child stay inside its program. If moreover the drawn identities are distinct, each gene of the
child that is a gene of the clone, or a copy of one, differs from it in the goal of its jump at most, and
if the gene that the clone's jump led to is still there, then the child's jump leads to that very gene. -/
theorem repaired_jumps_follow_genes {parent : Program} {traits : Traits} {config : EvolutionConfig}
    {s s' : Source} {child : Offspring}
    (hrun : (parent.evolve traits config).run.run s = .ok (.ok child, s'))
    (hmutated : child.mutated = true) :
    ∃ tr, (parent.evolveTraced traits config).run.run s = .ok (.ok (child, tr), s') ∧
      (∃ s₁, (parent.cloneGenes config.recloneMemory).run.run s = .ok (.ok tr.clone, s₁)) ∧
      tr.edited.length = child.program.length ∧
      (∀ c ∈ child.program.genes, ∀ goal, c.instruction.target? = some goal →
        goal < child.program.length) ∧
      (tr.Distinct → tr.Preserves child.program.genes) := by
  rw [evolve_eq_fst_evolveTraced, map_eq_pure_bind] at hrun
  obtain ⟨⟨o, tr⟩, s₁, htraced, hpure⟩ := Build.bind_inv hrun
  cases hpure
  obtain ⟨_, hvalue, hreproduced⟩ := evolveTraced_ensures parent traits config _ _ _ htraced
  cases hvalue
  refine ⟨tr, htraced, evolveTraced_clone htraced, ?_⟩
  cases hreproduced with
  -- without a mutation there is nothing to show
  | plain _ _ => cases hmutated
  | @mutated clone us operator traits' p hclone hedit htraits hgenes =>
    have hlength : us.length = p.length := by
      rw [← List.length_map (·.slot), hgenes.length_eq]
      rfl
    refine ⟨hlength, fun c hc goal hgoal => ?_, fun hdistinct => hedit.preserves hgenes hdistinct⟩
    obtain ⟨slot, -, hrepaired⟩ := forall₂_mem_right hgenes hc
    have hlt := hrepaired.target_lt goal hgoal
    rwa [List.length_map, hlength] at hlt

/-- Twenty genes, every other one a jump seven genes on, around the end. -/
def Program.pacing : Program where
  genes := (List.range 20).map fun i =>
    if i % 2 = 0 then ⟨.ofNat i, 10, 5, .jump .nearFood ((i + 7) % 20)⟩
    else ⟨.ofNat i, 13, 50, .attack⟩
  isProgram := ⟨by decide, by decide, by decide⟩

/-- The only operator that may run is the one that copies a segment. -/
def EvolutionConfig.duplicating : EvolutionConfig :=
  { recloneMemory := false, operatorWeights := ⟨1, 0, 0, 0, 0⟩ }

theorem repaired_jumps_follow_genes_pacing :
    ∃ child s' tr,
      (Program.pacing.evolve { mutationRate := 1.0 } .duplicating).run.run (.ofSeed 3) =
        .ok (.ok child, s') ∧
      child.mutated = true ∧ Program.pacing.length < child.program.length ∧
      (Program.pacing.evolveTraced { mutationRate := 1.0 } .duplicating).run.run (.ofSeed 3) =
        .ok (.ok (child, tr), s') ∧
      tr.Distinct ∧ tr.Preserves child.program.genes := by
  -- the traced run is evaluated once, and what it yields is taken apart below
  have hcheck : (match
      (Program.pacing.evolveTraced { mutationRate := 1.0 } .duplicating).run.run (.ofSeed 3) with
      | .ok (.ok (child, tr), _) =>
        child.mutated && decide (Program.pacing.length < child.program.length) && decide tr.Distinct
      | _ => false) = true := by decide +kernel
  split at hcheck
  · rename_i child tr s' htraced
    simp only [Bool.and_eq_true, decide_eq_true_eq] at hcheck
    obtain ⟨⟨hmutated, hlonger⟩, hdistinct⟩ := hcheck
    have hrun : (Program.pacing.evolve { mutationRate := 1.0 } .duplicating).run.run (.ofSeed 3) =
        .ok (.ok child, s') := by
      rw [evolve_eq_fst_evolveTraced, ExceptT.run_map, StateT.run_map, htraced]
      rfl
    obtain ⟨tr', htraced', -, -, -, hpreserves⟩ := repaired_jumps_follow_genes hrun hmutated
    rw [htraced] at htraced'
    cases htraced'
    exact ⟨child, s', tr, hrun, hmutated, hlonger, htraced, hdistinct, hpreserves hdistinct⟩
  · cases hcheck

end Vivarium
