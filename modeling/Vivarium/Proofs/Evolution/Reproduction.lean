import Vivarium.Proofs.Evolution.Edit

/-!
# What a reproduction returns

`Reproduced parent traits config o tr` says everything that a reproduction can return: the genes of the
clone, how the operator edited them, and what the repair of the jumps made of the edited slots.

Main results:

* `evolveTraced_ensures`: a reproduction is never refused, whatever the parent, and returns what the
  relation says.
* `Reproduced.executable`: the offspring of an executable program is executable.
-/

namespace Vivarium

/-! ## The clone -/

/-- `h` is the clone's copy of the parent's gene `g`: of the same kind, with the constants of `g`, or with
constants drawn anew for a program of `len` genes. -/
structure Gene.CloneOf (reclone : Bool) (len : Nat) (g h : Gene) : Prop where
  index_eq  : h.index = g.index
  inherited : reclone = false → h.Alike g
  redrawn   : reclone = true → h.Fits len

/-- Gene by gene, the clone of a program is a clone. -/
theorem Program.cloneGenes_ensures (parent : Program) (reclone : Bool) :
    Build.Ensures (parent.cloneGenes reclone)
      (List.Forall₂ (Gene.CloneOf reclone parent.length) parent.genes) := by
  refine .mapM fun g hg => ?_
  -- a clone is drawn anew or copied, and either has the index of the gene
  cases reclone with
  | true =>
    refine (Catalog.drawGene_ensures (parent.isProgram.index_lt hg)).mono fun h hh => ?_
    refine ⟨hh.2, nofun, fun _ => ?_⟩
    have hfits := hh.1
    rwa [Nat.max_eq_left parent.length_pos] at hfits
  | false =>
    exact .lift (g.copy_ensures.mono fun h hh => ⟨hh.index_eq, fun _ => hh, nofun⟩)

/-- The clone of a catalogued gene is listed under its own instruction. -/
theorem Gene.CloneOf.index_catalogued {reclone : Bool} {len : Nat} {g h : Gene}
    (hclone : Gene.CloneOf reclone len g h) (hg : g.index = g.instruction.catalogIndex) :
    h.index = h.instruction.catalogIndex := by
  cases reclone with
  | true => exact (hclone.redrawn rfl).index_eq
  | false =>
    have halike := hclone.inherited rfl
    rw [halike.index_eq, halike.instruction_eq, hg]

/-- The clone of a gene that fits fits. -/
theorem Gene.CloneOf.fits {reclone : Bool} {len : Nat} {g h : Gene}
    (hclone : Gene.CloneOf reclone len g h) (hg : g.Fits len) : h.Fits len := by
  cases reclone with
  | true => exact hclone.redrawn rfl
  | false =>
    have halike := hclone.inherited rfl
    refine ⟨⟨hclone.index_catalogued hg.index_eq, ?_⟩, ?_⟩
    · rw [halike.index_eq, halike.timeCost_eq]
      exact hg.cost_eq
    · rw [halike.instruction_eq]
      exact hg.target_lt

/-- The genes of a clone are a program. -/
theorem isProgram_of_clone {parent : Program} {reclone : Bool} {genes : List Gene}
    (h : List.Forall₂ (Gene.CloneOf reclone parent.length) parent.genes genes) : IsProgram genes where
  shortest_le := h.length_eq ▸ parent.isProgram.shortest_le
  le_longest  := h.length_eq ▸ parent.isProgram.le_longest
  catalogued  := fun g hg => by
    obtain ⟨g', hg', hclone⟩ := forall₂_mem_right h hg
    exact hclone.index_catalogued (parent.isProgram.catalogued g' hg')

/-! ## The choice of an operator -/

/-- What is picked is one of the operators that there are. -/
theorem MutationOperator.pick?_mem {draw : Float} {op : MutationOperator} :
    ∀ {ops : List (MutationOperator × Nat)} {sum : Float},
      pick? draw sum ops = some op → op ∈ ops.map (·.1)
  | [], _, h => by cases h
  | (op', w) :: ops, sum, h => by
    simp only [pick?] at h
    split at h
    · cases h
      exact List.mem_cons_self
    · exact List.mem_cons_of_mem op' (pick?_mem h)

/-- Only an eligible operator is chosen. -/
theorem MutationOperator.select_ensures (len : Nat) (weights : OperatorWeights) :
    Draw.Ensures (select len weights) fun chosen => ∀ op, chosen = some op → op.isEligible len := by
  unfold select
  -- what has been picked is a candidate, and candidates are eligible
  refine .ite (fun _ => .throw) fun _ => .ite (fun _ => .pure ?_) fun _ => ?_
  · intro op hop
    cases hop
  · refine .bind .any fun draw _ => .pure fun op hop => ?_
    obtain ⟨⟨op', w⟩, hmem, rfl⟩ := List.mem_map.mp (pick?_mem hop)
    have hfilter := (List.mem_filter.mp hmem).2
    rw [Bool.and_eq_true] at hfilter
    exact hfilter.2

/-! ## The repair of the jumps -/

/-- Without a jump there is nothing to retarget. -/
theorem Instruction.retarget_of_straight {i : Instruction} (h : i.target? = none) (goal : Nat) :
    i.retarget goal = i := by
  cases i with
  | jump c goal => cases h
  | _ => rfl

namespace Slot

/-- What the repair of its jump makes of a slot among `slots`: the same gene, whose jump leads to one of
the slots, and to the remembered gene if that is among them. -/
structure Repaired (slots : List Slot) (s : Slot) (g : Gene) : Prop where
  retarget_eq : ∃ goal, g = s.gene.retarget goal
  target_lt   : ∀ goal, g.instruction.target? = some goal → goal < slots.length
  follows     : ∀ goal place, s.gene.instruction.target? = some goal →
    s.jumpTo.bind (find? slots) = some place → g.instruction.target? = some place

/-- A gene is found at one of the places that there are. -/
theorem find?_lt {slots : List Slot} {id : Ident} {place : Nat} (h : find? slots id = some place) :
    place < slots.length :=
  (List.findIdx?_eq_some_iff_getElem.mp h).1

/-- **A slot is repaired** by where its jump leads: to the place of the gene that it led to, if there is one,
and elsewhere to a place that is drawn. -/
theorem repaired_ensures (slots : List Slot) (s : Slot) :
    Draw.Ensures (repaired slots s) (Repaired slots s) := by
  -- a jump that is pointed at a place inside leads there
  have target_retarget {place goal : Nat}
      (hgoal : (s.gene.retarget place).instruction.target? = some goal) : goal = place := by
    unfold Gene.retarget at hgoal
    rw [Instruction.target?_retarget] at hgoal
    cases htarget : s.gene.instruction.target? with
    | none => rw [htarget] at hgoal; cases hgoal
    | some _ => rw [htarget] at hgoal; cases hgoal; rfl
  unfold repaired
  split
  · rename_i hstraight
    refine .pure ⟨⟨0, ?_⟩, ?_, ?_⟩
    · unfold Gene.retarget
      rw [Instruction.retarget_of_straight hstraight]
    · intro goal hgoal
      rw [hstraight] at hgoal
      cases hgoal
    · intro goal place hgoal
      rw [hstraight] at hgoal
      cases hgoal
  · split
    -- the remembered gene is still there
    · rename_i place hplace
      have hlt : place < slots.length := by
        obtain ⟨id, -, hfind⟩ := Option.bind_eq_some_iff.mp hplace
        exact find?_lt hfind
      refine .pure ⟨⟨place, rfl⟩, fun goal hgoal => ?_, fun goal place' hgoal hplace' => ?_⟩
      · rw [target_retarget hgoal]
        exact hlt
      · rw [hplace] at hplace'
        cases hplace'
        unfold Gene.retarget
        rw [Instruction.target?_retarget, hgoal, Option.map_some]
    -- it is gone, and any place will do
    · rename_i hgone
      refine .bind (Draw.position_lt _) fun place hlt => .pure ⟨⟨place, rfl⟩, fun goal hgoal => ?_, ?_⟩
      · rw [target_retarget hgoal]
        exact hlt
      · intro goal place' _ hplace'
        rw [hgone] at hplace'
        cases hplace'

/-- So all slots are repaired, each against the same list. -/
theorem repair_ensures (slots : List Slot) :
    Draw.Ensures (repair slots) (List.Forall₂ (Repaired slots) slots) :=
  .mapM fun s _ => repaired_ensures slots s

end Slot

/-! ## The whole reproduction -/

/-- What an operator, or none, makes of the tagged slots of a clone. -/
def EditedBy (ts us : List Tagged) : Option MutationOperator → Prop
  | none    => us = ts
  | some op => op.isEligible ts.length ∧ Tagged.Edited ts op us

/-- Everything that a reproduction can return. -/
inductive Reproduced (parent : Program) (traits : Traits) (config : EvolutionConfig) :
    Offspring → Trace → Prop
  /-- The roll failed: the offspring is the clone. -/
  | plain {genes : List Gene} {p : Program}
      (hclone : List.Forall₂ (Gene.CloneOf config.recloneMemory parent.length) parent.genes genes)
      (hgenes : p.genes = genes) :
      Reproduced parent traits config ⟨p, traits, false, none⟩ ⟨genes, Tagged.ofGenes genes⟩
  /-- The roll succeeded: the clone was edited and its jumps were repaired. -/
  | mutated {genes : List Gene} {us : List Tagged} {operator : Option MutationOperator}
      {traits' : Traits} {p : Program}
      (hclone : List.Forall₂ (Gene.CloneOf config.recloneMemory parent.length) parent.genes genes)
      (hedit : EditedBy (Tagged.ofGenes genes) us operator)
      (htraits : traits.Becomes operator traits')
      (hgenes : List.Forall₂ (Slot.Repaired (Tagged.slots us)) (Tagged.slots us) p.genes) :
      Reproduced parent traits config ⟨p, traits', true, operator⟩ ⟨genes, us⟩

namespace Tagged

/-- A property of genes that does not look at identities, and that drawn genes have, passes from the
slots of a clone to the edited ones. -/
theorem Edited.forall_gene {ts us : List Tagged} {op : MutationOperator} {P : Gene → Prop}
    (h : Edited ts op us) (halike : ∀ g k : Gene, g.Alike k → P k → P g)
    (hfits : ∀ g : Gene, g.Fits ts.length → P g) (hts : ∀ t ∈ ts, P t.slot.gene) :
    ∀ u ∈ us, P u.slot.gene := by
  intro u hu
  rcases h.mem_cases hu with hold | ⟨t, ht, hcopy⟩ | hdrawn
  · exact hts u hold
  · exact halike _ _ hcopy.alike (hts t ht)
  · exact hfits _ hdrawn.fits

/-- Every tagged gene is one of the genes. -/
theorem mem_ofGenes {genes : List Gene} {t : Tagged} (h : t ∈ ofGenes genes) :
    t.slot.gene ∈ genes := by
  have hslot : t.slot ∈ Slot.ofGenes genes := by
    rw [← slots_ofGenes]
    exact List.mem_map_of_mem h
  obtain ⟨g, hg, hslot⟩ := List.mem_map.mp hslot
  rw [← hslot]
  exact hg

end Tagged

/-- After an edit every gene is like one from before, or was drawn for this program. -/
theorem EditedBy.forall_gene {ts us : List Tagged} {operator : Option MutationOperator}
    {P : Gene → Prop} (h : EditedBy ts us operator)
    (halike : ∀ g k : Gene, g.Alike k → P k → P g) (hfits : ∀ g : Gene, g.Fits ts.length → P g)
    (hts : ∀ t ∈ ts, P t.slot.gene) : ∀ u ∈ us, P u.slot.gene := by
  cases operator with
  | none =>
    rw [show us = ts from h]
    exact hts
  | some op => exact h.2.forall_gene halike hfits hts

/-- An edit keeps the length of a program within its bounds. -/
theorem EditedBy.length_bounds {ts us : List Tagged} {operator : Option MutationOperator}
    (h : EditedBy ts us operator) (hmin : shortestProgram ≤ ts.length)
    (hmax : ts.length ≤ longestProgram) :
    shortestProgram ≤ us.length ∧ us.length ≤ longestProgram := by
  cases operator with
  | none =>
    rw [show us = ts from h]
    exact ⟨hmin, hmax⟩
  | some op => exact h.2.length_bounds h.1 hmin hmax

/-- A gene that differs by its identity only is listed under its own instruction as well. -/
theorem Gene.Alike.index_catalogued {g h : Gene} (halike : g.Alike h)
    (hh : h.index = h.instruction.catalogIndex) : g.index = g.instruction.catalogIndex := by
  rw [halike.index_eq, halike.instruction_eq, hh]

/-- Repair leaves the index and the cost of a gene alone, and the kind of its instruction. -/
theorem Slot.Repaired.index_catalogued {slots : List Slot} {s : Slot} {g : Gene}
    (h : s.Repaired slots g) (hs : s.gene.index = s.gene.instruction.catalogIndex) :
    g.index = g.instruction.catalogIndex := by
  obtain ⟨goal, rfl⟩ := h.retarget_eq
  show s.gene.index = (s.gene.instruction.retarget goal).catalogIndex
  rw [Instruction.catalogIndex_retarget, hs]

/-- The genes of an edited clone with repaired jumps are a program. -/
theorem isProgram_of_repaired {clone genes : List Gene} {us : List Tagged}
    {operator : Option MutationOperator} (hclone : IsProgram clone)
    (hedit : EditedBy (Tagged.ofGenes clone) us operator)
    (hgenes : List.Forall₂ (Slot.Repaired (Tagged.slots us)) (Tagged.slots us) genes) :
    IsProgram genes := by
  have hlength : genes.length = us.length := by
    rw [← hgenes.length_eq, List.length_map]
  have hbounds : shortestProgram ≤ us.length ∧ us.length ≤ longestProgram := by
    apply hedit.length_bounds <;> rw [Tagged.length_ofGenes]
    · exact hclone.shortest_le
    · exact hclone.le_longest
  -- copies keep the index, and what is drawn has the right one
  have hindex : ∀ u ∈ us, u.slot.gene.index = u.slot.gene.instruction.catalogIndex :=
    hedit.forall_gene (P := fun g => g.index = g.instruction.catalogIndex)
      (fun g k h hk => h.index_catalogued hk) (fun g hg => hg.index_eq)
      fun t ht => hclone.catalogued _ (Tagged.mem_ofGenes ht)
  refine ⟨by omega, by omega, fun g hg => ?_⟩
  obtain ⟨s, hs, hrepaired⟩ := forall₂_mem_right hgenes hg
  obtain ⟨u, hu, rfl⟩ := List.mem_map.mp hs
  exact hrepaired.index_catalogued (hindex u hu)

/-- What is made of a clone is never refused, and it is what the relation says. -/
theorem ofCloneTraced_ensures {parent : Program} {genes : List Gene} {config : EvolutionConfig}
    (hclone : List.Forall₂ (Gene.CloneOf config.recloneMemory parent.length) parent.genes genes)
    (traits : Traits) :
    Build.Ensures (Offspring.ofCloneTraced genes traits config) fun (o, tr) =>
      Reproduced parent traits config o tr ∧ tr.clone = genes := by
  have hprogram : IsProgram genes := isProgram_of_clone hclone
  unfold Offspring.ofCloneTraced
  refine .bind (.lift .any) fun roll _ => .ite (fun _ => ?_) fun _ => ?_
  · exact .bind (Program.ofDrawn_ensures hprogram) fun p hp => .pure ⟨.plain hclone hp, rfl⟩
  refine .bind (.lift (MutationOperator.select_ensures _ _)) fun operator heligible => ?_
  have htagged : 0 < (Tagged.ofGenes genes).length := by
    rw [Tagged.length_ofGenes]
    exact Nat.lt_of_lt_of_le (by decide) hprogram.shortest_le
  -- what follows the edit, whichever operator made it
  have hrest : ∀ us traits', EditedBy (Tagged.ofGenes genes) us operator →
      traits.Becomes operator traits' →
      Build.Ensures (do
        let repaired ← Slot.repair (Tagged.slots us)
        let offspring : Offspring :=
          { program := ← Program.ofDrawn repaired, traits := traits', mutated := true, operator }
        return (offspring, ({ clone := genes, edited := us } : Trace)))
        fun (o, tr) => Reproduced parent traits config o tr ∧ tr.clone = genes := by
    intro us traits' hedit htraits
    refine .bind (.lift (Slot.repair_ensures _)) fun repaired hrepaired => ?_
    refine .bind (Program.ofDrawn_ensures (isProgram_of_repaired hprogram hedit hrepaired)) ?_
    exact fun p hp => .pure ⟨.mutated hclone hedit htraits (hp ▸ hrepaired), rfl⟩
  cases operator with
  | none => exact hrest _ _ rfl rfl
  | some op =>
    refine .bind (Tagged.applyTagged_ensures htagged ?_ config traits op) fun (us, traits') h => ?_
    · exact fun t ht => hprogram.index_lt (Tagged.mem_ofGenes ht)
    · exact hrest us traits' ⟨heligible op rfl, h.1⟩ h.2

/-- **A reproduction is never refused**, whatever the parent, its traits and the configuration, and it
returns what the relation says. -/
theorem evolveTraced_ensures (parent : Program) (traits : Traits) (config : EvolutionConfig) :
    Build.Ensures (parent.evolveTraced traits config) fun (o, tr) =>
      Reproduced parent traits config o tr :=
  .bind (parent.cloneGenes_ensures config.recloneMemory) fun _ hclone =>
    (ofCloneTraced_ensures hclone traits).mono fun _ h => h.1

/-- The record of a reproduction holds the genes that the cloning drew. -/
theorem evolveTraced_clone {parent : Program} {traits : Traits} {config : EvolutionConfig}
    {s s' : Source} {o : Offspring} {tr : Trace}
    (hrun : (parent.evolveTraced traits config).run.run s = .ok (.ok (o, tr), s')) :
    ∃ s₁, (parent.cloneGenes config.recloneMemory).run.run s = .ok (.ok tr.clone, s₁) := by
  obtain ⟨genes, s₁, hcloned, hmade⟩ := Build.bind_inv hrun
  obtain ⟨_, hgenes, hclone⟩ := parent.cloneGenes_ensures _ _ _ _ hcloned
  cases hgenes
  obtain ⟨_, hmade, -, htrace⟩ := ofCloneTraced_ensures hclone traits _ _ _ hmade
  cases hmade
  exact ⟨s₁, htrace ▸ hcloned⟩

/-- **A reproduction goes as its trace says.** -/
theorem evolve_ensures (parent : Program) (traits : Traits) (config : EvolutionConfig) :
    Build.Ensures (parent.evolve traits config) fun o => ∃ tr, Reproduced parent traits config o tr := by
  rw [evolve_eq_fst_evolveTraced]
  exact .map (evolveTraced_ensures parent traits config) fun (_, tr) h => ⟨tr, h⟩

/-- A reproduction that has returned an offspring has a record, which the relation describes. -/
theorem Program.evolve_traced {parent : Program} {traits : Traits} {config : EvolutionConfig} {s s' : Source}
    {o : Offspring} (hrun : (parent.evolve traits config).run.run s = .ok (.ok o, s')) :
    ∃ tr, (parent.evolveTraced traits config).run.run s = .ok (.ok (o, tr), s') ∧
      Reproduced parent traits config o tr := by
  rw [evolve_eq_fst_evolveTraced, map_eq_pure_bind] at hrun
  obtain ⟨⟨o', tr⟩, s₁, htraced, hpure⟩ := Build.bind_inv hrun
  cases hpure
  obtain ⟨_, hvalue, hreproduced⟩ := evolveTraced_ensures parent traits config _ _ _ htraced
  cases hvalue
  exact ⟨tr, htraced, hreproduced⟩

/-- What a reproduction makes of traits is what the operator that it reports does to them. -/
theorem Reproduced.becomes {parent : Program} {traits : Traits} {config : EvolutionConfig} {o : Offspring}
    {tr : Trace} (h : Reproduced parent traits config o tr) : traits.Becomes o.operator o.traits := by
  cases h with
  | plain => rfl
  | mutated _ _ htraits => exact htraits

/-! ## Executable offspring -/

/-- A gene that differs by its identity only is catalogued as well. -/
theorem Gene.Alike.catalogued {g h : Gene} (halike : g.Alike h) (hh : h.Catalogued) :
    g.Catalogued where
  index_eq := halike.index_catalogued hh.index_eq
  cost_eq  := by
    rw [halike.index_eq, halike.timeCost_eq]
    exact hh.cost_eq

/-- A repaired gene fits the program that it was repaired for. -/
theorem Slot.Repaired.fits {slots : List Slot} {s : Slot} {g : Gene} (h : s.Repaired slots g)
    (hs : s.gene.Catalogued) : g.Fits slots.length where
  index_eq  := h.index_catalogued hs.index_eq
  cost_eq   := by
    obtain ⟨goal, rfl⟩ := h.retarget_eq
    exact hs.cost_eq
  target_lt := h.target_lt

/-- The offspring of an executable program is executable: what the operator leaves or draws agrees with
the catalog, and the repair keeps every jump inside. -/
theorem Reproduced.executable {parent : Program} {traits : Traits} {config : EvolutionConfig}
    {o : Offspring} {tr : Trace} (h : Reproduced parent traits config o tr)
    (hparent : parent.Executable) : o.program.Executable := by
  -- the clone of an executable program can be executed
  have hfits {genes : List Gene}
      (hclone : List.Forall₂ (Gene.CloneOf config.recloneMemory parent.length) parent.genes genes) :
      ∀ g ∈ genes, g.Fits genes.length := by
    intro g hg
    obtain ⟨g', hg', hcloneOf⟩ := forall₂_mem_right hclone hg
    rw [← hclone.length_eq]
    exact hcloneOf.fits (hparent g' hg')
  cases h with
  | @plain genes p hclone hgenes =>
    intro g hg
    show g.Fits p.genes.length
    rw [hgenes] at hg ⊢
    exact hfits hclone g hg
  | @mutated genes us operator traits' p hclone hedit htraits hgenes =>
    -- jumps apart, so can the edited clone; the repair sets the jumps right
    have hcatalogued : ∀ u ∈ us, u.slot.gene.Catalogued :=
      hedit.forall_gene (P := Gene.Catalogued) (fun g k h hk => h.catalogued hk)
        (fun g hg => hg.toCatalogued)
        fun t ht => (hfits hclone _ (Tagged.mem_ofGenes ht)).toCatalogued
    intro g hg
    obtain ⟨s, hs, hrepaired⟩ := forall₂_mem_right hgenes hg
    obtain ⟨u, hu, rfl⟩ := List.mem_map.mp hs
    show g.Fits p.genes.length
    rw [← hgenes.length_eq]
    exact hrepaired.fits (hcatalogued u hu)

end Vivarium
