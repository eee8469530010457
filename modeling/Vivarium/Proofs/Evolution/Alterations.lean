import Vivarium.Proofs.Evolution.Sequence

/-!
# What a mutation alters

An operator that runs need not alter anything. Those that copy, bring in or cut out genes change the length
of the program. The one that draws genes anew may draw none, or the same constants once more; the one that
modifies traits may draw those that the parent has.

What those two leave alone is said gene by gene. A place is touched if its gene was drawn anew, or if its jump led
to one that was: such a jump leads anywhere after the repair. Where memory is inherited and the drawn
identities are distinct, a gene at a place that is not touched is that of the parent.

Main results: `Reproduced.length_ne`, `Reproduced.alike_of_untouched`.
-/

namespace Vivarium

instance (g h : Gene) : Decidable (g.Alike h) :=
  decidable_of_iff (g.index = h.index ∧ g.timeCost = h.timeCost ∧ g.instruction = h.instruction)
    ⟨fun ⟨hindex, hcost, hinstruction⟩ => ⟨hindex, hcost, hinstruction⟩,
      fun ⟨hindex, hcost, hinstruction⟩ => ⟨hindex, hcost, hinstruction⟩⟩

/-- Two programs that differ in nothing but the identities of their genes. -/
def Program.Alike (p q : Program) : Prop := List.Forall₂ Gene.Alike p.genes q.genes

instance (p q : Program) : Decidable (p.Alike q) := inferInstanceAs (Decidable (List.Forall₂ _ _ _))

theorem Program.Alike.length_eq {p q : Program} (h : p.Alike q) : p.length = q.length := List.Forall₂.length_eq h

/-- Alike programs are alike at every place. -/
theorem Program.alike_iff {p q : Program} (hlength : p.length = q.length) :
    p.Alike q ↔ ∀ (k : Nat) (c g : Gene), p.genes[k]? = some c → q.genes[k]? = some g → c.Alike g := by
  unfold Alike
  rw [List.forall₂_iff_get]
  constructor
  · rintro ⟨-, halike⟩ k c g hc hg
    obtain ⟨hk, rfl⟩ := List.getElem?_eq_some_iff.mp hc
    obtain ⟨hk', rfl⟩ := List.getElem?_eq_some_iff.mp hg
    exact halike k hk hk'
  · intro halike
    refine ⟨hlength, fun k hk hk' => ?_⟩
    exact halike k _ _ (List.getElem?_eq_getElem hk) (List.getElem?_eq_getElem hk')

/-- An operator that copies, brings in or cuts out genes. -/
def MutationOperator.Resizes (op : MutationOperator) : Prop :=
  op = .duplicateSegment ∨ op = .insertSegment ∨ op = .deleteSegment

/-- The gene at the place was drawn anew, or the jump of the parent's gene `g` there led to one that was. -/
def Trace.Touched (tr : Trace) (g : Gene) (k : Nat) : Prop :=
  tr.origin? k = some .fresh ∨
    ∃ goal, g.instruction.target? = some goal ∧ tr.origin? goal = some .fresh

namespace Instruction

/-- A jump that is pointed at its goal. -/
theorem retarget_target {i : Instruction} {goal : Nat} (h : i.target? = some goal) : i.retarget goal = i := by
  cases i with
  | jump c goal' =>
    cases h
    rfl
  | _ => rfl

end Instruction

/-! ## Genes that are still there -/

/-- A gene of the clone, whose jump leads to one that is where it was, is as it was. -/
theorem Trace.Preserves.alike {tr : Trace} {genes : List Gene} (h : tr.Preserves genes) {k : Nat} {c g : Gene}
    (hc : genes[k]? = some c) (hg : tr.clone[k]? = some g) (hkept : tr.origin? k = some (.kept k))
    (hgoal : ∀ goal, g.instruction.target? = some goal → tr.origin? goal = some (.kept goal)) : c.Alike g := by
  have hmodel : (tr.origin? k).bind (·.model?) = some k := by
    rw [hkept]
    rfl
  obtain ⟨hindex, hcost, place, hinstruction⟩ := h.constants k c k g hc hmodel hg
  refine ⟨hindex, hcost, ?_⟩
  cases htarget : g.instruction.target? with
  | none => rw [hinstruction, Instruction.retarget_of_straight htarget]
  | some goal =>
    -- the jump follows the gene, which has not moved
    have hfollows := h.follows k c k g goal goal hc hmodel hg htarget (hgoal goal htarget)
    rw [hinstruction, Instruction.target?_retarget, htarget, Option.map_some, Option.some.injEq] at hfollows
    rw [hinstruction, hfollows, Instruction.retarget_target htarget]

namespace Tagged

/-- Unless genes are copied, brought in or cut out, each slot is where it was, if it is not drawn anew. -/
theorem Edited.in_place {ts us : List Tagged} {op : MutationOperator} (h : Edited ts op us)
    (hop : ¬ op.Resizes) : List.Forall₂ (fun t u => u = t ∨ u.origin = .fresh) ts us := by
  cases h with
  | duplicate => exact absurd (.inl rfl) hop
  | insert => exact absurd (.inr (.inl rfl)) hop
  | delete => exact absurd (.inr (.inr rfl)) hop
  | redraw hus => exact hus.imp fun t u hredraw => hredraw.imp_right fun hdrawn => hdrawn.1.origin_eq
  | traits => exact List.forall₂_same.mpr fun t _ => .inl rfl

theorem origin_ofGenes {genes : List Gene} {k : Nat} {t : Tagged} (h : (ofGenes genes)[k]? = some t) :
    t.origin = .kept k := by
  unfold ofGenes at h
  rw [List.getElem?_map, List.getElem?_zipIdx, Option.map_map] at h
  obtain ⟨s, -, rfl⟩ := Option.map_eq_some_iff.mp h
  simp

/-- Then a place of the clone has what it had, or was drawn anew. -/
theorem Edited.kept_or_fresh {clone : List Gene} {us : List Tagged} {op : MutationOperator}
    (h : Edited (ofGenes clone) op us) (hop : ¬ op.Resizes) {j : Nat} (hj : j < clone.length) :
    Trace.origin? ⟨clone, us⟩ j = some (.kept j) ∨ Trace.origin? ⟨clone, us⟩ j = some .fresh := by
  have hin := h.in_place hop
  have hus : j < us.length := by
    rw [← hin.length_eq, length_ofGenes]
    exact hj
  have hu : us[j]? = some us[j] := List.getElem?_eq_getElem hus
  have horigin : Trace.origin? ⟨clone, us⟩ j = some us[j].origin := Trace.origin?_eq hu
  rw [horigin]
  -- an edit in place keeps a slot where it was or draws it anew
  obtain ⟨t, ht, heq | hfresh⟩ := forall₂_getElem?_right hin hu
  · rw [heq, origin_ofGenes ht]
    exact .inl rfl
  · rw [hfresh]
    exact .inr rfl

end Tagged

section Reproduced

variable {parent : Program} {traits : Traits} {config : EvolutionConfig} {o : Offspring} {tr : Trace}

/-! ## Lengths -/

theorem Program.length_indices (p : Program) : p.indices.length = p.length := List.length_map _

/-- **An operator that copies, brings in or cuts out genes changes the length.** -/
theorem Reproduced.length_ne {op : MutationOperator} (h : Reproduced parent traits config o tr)
    (hop : o.operator = some op) (hresizes : op.Resizes) : o.program.length ≠ parent.length := by
  have hsequence := h.resequenced
  rw [hop] at hsequence
  rw [← Program.length_indices, ← Program.length_indices]
  -- the sequence is the parent's with a run put in, or left out, that is not empty
  rcases hresizes with rfl | rfl | rfl
  · obtain ⟨i, run, hi, -, hrun, -, heq⟩ := hsequence
    rw [heq, List.length_append, List.length_append, List.length_take, List.length_drop]
    omega
  · obtain ⟨i, run, hi, hrun, -, heq⟩ := hsequence
    rw [heq, List.length_append, List.length_append, List.length_take, List.length_drop]
    omega
  · obtain ⟨-, before, run, after, hrun, hparent, heq⟩ := hsequence
    have hpos := List.length_pos_iff.mpr hrun
    rw [heq, hparent, List.length_append, List.length_append, List.length_append]
    omega

/-- The others keep the sequence. -/
theorem Reproduced.indices_eq {op : MutationOperator} (h : Reproduced parent traits config o tr)
    (hop : o.operator = some op) (hkeeps : ¬ op.Resizes) : o.program.indices = parent.indices := by
  have hsequence := h.resequenced
  rw [hop] at hsequence
  -- only three of the operators resize a program
  cases op with
  | duplicateSegment => exact absurd (.inl rfl) hkeeps
  | insertSegment => exact absurd (.inr (.inl rfl)) hkeeps
  | deleteSegment => exact absurd (.inr (.inr rfl)) hkeeps
  | mutateMemory => exact hsequence
  | modifyTraits => exact hsequence

/-! ## Genes -/

/-- **What is not touched is as it was in the parent**, where memory is inherited and identities are distinct. -/
theorem Reproduced.alike_of_untouched {op : MutationOperator} (h : Reproduced parent traits config o tr)
    (hop : o.operator = some op) (hkeeps : ¬ op.Resizes) (hinherits : config.recloneMemory = false)
    (hdistinct : tr.Distinct) (hparent : parent.Executable) {k : Nat} {c g : Gene}
    (hc : o.program.genes[k]? = some c) (hg : parent.genes[k]? = some g) (huntouched : ¬ tr.Touched g k) :
    c.Alike g := by
  cases h with
  | plain => cases hop
  | @mutated clone us operator traits' p hclone hedit htraits hgenes =>
    obtain rfl : operator = some op := hop
    have hpreserves := hedit.preserves hgenes hdistinct
    -- the clone's gene is that of the parent
    obtain ⟨hk, rfl⟩ := List.getElem?_eq_some_iff.mp hg
    have hlength := hclone.length_eq
    have hcloned : clone[k]? = some clone[k] := List.getElem?_eq_getElem (hlength ▸ hk)
    obtain ⟨g', hg', hcloneOf⟩ := forall₂_getElem?_right hclone hcloned
    rw [hg, Option.some.injEq] at hg'
    subst hg'
    have halike : clone[k].Alike parent.genes[k] := hcloneOf.inherited hinherits
    have hplace (j : Nat) (hj : j < parent.length) : Trace.origin? ⟨clone, us⟩ j = some (.kept j) ∨
        Trace.origin? ⟨clone, us⟩ j = some .fresh := hedit.2.kept_or_fresh hkeeps (hlength ▸ hj)
    unfold Trace.Touched at huntouched
    rw [not_or, not_exists] at huntouched
    obtain ⟨hnotdrawn, hnotled⟩ := huntouched
    refine (hpreserves.alike hc hcloned ((hplace k hk).resolve_right hnotdrawn) fun goal hgoal => ?_).trans halike
    -- the jump of the parent's gene leads inside, to a place that was not drawn anew either
    rw [halike.instruction_eq] at hgoal
    have hfits := (hparent _ (List.mem_of_getElem? hg)).target_lt goal hgoal
    exact (hplace goal hfits).resolve_right fun hdrawn => hnotled goal ⟨hgoal, hdrawn⟩

/-- The programs then differ just where a gene that was touched came out different. -/
theorem Reproduced.not_alike_iff {op : MutationOperator} (h : Reproduced parent traits config o tr)
    (hop : o.operator = some op) (hkeeps : ¬ op.Resizes) (hinherits : config.recloneMemory = false)
    (hdistinct : tr.Distinct) (hparent : parent.Executable) :
    ¬ o.program.Alike parent ↔ ∃ (k : Nat) (c g : Gene), o.program.genes[k]? = some c ∧
      parent.genes[k]? = some g ∧ tr.Touched g k ∧ ¬ c.Alike g := by
  -- places can be compared one by one, since there are as many
  have hlength : o.program.length = parent.length := by
    have hindices := congrArg List.length (h.indices_eq hop hkeeps)
    rwa [Program.length_indices, Program.length_indices] at hindices
  rw [Program.alike_iff hlength]
  constructor
  · intro hdiffers
    push Not at hdiffers
    obtain ⟨k, c, g, hc, hg, hunlike⟩ := hdiffers
    refine ⟨k, c, g, hc, hg, ?_, hunlike⟩
    by_contra huntouched
    exact hunlike (h.alike_of_untouched hop hkeeps hinherits hdistinct hparent hc hg huntouched)
  · rintro ⟨k, c, g, hc, hg, -, hunlike⟩ halike
    exact hunlike (halike k c g hc hg)

/-- The operator that modifies traits touches no gene. -/
theorem Reproduced.not_touched (h : Reproduced parent traits config o tr)
    (hop : o.operator = some .modifyTraits) (g : Gene) (k : Nat) : ¬ tr.Touched g k := by
  have hkept : ∀ j, tr.origin? j ≠ some .fresh := by
    -- to modify the traits leaves the slots alone, so each is still a clone
    intro j hfresh
    cases h with
    | plain => cases hop
    | @mutated clone us operator traits' p hclone hedit =>
      obtain rfl : operator = some .modifyTraits := hop
      cases hedit.2
      obtain ⟨t, ht, horigin⟩ := Option.map_eq_some_iff.mp hfresh
      rw [Tagged.origin_ofGenes ht] at horigin
      cases horigin
  rintro (hdrawn | ⟨goal, -, hled⟩)
  · exact hkept k hdrawn
  · exact hkept goal hled

end Reproduced

end Vivarium
