import Mathlib.Data.List.Infix
import Vivarium.Proofs.Evolution.JumpRepair

/-!
# Offspring differ from their parents as they report

A program's sequence is the list of its genes' catalog indices; the genetic string is read off it. A
reproduction reports which operator ran, and the report says how the child's sequence came out of the
parent's: whatever is drawn anew in its place is of the same kind, and the cloning and the repair of the
jumps leave every kind alone. So only the three operators that move, bring in or cut out slots can be
seen in the sequence.

Main result: `offspring_edited_as_reported`.
-/

namespace Vivarium

/-- The catalog indices of the genes in order. -/
def Program.indices (p : Program) : List Nat := p.genes.map (·.index)

/-- What the reported operator can have made of the sequence `ks`. -/
def Resequenced (ks ls : List Nat) : Option MutationOperator → Prop
  | some .duplicateSegment => ∃ i run, i < ks.length ∧
      run <:+: ks ∧ 1 ≤ run.length ∧ run.length ≤ longestProgram - ks.length ∧
      ls = ks.take i ++ run ++ ks.drop i
  | some .insertSegment => ∃ i run, i < ks.length ∧
      1 ≤ run.length ∧ run.length ≤ longestProgram - ks.length ∧
      ls = ks.take i ++ run ++ ks.drop i
  | some .deleteSegment => shortestProgram + 10 < ks.length ∧
      ∃ before run after, run ≠ [] ∧ ks = before ++ run ++ after ∧ ls = before ++ after
  | some .mutateMemory => ls = ks
  | some .modifyTraits => ls = ks
  | none => ls = ks

/-! ## The sequence under edit -/

namespace Tagged

/-- The catalog indices in tagged slots. -/
def indices (ts : List Tagged) : List Nat := ts.map (·.slot.gene.index)

theorem length_indices (ts : List Tagged) : (indices ts).length = ts.length := List.length_map _

/-- Indices are spliced as slots are. -/
theorem indices_splice (ts us : List Tagged) (i : Nat) :
    indices (Slot.splice ts i us) = (indices ts).take i ++ indices us ++ (indices ts).drop i := by
  simp only [indices, Slot.splice, List.map_append, List.map_take, List.map_drop]

theorem indices_ofGenes (genes : List Gene) : indices (ofGenes genes) = genes.map (·.index) := by
  have hslots : (slots (ofGenes genes)).map (·.gene.index) = genes.map (·.index) := by
    rw [slots_ofGenes]
    simp [Slot.ofGenes, Function.comp_def]
  rw [← hslots, List.map_map]
  rfl

/-- Copies of a run, cut short or not, are a run of the sequence. -/
theorem indices_copies_infix {ts copies : List Tagged} {start size room : Nat}
    (h : List.Forall₂ CopyOf ((Slot.run ts start size).take room) copies) :
    indices copies <:+: indices ts := by
  have hcopies : indices copies = indices ((Slot.run ts start size).take room) :=
    forall₂_map_eq h fun _ _ hcopy => hcopy.alike.index_eq
  have hrun : (Slot.run ts start size).take room <:+: ts :=
    (List.take_prefix _ _).isInfix.trans
      ((List.take_prefix _ _).isInfix.trans (List.drop_suffix _ _).isInfix)
  rw [hcopies]
  exact hrun.map _

/-- What an eligible operator does to the slots shows in the sequence as the report says. -/
theorem Edited.resequenced {ts us : List Tagged} {op : MutationOperator} (h : Edited ts op us)
    (heligible : op.isEligible ts.length = true) :
    Resequenced (indices ts) (indices us) (some op) := by
  cases h with
  | @duplicate start size i copies hstart hsize hi hcopies =>
    have hroom : ts.length < longestProgram := by simpa [MutationOperator.isEligible] using heligible
    have hlength : copies.length =
        min (longestProgram - ts.length) (min size (ts.length - start)) := by
      rw [← hcopies.length_eq, List.length_take, Slot.run, List.length_take, List.length_drop]
    refine ⟨i, indices copies, ?_, indices_copies_infix hcopies, ?_, ?_, indices_splice ts copies i⟩
    · rwa [length_indices]
    -- the run starts inside, and there is room for one copy at least
    · rw [length_indices, hlength]
      omega
    · rw [length_indices, length_indices, hlength]
      exact Nat.min_le_left _ _
  | @insert i drawn hi hne hroom hdrawn =>
    have hlt : ts.length < longestProgram := by simpa [MutationOperator.isEligible] using heligible
    have hpos : 0 < drawn.length := List.length_pos_iff.mpr hne
    refine ⟨i, indices drawn, ?_, ?_, ?_, indices_splice ts drawn i⟩
    · rwa [length_indices]
    · rw [length_indices]
      omega
    · rw [length_indices, length_indices]
      omega
  | @delete start size hstart hsize =>
    have hlong : shortestProgram + 10 < ts.length := by
      simpa [MutationOperator.isEligible] using heligible
    -- the program is what stands before the run, the run, and what stands behind it
    have hsplit : ts = ts.take start ++ Slot.run ts start size ++ ts.drop (start + size) := by
      rw [Slot.run, List.append_assoc, ← List.drop_drop, List.take_append_drop,
        List.take_append_drop]
    have hrun : 0 < (Slot.run ts start size).length := by
      rw [Slot.run, List.length_take, List.length_drop]
      omega
    refine ⟨by rwa [length_indices], indices (ts.take start), indices (Slot.run ts start size),
      indices (ts.drop (start + size)), ?_, ?_, ?_⟩
    · rw [← List.length_pos_iff, length_indices]
      exact hrun
    · unfold indices
      rw [← List.map_append, ← List.map_append, ← hsplit]
    · exact List.map_append
  | redraw hus => exact forall₂_map_eq hus fun _ _ hredraw => hredraw.index_eq
  | traits => rfl

end Tagged

/-- An edit of the slots is an edit of the indices. -/
theorem EditedBy.resequenced {ts us : List Tagged} {operator : Option MutationOperator}
    (h : EditedBy ts us operator) :
    Resequenced (Tagged.indices ts) (Tagged.indices us) operator := by
  cases operator with
  | none =>
    rw [show us = ts from h]
    rfl
  | some op => exact h.2.resequenced h.1

/-! ## The sequence of the child -/

/-- Cloning keeps every kind. -/
theorem indices_of_clone {parent : Program} {reclone : Bool} {genes : List Gene}
    (hclone : List.Forall₂ (Gene.CloneOf reclone parent.length) parent.genes genes) :
    genes.map (·.index) = parent.indices :=
  forall₂_map_eq hclone fun _ _ h => h.index_eq

/-- So does the repair of the jumps. -/
theorem indices_of_repaired {us : List Tagged} {genes : List Gene}
    (hgenes : List.Forall₂ (Slot.Repaired (Tagged.slots us)) (Tagged.slots us) genes) :
    genes.map (·.index) = Tagged.indices us := by
  have hslots : genes.map (·.index) = (Tagged.slots us).map (·.gene.index) :=
    forall₂_map_eq hgenes fun s g h => by
      obtain ⟨goal, rfl⟩ := h.retarget_eq
      rfl
  rw [hslots, List.map_map]
  rfl

section Reproduced

variable {parent : Program} {traits : Traits} {config : EvolutionConfig} {o : Offspring} {tr : Trace}

/-- So is a reproduction, seen from parent to child. -/
theorem Reproduced.resequenced (h : Reproduced parent traits config o tr) :
    Resequenced parent.indices o.program.indices o.operator := by
  cases h with
  | @plain genes p hclone hgenes =>
    show p.genes.map (·.index) = parent.indices
    rw [hgenes, indices_of_clone hclone]
  | @mutated genes us operator traits' p hclone hedit htraits hgenes =>
    -- the repair changes targets, and no index
    have hedited := hedit.resequenced
    rw [Tagged.indices_ofGenes, indices_of_clone hclone, ← indices_of_repaired hgenes] at hedited
    exact hedited

/-- Where nothing was mutated, no operator is reported. -/
theorem Reproduced.operator_of_plain (h : Reproduced parent traits config o tr)
    (hmutated : o.mutated = false) : o.operator = none := by
  cases h with
  | plain => rfl
  | mutated => cases hmutated

/-- Traits change only if the operator is to modify traits. -/
theorem Reproduced.traits_eq (h : Reproduced parent traits config o tr)
    (hoperator : o.operator ≠ some .modifyTraits) : o.traits = traits := h.becomes.eq hoperator

end Reproduced

/-- The genetic string is read off the sequence. -/
theorem Program.geneticString_eq_of_indices {p q : Program} (h : p.indices = q.indices) :
    p.geneticString = q.geneticString := by
  have hcodes : ∀ r : Program,
      r.genes.map Gene.code = r.indices.map fun i => Char.ofNat (65 + i % catalogLength) := by
    intro r
    rw [indices, List.map_map]
    rfl
  unfold geneticString
  rw [hcodes, hcodes, h]

/-- **A reproduction returns a program and reports what it did.** Whatever the parent, the traits, the
configuration and the source, a reproduction that returns is not refused and its child is within the
bounds on lengths. Its sequence came out of the parent's as the reported operator says: it is the same
unless a segment was copied, brought in or cut out. The traits are the parent's unless the operator is
the one that modifies them. -/
theorem offspring_edited_as_reported {parent : Program} {traits : Traits} {config : EvolutionConfig}
    {s s' : Source} {result : Except Refusal Offspring}
    (hrun : (parent.evolve traits config).run.run s = .ok (result, s')) :
    ∃ child, result = .ok child ∧
      shortestProgram ≤ child.program.length ∧ child.program.length ≤ longestProgram ∧
      (child.mutated = false → child.operator = none) ∧
      Resequenced parent.indices child.program.indices child.operator ∧
      (child.operator ∈ [none, some .mutateMemory, some .modifyTraits] →
        child.program.geneticString = parent.geneticString) ∧
      (child.operator ≠ some .modifyTraits → child.traits = traits) := by
  obtain ⟨child, rfl, tr, h⟩ := evolve_ensures parent traits config s result s' hrun
  have hseq := h.resequenced
  refine ⟨child, rfl, child.program.isProgram.shortest_le, child.program.isProgram.le_longest,
    h.operator_of_plain, hseq, fun hoperator => ?_, h.traits_eq⟩
  -- each of the three reports leaves the sequence alone
  apply Program.geneticString_eq_of_indices
  simp only [List.mem_cons, List.not_mem_nil, or_false] at hoperator
  rcases hoperator with hoperator | hoperator | hoperator <;> rw [hoperator] at hseq <;> exact hseq

/-- As short a program as may still be cut: attacks and waits by turns. -/
def Program.pouncing : Program where
  genes := (List.range 26).map fun i =>
    if i % 2 = 0 then ⟨.ofNat i, 13, 50, .attack⟩ else ⟨.ofNat i, 15, 100, .wait⟩
  isProgram := ⟨by decide, by decide, by decide⟩

/-- The only operator that may run is the one that cuts out a segment. -/
def EvolutionConfig.cutting : EvolutionConfig := { operatorWeights := ⟨0, 0, 1, 0, 0⟩ }

theorem offspring_edited_as_reported_pouncing :
    ∃ child s', (Program.pouncing.evolve { mutationRate := 1.0 } .cutting).run.run (.ofSeed 5) =
        .ok (.ok child, s') ∧
      child.operator = some .deleteSegment ∧ child.program.length = 17 ∧
      Resequenced Program.pouncing.indices child.program.indices (some .deleteSegment) := by
  have hcheck : ((Program.pouncing.evolve { mutationRate := 1.0 } .cutting).run.run
      (.ofSeed 5)).toOption.any (fun result => result.1.toOption.any fun child =>
        decide (child.operator = some .deleteSegment ∧ child.program.length = 17)) = true := by
    decide +kernel
  obtain ⟨⟨value, s'⟩, hrun, hcheck⟩ := except_any_inv hcheck
  obtain ⟨child, rfl, hcheck⟩ := except_any_inv hcheck
  obtain ⟨hoperator, hlength⟩ := of_decide_eq_true hcheck
  obtain ⟨_, hvalue, -, -, -, hseq, -⟩ := offspring_edited_as_reported hrun
  cases hvalue
  rw [hoperator] at hseq
  exact ⟨child, s', hrun, hoperator, hlength, hseq⟩

end Vivarium
