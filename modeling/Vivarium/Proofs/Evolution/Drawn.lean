import Mathlib.Data.List.GetD
import Mathlib.Tactic.IntervalCases
import Vivarium.Program.Build
import Vivarium.Proofs.Computation

/-!
# What the catalog draws

A gene drawn from the catalog carries the index of its instruction and the cost of its rule, and if it
jumps, it jumps inside the program that it was drawn for. Nothing that the catalog knows is refused, so a
program drawn from known kinds is refused for its length alone.
-/

namespace Vivarium

/-- A gene that agrees with the catalog: it has the index of its instruction and the cost that the
catalog sets for that index. -/
structure Gene.Catalogued (g : Gene) : Prop where
  index_eq : g.index = g.instruction.catalogIndex
  cost_eq  : (Catalog.rules[g.index]?).map (·.timeCost) = some g.timeCost

/-- A gene that can be executed in a program of `len` genes: it agrees with the catalog, and its jump, if
it has one, leads to one of them. -/
structure Gene.Fits (len : Nat) (g : Gene) : Prop extends g.Catalogued where
  target_lt : ∀ goal, g.instruction.target? = some goal → goal < len

/-- A program all of whose genes can be executed. -/
def Program.Executable (p : Program) : Prop := ∀ g ∈ p.genes, g.Fits p.length

theorem IsProgram.index_lt {genes : List Gene} (h : IsProgram genes) {g : Gene} (hg : g ∈ genes) :
    g.index < catalogLength := by
  rw [h.catalogued g hg]
  exact g.instruction.catalogIndex_lt

namespace Catalog

/-- The instruction drawn for an index is of the kind at that index, and its jump stays in the program. -/
theorem drawInstruction_ensures {index len : Nat} (hindex : index < catalogLength) :
    Build.Ensures (drawInstruction index len) fun i =>
      i.catalogIndex = index ∧ ∀ goal, i.target? = some goal → goal < max len 1 := by
  -- an instruction that does not jump has no goal to look at
  have straight {i : Instruction} (hkind : i.catalogIndex = index) (hstraight : i.target? = none) :
      i.catalogIndex = index ∧ ∀ goal, i.target? = some goal → goal < max len 1 :=
    ⟨hkind, fun goal hgoal => by rw [hstraight] at hgoal; cases hgoal⟩
  have jump {c : Condition} (hkind : ∀ goal, (Instruction.jump c goal).catalogIndex = index) :
      Build.Ensures (do return Instruction.jump c (← (Draw.position (max len 1) : Draw Nat))) fun i =>
        i.catalogIndex = index ∧ ∀ goal, i.target? = some goal → goal < max len 1 :=
    .bind (.lift (Draw.position_lt _)) fun goal hgoal =>
      .pure ⟨hkind goal, fun other hother => by cases hother; exact hgoal⟩
  unfold drawInstruction
  split
  · exact .bind (.lift .any) fun _ _ => .pure (straight rfl rfl)
  · exact .pure (straight rfl rfl)
  · exact .bind (.lift .any) fun _ _ => .pure (straight rfl rfl)
  · exact .pure (straight rfl rfl)
  · exact .pure (straight rfl rfl)
  · exact .pure (straight rfl rfl)
  · exact .pure (straight rfl rfl)
  · exact .pure (straight rfl rfl)
  · exact jump fun _ => rfl
  · exact jump fun _ => rfl
  · exact jump fun _ => rfl
  · exact .bind (.lift .any) fun _ _ => jump fun _ => rfl
  · exact .bind (.lift .any) fun _ _ => jump fun _ => rfl
  · exact .pure (straight rfl rfl)
  · exact .pure (straight rfl rfl)
  · exact .pure (straight rfl rfl)
  -- the sixteen kinds above are all that lie below the catalog's end
  · unfold catalogLength at hindex
    interval_cases index <;> contradiction

/-- The catalog has a rule for every index below its length, and refuses none of them. -/
theorem rule?_of_lt {index : Nat} (hindex : index < catalogLength) :
    ∃ rule, rules[index]? = some rule ∧ rule? index = .ok rule := by
  have hlt : index < rules.length := hindex
  refine ⟨rules[index], List.getElem?_eq_getElem hlt, ?_⟩
  unfold rule?
  rw [List.getElem?_eq_getElem hlt]

theorem drawGene_ensures {index len : Nat} (hindex : index < catalogLength) :
    Build.Ensures (drawGene index len) fun g => g.Fits (max len 1) ∧ g.index = index := by
  obtain ⟨rule, hget, hrule⟩ := rule?_of_lt hindex
  unfold drawGene
  rw [hrule]
  refine .bind (P := (· = rule)) (.pure rfl) fun _ hr => ?_
  subst hr
  refine .bind (drawInstruction_ensures hindex) fun i hi => ?_
  refine .bind (.lift .any) fun id _ => .pure ⟨⟨⟨?_, ?_⟩, hi.2⟩, rfl⟩
  · exact hi.1.symm
  · rw [hget, Option.map_some]

/-- A drawn kind is one of the kinds that are drawn from. -/
theorem getD_firstGeneration_lt {i : Nat} : firstGeneration.getD i 0 < catalogLength := by
  have hall : ∀ k ∈ firstGeneration, k < catalogLength := by decide
  rcases Nat.lt_or_ge i firstGeneration.length with hlt | hge
  · rw [List.getD_eq_getElem _ _ hlt]
    exact hall _ (List.getElem_mem hlt)
  · rw [List.getD_eq_default _ _ hge]
    decide

theorem drawAnyGene_ensures (first : Bool) (len : Nat) :
    Build.Ensures (drawAnyGene first len) (Gene.Fits (max len 1)) := by
  unfold drawAnyGene
  refine .bind (.lift (Draw.position_lt _)) fun i hi => ?_
  refine (drawGene_ensures ?_).mono fun g hg => hg.1
  -- both catalogs hold indices of instructions only, and the first generation has a shorter one
  cases first with
  | true => exact getD_firstGeneration_lt
  | false =>
    have hlt : i < (List.range catalogLength).length := hi
    show (List.range catalogLength).getD i 0 < catalogLength
    rw [List.getD_eq_getElem _ _ hlt, List.getElem_range]
    rwa [List.length_range] at hlt

end Catalog

namespace Program

/-- Genes in the right number, each with the index of its instruction, are a program. -/
theorem ofGenes_of_isProgram {genes : List Gene} (h : IsProgram genes) :
    ofGenes genes = .ok ⟨genes, h⟩ := by
  -- every gene is in the catalog, so there is none to object to
  have hfit : misfit? genes = none := by
    unfold misfit?
    rw [List.find?_eq_none]
    intro g hg
    simp [h.catalogued g hg]
  unfold ofGenes
  rw [dif_pos ⟨h.shortest_le, h.le_longest⟩]
  split
  · rename_i g hg
    rw [hfit] at hg
    cases hg
  · rfl

/-- Genes in another number are none, and that is named first. -/
theorem ofGenes_of_length {genes : List Gene} (h : ¬ (15 ≤ genes.length ∧ genes.length ≤ 60)) :
    ofGenes genes = .error (.length genes.length) :=
  dif_neg h

/-- What is built from genes holds these genes. -/
theorem ofGenes_genes {genes : List Gene} {p : Program} (h : ofGenes genes = .ok p) : p.genes = genes := by
  unfold ofGenes at h
  split at h
  · split at h
    · cases h
    · cases h
      rfl
  · cases h

theorem ofDrawn_yields (genes : List Gene) : (ofDrawn genes).Yields (·.genes = genes) := by
  unfold ofDrawn
  split
  · exact .pure (ofGenes_genes ‹_›)
  · exact .refused

theorem ofDrawn_ensures {genes : List Gene} (h : IsProgram genes) :
    Build.Ensures (ofDrawn genes) (·.genes = genes) := by
  unfold ofDrawn
  rw [ofGenes_of_isProgram h]
  exact .pure rfl

/-- Genes that fit into a program of their number are one, if there are neither too few nor too many. -/
theorem ofDrawn_executable {genes : List Gene} (hmin : shortestProgram ≤ genes.length)
    (hmax : genes.length ≤ longestProgram) (hfits : ∀ g ∈ genes, g.Fits (max genes.length 1)) :
    Build.Ensures (ofDrawn genes) fun p => p.genes = genes ∧ p.Executable := by
  rw [Nat.max_eq_left (Nat.le_trans (by decide) hmin)] at hfits
  refine (ofDrawn_ensures ⟨hmin, hmax, fun g hg => (hfits g hg).index_eq⟩).mono fun p hp => ⟨hp, fun g hg => ?_⟩
  rw [length, hp]
  exact hfits g (hp ▸ hg)

/-- A first program is executable, and it is not refused. -/
theorem random_ensures {first : Bool} {len : Nat} (hmin : shortestProgram ≤ len)
    (hmax : len ≤ longestProgram) : Build.Ensures (random first len) Executable := by
  unfold random
  refine .bind (.mapM fun _ _ => Catalog.drawAnyGene_ensures first len) fun genes hgenes => ?_
  -- one gene was drawn for each number below the length
  obtain rfl : genes.length = len := by
    rw [← hgenes.length_eq, List.length_range]
  refine (ofDrawn_executable hmin hmax fun g hg => ?_).mono fun p hp => hp.2
  obtain ⟨_, -, hfit⟩ := forall₂_mem_right hgenes hg
  exact hfit

end Program

end Vivarium
