import Vivarium.Kinship.Hue
import Vivarium.Proofs.Evolution.Sequence
import Vivarium.Proofs.Steady

/-!
# Programs from indices

A program is built from a list of catalog indices in two steps that can each refuse. The catalog is asked for one
gene after the other, so the first index that it does not know is named before anybody counts the genes; and what
has been drawn is judged afterwards, where nothing but the length can be wrong. So whether a list is refused, and
for what, depends on the list alone, and not on the constants that are drawn for the genes.

The letters of a genetic string spell such a list. Building from it gives a program with the same string, which
is all that the hue looks at.

Main result: `programs_are_built_from_their_indices`.
-/

namespace Vivarium

/-! ## Builds that are refused -/

namespace Build

variable {α β : Type} {cause : Refusal}

/-- Whenever the computation does not break off, on whatever source, it is refused for this cause. -/
def Refuses (b : Build α) (cause : Refusal) : Prop := ∀ s x s', b.run.run s = .ok (x, s') → x = .error cause

namespace Refuses

theorem throw : Refuses (MonadExcept.throw cause : Build α) cause := by
  intro s x s' hrun
  cases hrun
  rfl

/-- What comes after a refusal does not matter. -/
theorem bind_left {b : Build α} (hb : Refuses b cause) (f : α → Build β) : Refuses (b >>= f) cause := by
  intro s y s'' hrun
  rw [ExceptT.run_bind] at hrun
  obtain ⟨x, s', hx, hy⟩ := Draw.bind_inv hrun
  cases hb s x s' hx
  cases hy
  rfl

/-- What comes first has to go through. -/
theorem bind_right {b : Build α} {f : α → Build β} {P : α → Prop} (hb : Ensures b P)
    (hf : ∀ a, P a → Refuses (f a) cause) : Refuses (b >>= f) cause := by
  intro s y s'' hrun
  rw [ExceptT.run_bind] at hrun
  obtain ⟨x, s', hx, hy⟩ := Draw.bind_inv hrun
  obtain ⟨a, rfl, ha⟩ := hb s x s' hx
  exact hf a ha s' y s'' hy

/-- Of builds made for the items of a list, the first that is refused decides. -/
theorem mapM {f : α → Build β} {x : α} (hx : Refuses (f x) cause) (after : List α) :
    ∀ {before : List α}, (∀ y ∈ before, Ensures (f y) fun _ => True) →
      Refuses ((before ++ x :: after).mapM f) cause
  | [], _ => by
    rw [List.nil_append, List.mapM_cons]
    exact hx.bind_left _
  | y :: before, h => by
    rw [List.cons_append, List.mapM_cons]
    refine .bind_right (h y List.mem_cons_self) fun _ _ => ?_
    exact (mapM hx after fun z hz => h z (List.mem_cons_of_mem y hz)).bind_left _

end Refuses

end Build

/-! ## The verdict on a list of indices -/

/-- The catalog names an index that it does not know. -/
theorem Catalog.drawGene_refuses {index : Nat} (hindex : 16 ≤ index) (len : Nat) :
    (drawGene index len).Refuses (.unknownGene index) := by
  have hrule : rule? index = .error (.unknownGene index) := by
    unfold rule?
    rw [List.getElem?_eq_none hindex]
  unfold drawGene
  rw [hrule]
  exact Build.Refuses.throw.bind_left _

namespace Program

/-- What building from the indices comes to. The first index beyond the catalog is named, whatever the length;
without one, a length out of bounds is named; and otherwise there is a program with these indices in order, all of
whose genes agree with the catalog and jump into the program. -/
def Verdict (indices : List Nat) (x : Except Refusal Program) : Prop :=
  match indices.find? (16 ≤ ·) with
  | some i => x = .error (.unknownGene i)
  | none   =>
    if 15 ≤ indices.length ∧ indices.length ≤ 60 then
      ∃ p, x = .ok p ∧ p.indices = indices ∧ p.Executable
    else x = .error (.program (.length indices.length))

/-- A program that is built has these indices, and all of its genes can be executed. -/
theorem Verdict.built {indices : List Nat} {p : Program} (h : Verdict indices (.ok p)) :
    p.indices = indices ∧ p.Executable := by
  unfold Verdict at h
  split at h
  · cases h
  · split at h
    · obtain ⟨q, hq, hbuilt⟩ := h
      cases hq
      exact hbuilt
    · cases h

/-- A list of genes that is too short or too long is refused by its length. -/
theorem ofDrawn_refuses {genes : List Gene} (h : ¬ (15 ≤ genes.length ∧ genes.length ≤ 60)) :
    (ofDrawn genes).Refuses (.program (.length genes.length)) := by
  unfold ofDrawn
  rw [ofGenes_of_length h]
  exact .throw

/-- The genes that are drawn for known indices. -/
theorem drawn_ensures {indices : List Nat} (h : ∀ i ∈ indices, i < 16) :
    Build.Ensures (indices.mapM fun i => Catalog.drawGene i indices.length)
      (List.Forall₂ (fun i g => g.Fits (max indices.length 1) ∧ g.index = i) indices) :=
  .mapM fun i hi => Catalog.drawGene_ensures (h i hi)

/-- An index that is unknown is refused when it is come to, after known ones. -/
theorem ofIndices_refuses_unknown {before after : List Nat} {i : Nat} (hbefore : ∀ j ∈ before, j < 16)
    (hi : 16 ≤ i) : (ofIndices (before ++ i :: after)).Refuses (.unknownGene i) := by
  have hdrawn := Build.Refuses.mapM (f := fun j => Catalog.drawGene j (before ++ i :: after).length)
    (Catalog.drawGene_refuses hi _) after fun j hj =>
      (Catalog.drawGene_ensures (hbefore j hj)).mono fun _ _ => trivial
  exact hdrawn.bind_left _

/-- A list of known ones is refused if there are too few or too many of them. -/
theorem ofIndices_refuses_length {indices : List Nat} (hknown : ∀ i ∈ indices, i < 16)
    (hlength : ¬ (15 ≤ indices.length ∧ indices.length ≤ 60)) :
    (ofIndices indices).Refuses (.program (.length indices.length)) := by
  unfold ofIndices
  refine .bind_right (drawn_ensures hknown) fun genes hgenes => ?_
  -- the refusal names the number of genes, and there is one for each index
  rw [hgenes.length_eq] at hlength ⊢
  exact ofDrawn_refuses hlength

/-- And otherwise it makes a program of those very genes. -/
theorem ofIndices_ensures {indices : List Nat} (hknown : ∀ i ∈ indices, i < 16)
    (hlength : 15 ≤ indices.length ∧ indices.length ≤ 60) :
    Build.Ensures (ofIndices indices) fun p => p.indices = indices ∧ p.Executable := by
  unfold ofIndices
  refine .bind (drawn_ensures hknown) fun genes hgenes => ?_
  have hindices : genes.map (·.index) = indices.map id := forall₂_map_eq hgenes fun i g hg => hg.2
  rw [hgenes.length_eq] at hlength
  -- jumps were drawn for the number of indices, which is the length of the program
  refine (ofDrawn_executable hlength.1 hlength.2 fun g hg => ?_).mono fun p hp => ⟨?_, hp.2⟩
  · obtain ⟨i, -, hfit, -⟩ := forall₂_mem_right hgenes hg
    rwa [hgenes.length_eq] at hfit
  · rw [Program.indices, hp.1, hindices, List.map_id]

/-- To build a program does not break off. -/
theorem ofIndices_steady (indices : List Nat) : (ofIndices indices).Steady := by
  unfold ofIndices
  exact .bind (.mapM fun i _ => Catalog.drawGene_steady i _) .any fun genes _ => ofDrawn_steady genes

/-- **The verdict** is the same on every source. -/
theorem ofIndices_verdict {indices : List Nat} {s s' : Source} {x : Except Refusal Program}
    (hrun : (ofIndices indices).run.run s = .ok (x, s')) : Verdict indices x := by
  unfold Verdict
  split
  · rename_i i hfirst
    -- genes are drawn for what comes before the first unknown index, and nothing is drawn after it
    obtain ⟨hi, before, after, rfl, hbefore⟩ := List.find?_eq_some_iff_append.mp hfirst
    refine ofIndices_refuses_unknown (fun j hj => ?_) (by simpa using hi) s x s' hrun
    simpa using hbefore j hj
  · rename_i hnone
    have hknown : ∀ i ∈ indices, i < 16 := fun i hi => by simpa using List.find?_eq_none.mp hnone i hi
    split
    · rename_i hlength
      exact ofIndices_ensures hknown hlength s x s' hrun
    · rename_i hlength
      exact ofIndices_refuses_length hknown hlength s x s' hrun

end Program

/-! ## Letters -/

/-- The catalog index that a letter stands for. -/
def letterIndex? (c : Char) : Option Nat := if 'A' ≤ c ∧ c ≤ 'P' then some (c.toNat - 'A'.toNat) else none

/-- The indices that a genetic string spells. -/
def spelledIndices? (genetic : String) : Option (List Nat) := genetic.toList.mapM letterIndex?

/-- A letter stands for the index of its gene. -/
theorem Gene.letterIndex?_code {g : Gene} (h : g.index < 16) : letterIndex? g.code = some g.index := by
  have hletters : ∀ i < 16, letterIndex? (Char.ofNat (65 + i % catalogLength)) = some i := by decide
  exact hletters g.index h

theorem mapM_letterIndex?_code {genes : List Gene} (h : ∀ g ∈ genes, g.index < 16) :
    (genes.map Gene.code).mapM letterIndex? = some (genes.map (·.index)) := by
  induction genes with
  | nil => rfl
  | cons g genes ih =>
    obtain ⟨hg, hgenes⟩ := List.forall_mem_cons.mp h
    rw [List.map_cons, List.mapM_cons, Gene.letterIndex?_code hg, ih hgenes]
    rfl

namespace Program

variable {p q : Program}

/-- The letters of a program's genetic string say its indices. -/
theorem spelledIndices?_geneticString (p : Program) :
    spelledIndices? p.geneticString = some p.indices := by
  unfold spelledIndices? geneticString
  rw [String.toList_ofList]
  exact mapM_letterIndex?_code fun g hg => p.isProgram.index_lt hg

/-- The indices of a program are known, and there are neither too few nor too many. -/
theorem Verdict.of_indices {x : Except Refusal Program} (h : Verdict p.indices x) :
    ∃ q, x = .ok q ∧ q.indices = p.indices := by
  -- the indices of a program are in the catalog, so none of them is objected to
  have hknown : p.indices.find? (16 ≤ ·) = none := by
    refine List.find?_eq_none.mpr fun i hi => ?_
    obtain ⟨g, hg, rfl⟩ := List.mem_map.mp hi
    have hlt : g.index < 16 := p.isProgram.index_lt hg
    simpa using hlt
  have hlength : 15 ≤ p.indices.length ∧ p.indices.length ≤ 60 := by
    rw [indices, List.length_map]
    exact ⟨p.isProgram.shortest_le, p.isProgram.le_longest⟩
  unfold Verdict at h
  rw [hknown] at h
  dsimp only at h
  rw [if_pos hlength] at h
  obtain ⟨q, hx, hindices, -⟩ := h
  exact ⟨q, hx, hindices⟩

end Program

/-! ## Building -/

/-- **Programs are built from the lists of fifteen to sixty known indices**, and every other list is refused for
its first unknown index or else for its length. On every source the build returns with this verdict, unless a draw
is given up. What the genetic string of a program spells is such a list, and every program that is built from it
has the same string and the same hue. -/
theorem programs_are_built_from_their_indices :
    (∀ (indices : List Nat) (s : Source),
      (∃ x s', (Program.ofIndices indices).run.run s = .ok (x, s') ∧ Program.Verdict indices x) ∨
        (Program.ofIndices indices).run.run s = .error .exhausted) ∧
      ∀ p : Program, ∃ indices, spelledIndices? p.geneticString = some indices ∧
        ∀ s x s', (Program.ofIndices indices).run.run s = .ok (x, s') →
          ∃ q, x = .ok q ∧ q.geneticString = p.geneticString ∧
            geneticHue q.geneticString = geneticHue p.geneticString := by
  refine ⟨fun indices s => ?_, fun p => ⟨_, p.spelledIndices?_geneticString, fun s x s' hrun => ?_⟩⟩
  · cases hrun : (Program.ofIndices indices).run.run s with
    | ok result => exact .inl ⟨result.1, result.2, rfl, Program.ofIndices_verdict hrun⟩
    | error cause => exact .inr (congrArg _ (Program.ofIndices_steady indices s cause hrun))
  · obtain ⟨q, hq, hindices⟩ := (Program.ofIndices_verdict hrun).of_indices
    have hstring := Program.geneticString_eq_of_indices hindices
    exact ⟨q, hq, hstring, congrArg geneticHue hstring⟩

/-- Three lists of which one is a program's: the second of four indices is unknown, then a gene is missing, and then
fifteen genes that wait are built twice with other identities. -/
theorem programs_are_built_from_their_indices_waiting :
    let words (k : UInt64) : Source := ⟨(List.range 15).flatMap fun i => [i.toUInt64, k], default⟩
    (∃ s', (Program.ofIndices [15, 40, 99, 15]).run.run (words 0) = .ok (.error (.unknownGene 40), s')) ∧
      (∃ s', (Program.ofIndices (List.replicate 14 15)).run.run (words 0) =
        .ok (.error (.program (.length 14)), s')) ∧
      ∃ p q s' t', (Program.ofIndices (List.replicate 15 15)).run.run (words 0) = .ok (.ok p, s') ∧
        (Program.ofIndices (List.replicate 15 15)).run.run (words 1) = .ok (.ok q, t') ∧
        p.indices = List.replicate 15 15 ∧ p.Executable ∧ q.geneticString = p.geneticString := by
  intro words
  obtain ⟨hverdict, hspelled⟩ := programs_are_built_from_their_indices
  -- the run is not short of words, so what it returns is a verdict
  have hreturns (indices : List Nat) (s : Source) (h : ((Program.ofIndices indices).run.run s).isOk = true) :
      ∃ x s', (Program.ofIndices indices).run.run s = .ok (x, s') ∧ Program.Verdict indices x := by
    refine (hverdict indices s).resolve_right fun hgiven => ?_
    rw [hgiven] at h
    cases h
  obtain ⟨_, s₁, hunknown, rfl⟩ := hreturns [15, 40, 99, 15] (words 0) (by decide +kernel)
  obtain ⟨_, s₂, hshort, rfl⟩ := hreturns (List.replicate 14 15) (words 0) (by decide +kernel)
  obtain ⟨_, s₃, hbuilt, p, rfl, hindices, hfits⟩ :=
    hreturns (List.replicate 15 15) (words 0) (by decide +kernel)
  obtain ⟨x, s₄, hagain, -⟩ := hreturns (List.replicate 15 15) (words 1) (by decide +kernel)
  obtain ⟨indices, hletters, hrebuilt⟩ := hspelled p
  obtain rfl : List.replicate 15 15 = indices := by
    rw [p.spelledIndices?_geneticString, hindices] at hletters
    exact Option.some.inj hletters
  obtain ⟨q, rfl, hstring, -⟩ := hrebuilt (words 1) x s₄ hagain
  exact ⟨⟨s₁, hunknown⟩, ⟨s₂, hshort⟩, p, q, s₃, s₄, hbuilt, hagain, hindices, hfits, hstring⟩

end Vivarium
