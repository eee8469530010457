import Vivarium.Proofs.Evolution.Sequence
import Vivarium.Proofs.Random.Fraction

/-!
# Lines of descent

In a line of descent every generation is the offspring of the one before it, all drawn from one source. A
generation begins with a clone and a roll for a mutation, which succeeds unless its fraction lies above
the parent's mutation rate.

A rate of zero does not rule mutations out: the fraction of a word can be zero, which is not above the rate. It is
so for one word in `2 ^ 53`. Until such a word is rolled a line is frozen: every descendant has
the genome and the traits of the founder, and so the rate stays at zero.

Main result: `line_frozen_until_roll_of_zero`.
-/

namespace Vivarium

/-! ## The roll for a mutation -/

/-- How the roll for a mutation went in the reproduction that returned `o`. After the clone one word is drawn for
it. If its fraction is above the rate, nothing is changed; otherwise an operator is selected, if there is one
that can be. -/
inductive Offspring.Rolled (parent : Program) (traits : Traits) (config : EvolutionConfig) (source : Source)
    (o : Offspring) : Prop
  | spared {genes : List Gene} {cloned : Source}
      (hclone : (parent.cloneGenes config.recloneMemory).run.run source = .ok (.ok genes, cloned))
      (hroll : traits.mutationRate < Draw.fractionOfWord cloned.next64.1)
      (hmutated : o.mutated = false) (hoperator : o.operator = none)
  | succeeded {genes : List Gene} {cloned selected : Source}
      (hclone : (parent.cloneGenes config.recloneMemory).run.run source = .ok (.ok genes, cloned))
      (hroll : ¬ traits.mutationRate < Draw.fractionOfWord cloned.next64.1)
      (hselect : (MutationOperator.select genes.length config.operatorWeights).run cloned.next64.2 =
        .ok (o.operator, selected))
      (hmutated : o.mutated = true)

/-- A reproduction that returns has rolled once. -/
theorem Program.evolve_rolled {parent : Program} {traits : Traits} {config : EvolutionConfig}
    {source source' : Source} {o : Offspring}
    (h : (parent.evolve traits config).run.run source = .ok (.ok o, source')) :
    o.Rolled parent traits config source := by
  unfold evolve at h
  obtain ⟨genes, cloned, hclone, h⟩ := Build.bind_inv h
  obtain ⟨roll, rolled, hdraw, h⟩ := Build.bind_inv h
  obtain ⟨_, heq, hdraw⟩ := Build.lift_inv hdraw
  cases heq
  -- the roll is the fraction of the next word
  obtain ⟨rfl, rfl⟩ : Draw.fractionOfWord cloned.next64.1 = roll ∧ cloned.next64.2 = rolled :=
    Prod.mk.inj (Except.ok.inj hdraw)
  split at h
  · rename_i hroll
    obtain ⟨p, last, -, hpure⟩ := Build.bind_inv h
    rw [ExceptT.run_pure, StateT.run_pure] at hpure
    cases hpure
    exact .spared hclone hroll rfl rfl
  · rename_i hroll
    obtain ⟨operator, selected, hselect, h⟩ := Build.bind_inv h
    obtain ⟨_, heq, hselect⟩ := Build.lift_inv hselect
    cases heq
    -- with an operator or without one, the clone is repaired, and the offspring names what was selected
    have hreported : o.mutated = true ∧ o.operator = operator := by
      cases operator <;>
      · obtain ⟨edit, edited, -, h⟩ := Build.bind_inv h
        obtain ⟨repaired, mended, -, h⟩ := Build.bind_inv h
        obtain ⟨p, last, -, hpure⟩ := Build.bind_inv h
        rw [ExceptT.run_pure, StateT.run_pure] at hpure
        cases hpure
        exact ⟨rfl, rfl⟩
    obtain ⟨hmutated, rfl⟩ := hreported
    rw [Slot.ofGenes, List.length_map] at hselect
    exact .succeeded hclone hroll hselect hmutated

/-! ## Lines -/

/-- The first `generations` descendants of a founder in a direct line. -/
def Program.descend (config : EvolutionConfig) : (generations : Nat) → Program → Traits → Build (List Offspring)
  | 0,     _,       _      => return []
  | n + 1, founder, traits => do
    let o ← founder.evolve traits config
    return o :: (← descend config n o.program o.traits)

/-- A descendant, with the word that was rolled when it was born. -/
structure Generation where
  roll      : UInt64
  offspring : Offspring

/-- A line of descent of the founder `p` with traits `t`, drawn from one source, after which another is left. -/
inductive Line (config : EvolutionConfig) :
    Program → Traits → Source → List Generation → Source → Prop
  | nil {p : Program} {t : Traits} {s : Source} : Line config p t s [] s
  | cons {p : Program} {t : Traits} {s cloned s' last : Source} {genes : List Gene} {o : Offspring}
      {line : List Generation}
      (hclone : (p.cloneGenes config.recloneMemory).run.run s = .ok (.ok genes, cloned))
      (hevolve : (p.evolve t config).run.run s = .ok (.ok o, s'))
      (hline : Line config o.program o.traits s' line last) :
      Line config p t s (⟨cloned.next64.1, o⟩ :: line) last

/-- **What descends is a line.** A run over any number of generations is never refused. -/
theorem Program.descend_line {config : EvolutionConfig} (n : Nat) {p : Program} {t : Traits}
    {s last : Source} {result : Except Refusal (List Offspring)}
    (h : (descend config n p t).run.run s = .ok (result, last)) :
    ∃ line : List Generation, result = .ok (line.map (·.offspring)) ∧ line.length = n ∧
      Line config p t s line last := by
  induction n generalizing p t s result last with
  | zero =>
    rw [descend, ExceptT.run_pure, StateT.run_pure] at h
    cases h
    exact ⟨[], rfl, rfl, .nil⟩
  | succ n ih =>
    rw [descend, ExceptT.run_bind] at h
    obtain ⟨x, s', hevolve, h⟩ := Draw.bind_inv h
    obtain ⟨o, rfl, -⟩ := evolve_ensures p t config s x s' hevolve
    -- the rest descends from the first offspring
    replace h : (descend config n o.program o.traits >>= fun line => pure (o :: line)).run.run s' =
      .ok (result, last) := h
    rw [ExceptT.run_bind] at h
    obtain ⟨y, last', hrest, h⟩ := Draw.bind_inv h
    obtain ⟨line, rfl, hlength, hline⟩ := ih hrest
    cases h
    obtain ⟨genes, cloned, hclone, -⟩ := Build.bind_inv hevolve
    refine ⟨⟨cloned.next64.1, o⟩ :: line, rfl, ?_, .cons hclone hevolve hline⟩
    rw [List.length_cons, hlength]

/-! ## A rate of zero -/

/-- The fraction of the word is zero. -/
abbrev RollsZero (w : UInt64) : Prop := w.toNat < 2 ^ 11

/-- **One generation at a rate of zero.** The roll succeeds just if its fraction is zero; if it is not,
the genome and the traits are handed on. -/
theorem Program.evolve_at_zero {p : Program} {t : Traits} {config : EvolutionConfig}
    (hrate : (t.mutationRate == 0.0) = true) {s cloned s' : Source} {genes : List Gene} {o : Offspring}
    (hclone : (p.cloneGenes config.recloneMemory).run.run s = .ok (.ok genes, cloned))
    (hevolve : (p.evolve t config).run.run s = .ok (.ok o, s')) :
    (o.mutated = true ↔ RollsZero cloned.next64.1) ∧
      (¬ RollsZero cloned.next64.1 →
        o.operator = none ∧ o.program.geneticString = p.geneticString ∧ o.traits = t) := by
  have hroll : t.mutationRate < Draw.fractionOfWord cloned.next64.1 ↔ ¬ RollsZero cloned.next64.1 :=
    (Draw.lt_fractionOfWord_iff hrate _).trans Nat.not_lt.symm
  obtain ⟨tr, -, hreproduced⟩ := evolve_traced hevolve
  cases evolve_rolled hevolve with
  | spared hclone' hspared hmutated hoperator =>
    cases hclone.symm.trans hclone'
    have hnonzero := hroll.mp hspared
    refine ⟨⟨fun h => ?_, fun h => absurd h hnonzero⟩, fun _ => ⟨hoperator, ?_, ?_⟩⟩
    · rw [hmutated] at h
      cases h
    · have hsequence := hreproduced.resequenced
      rw [hoperator] at hsequence
      exact geneticString_eq_of_indices hsequence
    · refine hreproduced.traits_eq ?_
      rw [hoperator]
      exact nofun
  -- a zero rate is not exceeded by a zero fraction alone
  | succeeded hclone' hsucceeded _ hmutated =>
    cases hclone.symm.trans hclone'
    have hzero : RollsZero cloned.next64.1 := by
      by_contra h
      exact hsucceeded (hroll.mpr h)
    exact ⟨⟨fun _ => hzero, fun _ => hmutated⟩, fun h => absurd hzero h⟩

/-- A line at a rate of zero is frozen as long as no roll is zero. The induction is on the line: what is not
changed in one generation is the founder of the rest, at the same rate. -/
theorem Line.frozen {config : EvolutionConfig} {p : Program} {t : Traits} {s last : Source}
    {line : List Generation} (h : Line config p t s line last) (hrate : (t.mutationRate == 0.0) = true) :
    ∀ before g after, line = before ++ g :: after → (∀ e ∈ before, ¬ RollsZero e.roll) →
      (g.offspring.mutated = true ↔ RollsZero g.roll) ∧
        (¬ RollsZero g.roll → g.offspring.operator = none ∧
          g.offspring.program.geneticString = p.geneticString ∧ g.offspring.traits = t) := by
  induction h with
  | nil =>
    intro before g after hsplit
    simp at hsplit
  | @cons p t s cloned s' last genes o line hclone hevolve hline ih =>
    obtain ⟨hmutated, hfrozen⟩ := Program.evolve_at_zero hrate hclone hevolve
    intro before g after hsplit hbefore
    cases before with
    | nil =>
      -- the generation in question is the first
      obtain ⟨rfl, rfl⟩ := List.cons.inj hsplit
      exact ⟨hmutated, hfrozen⟩
    | cons e before =>
      obtain ⟨rfl, rfl⟩ := List.cons.inj hsplit
      obtain ⟨hfirst, hothers⟩ := List.forall_mem_cons.mp hbefore
      obtain ⟨-, hgenome, htraits⟩ := hfrozen hfirst
      -- so the rest of the line begins with the founder's traits, and with its genome
      rw [htraits] at ih hline
      rw [← hgenome]
      exact ih hrate before g after rfl hothers

/-- **At a rate of zero a line is frozen until a roll of zero.** For every founder whose mutation rate is zero,
every configuration, every source and every number of generations: the run is never refused, and it
returns a line of descent with one offspring for each generation. In the first generation whose roll
has a fraction of zero the roll succeeds, although the rate is zero. In all generations before it, and so in the
whole line if there is none, nothing is mutated, no operator is reported, and the genome and the traits are those
of the founder. -/
theorem line_frozen_until_roll_of_zero {founder : Program} {traits : Traits} {config : EvolutionConfig}
    (hrate : (traits.mutationRate == 0.0) = true) {n : Nat} {s last : Source}
    {result : Except Refusal (List Offspring)}
    (hrun : (founder.descend config n traits).run.run s = .ok (result, last)) :
    ∃ line : List Generation, result = .ok (line.map (·.offspring)) ∧ line.length = n ∧
      Line config founder traits s line last ∧
      ∀ before g after, line = before ++ g :: after → (∀ e ∈ before, 2 ^ 11 ≤ e.roll.toNat) →
        (g.offspring.mutated = true ↔ g.roll.toNat < 2 ^ 11) ∧
        (2 ^ 11 ≤ g.roll.toNat → g.offspring.operator = none ∧
          g.offspring.program.geneticString = founder.geneticString ∧ g.offspring.traits = traits) := by
  obtain ⟨line, hresult, hlength, hline⟩ := Program.descend_line n hrun
  refine ⟨line, hresult, hlength, hline, fun before g after hsplit hbefore => ?_⟩
  obtain ⟨hmutated, hfrozen⟩ :=
    hline.frozen hrate before g after hsplit fun e he => Nat.not_lt.mpr (hbefore e he)
  exact ⟨hmutated, fun h => hfrozen (Nat.not_lt.mpr h)⟩

/-- Two generations of attackers that may only be cut: the first rolls the least fraction above zero, the second
rolls zero. -/
theorem line_frozen_until_roll_of_zero_pouncing :
    (({ mutationRate := 0.0 } : Traits).mutationRate == 0.0) = true ∧ ∃ (first second : Generation) (last : Source),
      (Program.pouncing.descend .cutting 2 { mutationRate := 0.0 }).run.run
          ⟨List.replicate 52 0 ++ 2048 :: List.replicate 55 0, default⟩ =
        .ok (.ok [first.offspring, second.offspring], last) ∧
      2 ^ 11 ≤ first.roll.toNat ∧ first.offspring.operator = none ∧
      first.offspring.program.geneticString = Program.pouncing.geneticString ∧
      first.offspring.traits = { mutationRate := 0.0 } ∧
      second.roll.toNat < 2 ^ 11 ∧ second.offspring.operator = some .deleteSegment := by
  have hrate : (({ mutationRate := 0.0 } : Traits).mutationRate == 0.0) = true := by decide +kernel
  have hcheck : ((Program.pouncing.descend .cutting 2 { mutationRate := 0.0 }).run.run
      ⟨List.replicate 52 0 ++ 2048 :: List.replicate 55 0, default⟩).toOption.any (fun (x, _) =>
        x.toOption.any fun offspring => decide (offspring.map (fun o => (o.mutated, o.operator)) =
          [(false, none), (true, some .deleteSegment)])) = true := by
    decide +kernel
  obtain ⟨⟨x, last⟩, hrun, hcheck⟩ := except_any_inv hcheck
  obtain ⟨offspring, rfl, hcheck⟩ := except_any_inv hcheck
  have hreports := of_decide_eq_true hcheck
  obtain ⟨line, heq, hlength, -, hline⟩ := line_frozen_until_roll_of_zero hrate hrun
  cases heq
  obtain ⟨first, second, rfl⟩ := List.length_eq_two.mp hlength
  obtain ⟨⟨hspared, hnone⟩, hmutated, hcut⟩ : (first.offspring.mutated = false ∧
      first.offspring.operator = none) ∧ second.offspring.mutated = true ∧
      second.offspring.operator = some .deleteSegment := by simpa using hreports
  -- who is not mutated has not rolled zero
  obtain ⟨hfirst, hfrozen⟩ := hline [] first [second] rfl nofun
  have hlarge : 2 ^ 11 ≤ first.roll.toNat := by
    by_contra hsmall
    rw [hfirst.mpr (Nat.lt_of_not_le hsmall)] at hspared
    cases hspared
  obtain ⟨-, hgenome, htraits⟩ := hfrozen hlarge
  obtain ⟨hsecond, -⟩ := hline [first] second [] rfl (by simpa using hlarge)
  exact ⟨hrate, first, second, last, hrun, hlarge, hnone, hgenome, htraits, hsecond.mp hmutated, hcut⟩

/-- **A rate of zero does not freeze a line.** On a source that rolls a fraction of zero the first offspring is
mutated: a gene is cut out of its program. -/
theorem zero_rate_does_not_freeze :
    ∃ o last, (Program.pouncing.evolve { mutationRate := 0.0 } .cutting).run.run
        ⟨List.replicate 56 0, default⟩ = .ok (.ok o, last) ∧
      o.mutated = true ∧ o.operator = some .deleteSegment ∧
      o.program.geneticString ≠ Program.pouncing.geneticString := by
  -- a source of zeros makes every roll zero, and zero is not above a rate of zero
  have hcheck : ((Program.pouncing.evolve { mutationRate := 0.0 } .cutting).run.run
      ⟨List.replicate 56 0, default⟩).toOption.any (fun (x, _) => x.toOption.any fun o =>
        decide (o.mutated = true ∧ o.operator = some .deleteSegment ∧
          o.program.geneticString ≠ Program.pouncing.geneticString)) = true := by
    decide +kernel
  obtain ⟨⟨x, last⟩, hrun, hcheck⟩ := except_any_inv hcheck
  obtain ⟨o, rfl, hcheck⟩ := except_any_inv hcheck
  exact ⟨o, last, hrun, of_decide_eq_true hcheck⟩

end Vivarium
