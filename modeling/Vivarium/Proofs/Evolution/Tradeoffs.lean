import Vivarium.Proofs.Evolution.Sequence
import Vivarium.Proofs.Random.Fraction

/-!
# Inherited traits stay in balance

The four traits hang together in pairs. Sight is traded against reach, so that both always add up to the same
total; and threshold and mutation rate are one number. The default traits are in balance, and a modification
sets both traits of one pair at once, so all traits that are inherited from them are in balance too, however
long the line, whatever the programs and the configurations, and whatever is drawn.

Main result: `inherited_traits_stay_balanced`.
-/

namespace Vivarium

open Double

namespace Traits

/-- Traits in balance: the reach is a whole number from 0 to 174, sight is what it leaves of 350, and threshold and
mutation rate are one number of `[0, 1)`. -/
structure Balanced (t : Traits) : Prop where
  reach        : ∃ n : Nat, n ≤ 174 ∧ t.attackRange = Float.ofNat n ∧
    IsWhole t.attackRange n ∧ IsWhole t.vision (350 - n)
  vision_eq    : t.vision = 350.0 - t.attackRange
  threshold_eq : t.familyThreshold = t.mutationRate
  rate_nonneg  : 0.0 ≤ t.mutationRate
  rate_lt_one  : t.mutationRate < 1.0

/-- Traits that come down to a creature from the default ones, by any number of reproductions of any programs. -/
inductive Inherited : Traits → Prop
  | default : Inherited {}
  | child {t : Traits} {p : Program} {config : EvolutionConfig} {s s' : Source} {o : Offspring}
      (ht : Inherited t) (hrun : (p.evolve t config).run.run s = .ok (.ok o, s')) : Inherited o.traits

/-- The two traits of a pair are as before. -/
def OnePairKept (t t' : Traits) : Prop :=
  (t'.vision = t.vision ∧ t'.attackRange = t.attackRange) ∨
    (t'.familyThreshold = t.familyThreshold ∧ t'.mutationRate = t.mutationRate)

theorem Balanced.default : Balanced {} where
  reach        := ⟨75, by decide +kernel⟩
  vision_eq    := by decide +kernel
  threshold_eq := rfl
  rate_nonneg  := by decide +kernel
  rate_lt_one  := by decide +kernel

/-! ## One generation -/

variable {t t' : Traits}

/-- A modification keeps the balance: each pair is set as a whole, or left alone as a whole. -/
theorem Modified.balanced (h : t.Modified t') (ht : t.Balanced) : t'.Balanced := by
  cases h with
  -- sight and reach are new, and are two whole numbers that add up to 350
  | traded range hlt =>
    have hrange : range ≤ 174 := Nat.le_of_lt_succ hlt
    have hwhole : IsWhole (Float.ofNat range) range := isWhole_ofNat (by omega)
    have htotal : IsWhole 350.0 350 := by decide +kernel
    have hvision : IsWhole (350.0 - Float.ofNat range) (350 - range) := htotal.sub hwhole (by omega)
    exact
      { reach        := ⟨range, hrange, rfl, hwhole, hvision⟩
        vision_eq    := rfl
        threshold_eq := ht.threshold_eq
        rate_nonneg  := ht.rate_nonneg
        rate_lt_one  := ht.rate_lt_one }
  -- threshold and rate are new, and are one fraction
  | yoked word =>
    exact
      { reach        := ht.reach
        vision_eq    := ht.vision_eq
        threshold_eq := rfl
        rate_nonneg  := Draw.fractionOfWord_nonneg word
        rate_lt_one  := Draw.fractionOfWord_lt_one word }

theorem Modified.onePairKept (h : t.Modified t') : t.OnePairKept t' := by
  cases h with
  | traded range hlt => exact .inr ⟨rfl, rfl⟩
  | yoked word => exact .inl ⟨rfl, rfl⟩

variable {operator : Option MutationOperator}

theorem Becomes.balanced (h : t.Becomes operator t') (ht : t.Balanced) : t'.Balanced := by
  by_cases hoperator : operator = some .modifyTraits
  · subst hoperator
    exact Modified.balanced h ht
  -- any other operator, or none, hands the traits on
  · rw [h.eq hoperator]
    exact ht

theorem Becomes.onePairKept (h : t.Becomes operator t') : t.OnePairKept t' := by
  by_cases hoperator : operator = some .modifyTraits
  · subst hoperator
    exact Modified.onePairKept h
  · rw [h.eq hoperator]
    exact .inl ⟨rfl, rfl⟩

/-! ## Lines -/

/-- Traits that are inherited are in balance, by induction on the line. -/
theorem Inherited.balanced (h : t.Inherited) : t.Balanced := by
  induction h with
  | default => exact .default
  | child _ hrun ih =>
    obtain ⟨tr, -, hreproduced⟩ := Program.evolve_traced hrun
    exact hreproduced.becomes.balanced ih

end Traits

/-- **Inherited traits stay in balance.** Whatever line of descent the traits come from, beginning with the default
ones: the attack range is a whole number from 0 to 174 and vision is 350 less that number, the threshold is the
mutation rate, and this lies in `[0, 1)`. Whatever program is reproduced with them, under any configuration
and on any source on which that returns, it is not refused, the traits of the offspring are inherited again,
they are the same ones unless the operator is the one that modifies traits, and at most one of the two pairs
is changed. -/
theorem inherited_traits_stay_balanced {t : Traits} (ht : t.Inherited) :
    (∃ n : Nat, n ≤ 174 ∧ t.attackRange = Float.ofNat n ∧
      IsWhole t.attackRange n ∧ IsWhole t.vision (350 - n)) ∧
    t.vision = 350.0 - t.attackRange ∧
    t.familyThreshold = t.mutationRate ∧ 0.0 ≤ t.mutationRate ∧ t.mutationRate < 1.0 ∧
    ∀ (p : Program) (config : EvolutionConfig) (s s' : Source) (x : Except Refusal Offspring),
      (p.evolve t config).run.run s = .ok (x, s') → ∃ o, x = .ok o ∧ o.traits.Inherited ∧
        (o.operator ≠ some .modifyTraits → o.traits = t) ∧
        ((o.traits.vision = t.vision ∧ o.traits.attackRange = t.attackRange) ∨
          (o.traits.familyThreshold = t.familyThreshold ∧ o.traits.mutationRate = t.mutationRate)) := by
  have hbalanced := ht.balanced
  refine ⟨hbalanced.reach, hbalanced.vision_eq, hbalanced.threshold_eq, hbalanced.rate_nonneg,
    hbalanced.rate_lt_one, fun p config s s' x hrun => ?_⟩
  obtain ⟨o, rfl, tr, hreproduced⟩ := evolve_ensures p t config s x s' hrun
  exact ⟨o, rfl, .child ht hrun, hreproduced.becomes.eq, hreproduced.becomes.onePairKept⟩

/-- The only operator that may run is the one that modifies traits. -/
def EvolutionConfig.retraining : EvolutionConfig := { operatorWeights := ⟨0, 0, 0, 0, 1⟩ }

/-- A child of default traits whose sight is traded for as much reach as there can be. -/
theorem inherited_traits_stay_balanced_reaching :
    ∃ (o : Offspring) (s' : Source), (Program.pouncing.evolve {} .retraining).run.run
        ⟨List.replicate 55 0 ++ [4284000000], default⟩ = .ok (.ok o, s') ∧
      o.operator = some .modifyTraits ∧ o.traits.Inherited ∧ o.traits.attackRange = Float.ofNat 174 ∧
      o.traits.vision = 350.0 - o.traits.attackRange ∧ IsWhole o.traits.vision 176 ∧
      o.traits.familyThreshold = o.traits.mutationRate := by
  -- what the operator makes of these words is computed, and the balance is taken from the theorem
  have hcheck : ((Program.pouncing.evolve {} .retraining).run.run
      ⟨List.replicate 55 0 ++ [4284000000], default⟩).toOption.any (fun (x, _) => x.toOption.any fun o =>
        decide (o.operator = some .modifyTraits ∧ o.traits.attackRange = Float.ofNat 174 ∧
          IsWhole o.traits.vision 176)) = true := by
    decide +kernel
  obtain ⟨⟨x, s'⟩, hrun, hcheck⟩ := except_any_inv hcheck
  obtain ⟨o, rfl, hcheck⟩ := except_any_inv hcheck
  obtain ⟨hoperator, hrange, hvision⟩ := of_decide_eq_true hcheck
  have hinherited : o.traits.Inherited := .child .default hrun
  obtain ⟨-, htrade, hyoke, -⟩ := inherited_traits_stay_balanced hinherited
  exact ⟨o, s', hrun, hoperator, hinherited, hrange, htrade, hvision, hyoke⟩

end Vivarium
