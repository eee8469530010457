import Vivarium.Proofs.Evolution.Sequence
import Vivarium.Proofs.Kinship.Hue
import Vivarium.Proofs.Random.Fraction
import Vivarium.Proofs.World.Recall
import Vivarium.Proofs.World.Requests

/-!
# Kin

Whether two creatures are kin is decided by what they keep through life: their hues, or their genetic
strings, and their thresholds. A creature decides it by what it sees of the other, and, where genomes are
compared, by a set that was worked out from the memo; both agree with the definition.

Equal genomes are kin in either mode. That rests on the lineages: a threshold is the default, or a fraction
that was drawn once and handed on since, so it never lies above one; and a hue is always that of the genome.

Main results: `isKinTo_of_geneticString_eq`, `isKinTo_of_stranger`.
-/

namespace Vivarium

open Double

/-- Whether two creatures are kin, in a mode of kinship. -/
def Creature.isKinTo (mode : KinshipMode) (c d : Creature) : Bool :=
  match mode with
  | .hue        => isKin ⟨c.hue, c.traits.familyThreshold⟩ ⟨d.hue, d.traits.familyThreshold⟩
  | .similarity =>
    isSimilarKin (diceSimilarity c.program.geneticString d.program.geneticString)
      c.traits.familyThreshold d.traits.familyThreshold

/-! ## Lineages -/

/-- Traits with a threshold that does not lie beyond one. -/
def Traits.Temperate (t : Traits) : Prop := Within t.familyThreshold 1

theorem Traits.Becomes.temperate {t t' : Traits} {operator : Option MutationOperator}
    (h : t.Becomes operator t') (ht : t.Temperate) : t'.Temperate := by
  by_cases hoperator : operator = some .modifyTraits
  · subst hoperator
    cases (show t.Modified t' from h) with
    | traded range hlt => exact ht
    | yoked word => exact Draw.within_fractionOfWord word
  · rw [h.eq hoperator]
    exact ht

/-- The creature's threshold does not lie beyond one, and its hue is that of its genome. -/
structure Creature.TrueBred (c : Creature) : Prop where
  temperate : c.traits.Temperate
  hue_eq    : c.hue = geneticHue c.program.geneticString

variable {E : Type} [Physics E]

theorem Creature.Newborn.trueBred {seed : Seed} {tick : Nat} {e : E} {c : Creature}
    (h : c.Newborn seed tick e) (hseed : seed.traits.Temperate) : c.TrueBred where
  temperate := by
    rw [h.traits_eq]
    exact hseed
  hue_eq    := by
    rw [h.hue_eq, h.program_eq]

theorem trueBred_vital [LawfulPhysics E] : World.Vital E Creature.TrueBred where
  lives   := fun c d hlives h => by
    refine ⟨?_, ?_⟩
    · rw [hlives.traits_eq]
      exact h.temperate
    · rw [hlives.hue_eq, hlives.program_eq]
      exact h.hue_eq
  -- a newcomer has the default traits, and a child those that its operator made of the parent's
  arrives := fun w seed c es harrives hall => by
    cases harrives with
    | fresh _ hnewborn =>
      have hdefault : Within ({} : Traits).familyThreshold 1 := by decide +kernel
      have hbred := hnewborn.trueBred hdefault
      exact ⟨hbred.temperate, hbred.hue_eq⟩
    | child hparent _ _ hreproduced _ hnewborn =>
      exact hnewborn.trueBred (hreproduced.becomes.temperate (hall _ _ hparent).temperate)

/-- **Equal genomes are kin**, in either mode. -/
theorem Creature.isKinTo_of_geneticString_eq {c d : Creature} (hc : c.TrueBred) (hd : d.TrueBred)
    (heq : c.program.geneticString = d.program.geneticString) (mode : KinshipMode) :
    c.isKinTo mode d = true := by
  cases mode with
  | hue =>
    -- genomes that are spelled alike have one hue, and a hue is no distance from itself
    refine isKin_of_hue_eq ?_ ?_ hc.temperate hd.temperate
    · show c.hue = d.hue
      rw [hc.hue_eq, hd.hue_eq, heq]
    · show c.hue.isFinite = true
      rw [hc.hue_eq]
      exact c.program.isFinite_geneticHue
  | similarity =>
    unfold isKinTo
    dsimp only
    rw [heq]
    exact isSimilarKin_self hc.temperate hd.temperate

/-! ## The memo -/

/-- Two computations that agree and return, return what is related. -/
theorem Agree.of_ok {ε α β : Type} {R : α → β → Prop} {x : Except ε α} {y : Except ε β} {a : α} {b : β}
    (h : Agree R x y) (hx : x = .ok a) (hy : y = .ok b) : R a b := by
  subst hx hy
  exact h

omit [Physics E] in
theorem World.Alike.refl {w : World E} (h : w.similarity.Coherent) : w.Alike w :=
  ⟨h, _, _, h, rfl⟩

/-- **The memo holds no wrong score** in any state that ticks lead to. -/
theorem History.memo_coherent {config : Config} {enclosure : E} {entropy : BitVec 256}
    {ticks : List TickCall} {h : History E}
    (hrun : run config enclosure entropy (ticks.map .tick) = .ok h) : h.world.similarity.Coherent := by
  -- a world that holds no wrong score in its memo is alike to itself, and ticks keep worlds alike
  refine run_induction hrun (P := fun h => h.world.similarity.Coherent) (fun w hw => ?_)
    fun h c h' hc ih hcall => ?_
  · obtain ⟨-, births, w₁, hrefill, rfl⟩ := World.create_refill hw
    have hbare : (World.bare config enclosure entropy).Alike (.bare config enclosure entropy) :=
      .refl (.empty _)
    have hfilled := hbare.tells (f := World.refill) fun w k m => w.refill_recalling k m
    exact (hfilled.of_ok hrefill hrefill).2.1
  · obtain ⟨t, -, rfl⟩ := List.mem_map.mp hc
    obtain ⟨⟨events, w'⟩, htick, hpure⟩ := except_bind_inv hcall
    cases hpure
    exact (((World.Alike.refl ih).tickBy t).of_ok htick htick).2.1

namespace Stage

variable {s : Stage E}

/-- Nor does it when a turn of a tick begins. -/
theorem memo_at_turn {w : World E} {t : TickCall} {start : Stage E} {before : List Rank}
    (hw : w.similarity.Coherent) (hstart : w.openingBy t = .ok start)
    (hturns : start.turns before = .ok s) : s.world.similarity.Coherent := by
  have hopened : start.Alike start := ((World.Alike.refl hw).openingBy t).of_ok hstart hstart
  exact ((hopened.turns before).of_ok hturns hturns).1

theorem memo_prepared (h : s.world.similarity.Coherent) (rank : Rank) :
    (s.prepared rank).world.similarity.Coherent := by
  have halike : s.Alike s := ⟨h, _, _, h, rfl⟩
  have hfed := halike.map (f := (·.feed rank)) fun s k m => s.feed_recalling k m rank
  exact (hfed.map (f := (·.tickLaser rank)) fun s k m => s.tickLaser_recalling k m rank).1

/-! ## How kin are told -/

omit [Physics E] in
theorem subset_foldl_addKin (w : World E) (genome : String) (threshold : Float) (vs : List CreatureView)
    (kin : List Ident) : kin ⊆ vs.foldl (addKin w genome threshold) kin := by
  -- the induction is on the views, over the kin that were found before
  induction vs generalizing kin with
  | nil => exact List.Subset.refl kin
  | cons v vs ih =>
    rw [List.foldl_cons]
    refine List.Subset.trans ?_ (ih _)
    unfold addKin
    split
    · exact List.Subset.refl kin
    · dsimp only
      split
      · exact List.subset_cons_self _ _
      · exact List.Subset.refl kin

omit [Physics E] in
/-- Whoever is in view, alive and similar enough is told to be kin. -/
theorem mem_foldl_addKin {w : World E} {genome : String} {threshold : Float} {vs : List CreatureView}
    {kin : List Ident} {v : CreatureView} {d : Creature} (hv : v ∈ vs)
    (hd : w.creatures.get? v.rank = some d)
    (hkin : isSimilarKin (diceSimilarity genome d.program.geneticString) threshold v.familyThreshold =
      true) : v.id ∈ vs.foldl (addKin w genome threshold) kin := by
  obtain ⟨before, after, rfl⟩ := List.append_of_mem hv
  rw [List.foldl_append, List.foldl_cons]
  -- what follows the view can only add to the list
  refine subset_foldl_addKin w genome threshold after _ ?_
  unfold addKin
  rw [hd]
  dsimp only
  rw [if_pos hkin]
  exact List.mem_cons_self

omit [Physics E] in
/-- **Whom a creature does not count as kin, it is not kin to**: what it sees of another is what that one
is, and the memo does not mislead it. -/
theorem isKinTo_of_stranger (hmemo : s.world.similarity.Coherent) {c d : Creature} {v : CreatureView}
    (hv : v ∈ s.views) (hother : v.id ≠ c.id) (hd : s.world.creatures.get? v.rank = some d)
    (hview : v.unplaced = World.unplacedView v.rank d)
    (hstranger : (s.surroundings c).1.isKin c v = false) :
    c.isKinTo s.world.config.kinship.mode d = false := by
  -- the view of the other is up to date
  have hhue : v.hue = d.hue := congrArg (·.hue) hview
  have hthreshold : v.familyThreshold = d.traits.familyThreshold := congrArg (·.familyThreshold) hview
  obtain ⟨m, -, hsight⟩ := surroundings_eq hmemo c
  rw [hsight] at hstranger
  unfold Surroundings.isKin sight at hstranger
  cases hmode : s.world.config.kinship.mode with
  | hue =>
    simp only [hmode, hhue, hthreshold] at hstranger
    exact hstranger
  | similarity =>
    simp only [hmode] at hstranger
    unfold Creature.isKinTo
    rw [Bool.eq_false_iff]
    -- if it were kin to the other, that one would be on the list that it was given
    intro hkin
    rw [← hthreshold] at hkin
    have hlisted : v ∈ s.views.filter fun v => v.id ≠ c.id :=
      List.mem_filter.mpr ⟨hv, decide_eq_true hother⟩
    have hmem : v.id ∈ (s.views.filter fun v => v.id ≠ c.id).foldl
        (addKin s.world c.program.geneticString c.traits.familyThreshold) [] :=
      mem_foldl_addKin hlisted hd hkin
    rw [List.contains_iff_mem.mpr hmem] at hstranger
    cases hstranger

end Stage

end Vivarium
