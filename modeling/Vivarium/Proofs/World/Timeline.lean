import Vivarium.Proofs.World.Lifelong

/-!
# What holds at all moments

A property of worlds that every change keeps, and that depends neither on the clock nor on what is pending,
holds at every moment of a run if it holds of the bare world: in the middle of ticks as well as between them,
and also where the run breaks off later. `World.Lasting` is the condition on the property. Creatures that are
put in from outside come by no change, so for them the property has to be kept as well; a run of ticks only
has none.

Main result: `History.timeline_lasting`.
-/

namespace Vivarium

variable {E : Type} [Physics E] [LawfulPhysics E]

namespace World

variable {P : World E → Prop} {w w' : World E}

/-- Every change keeps the property, and the clock and what is pending do not matter. -/
structure Lasting (P : World E → Prop) : Prop where
  change : ∀ {w w' : World E} {es : List Event}, w.Change es w' → P w → P w'
  retold : ∀ {w : World E} (tick : Nat) (pendingEvents : List Event), P w → P { w with tick, pendingEvents }

namespace Lasting

theorem course {es : List Event} (hP : Lasting P) (h : w.Course es w') (hw : P w) : P w' := by
  induction h with
  | refl => exact hw
  | step _ hchange ih => exact hP.change hchange ih

/-- Only the source has been replaced. -/
theorem source (hP : Lasting P) (source : Source) (hw : P w) : P { w with source } :=
  hP.change (.quiet (.memory w source w.similarity)) hw

theorem opening (hP : Lasting P) {t : TickCall} {start : Stage E} (h : w.openingBy t = .ok start) (hw : P w) :
    P start.world := by
  obtain ⟨w₁, rfl, hcourse, -⟩ := (w.openingBy_ensures t).of_ok h
  exact hP.course hcourse (hP.retold (w.tick + 1) [] hw)

/-- What lasts is carried on from each moment to the next. -/
theorem passage (hP : Lasting P) : Passage fun (w w' : World E) => P w → P w' where
  refl _                 := id
  change hchange         := hP.change hchange
  opening                := hP.opening
  pended w pendingEvents := hP.retold w.tick pendingEvents

end Lasting

theorem lasting_ranked : Lasting (E := E) Ranked where
  change hchange hw := hw.change hchange
  retold _ _ hw := hw.retold _ _ _

/-- What life keeps and arrivals have lasts among the living. -/
theorem Vital.lasting {P : Creature → Prop} (hP : Vital E P) : Lasting (E := E) (All P) where
  change hchange hw := hw.course hP (.single hchange)
  retold _ _ hw := hw

/-- Putting a creature in from outside keeps the property. -/
def Welcomes (P : World E → Prop) (seed : Seed) : Prop :=
  ∀ w id w', w.insertCreature seed = .ok (id, w') → P w → P w'

omit [LawfulPhysics E] in
/-- A guest is welcome among creatures that have a property, if whoever is born of its seed has it. -/
theorem welcomes_all {P : Creature → Prop} {seed : Seed} (hseed : ∀ c tick (e : E), c.Newborn seed tick e → P c) :
    Welcomes (E := E) (All P) seed := by
  intro w id w' hinsert hall rank d hd
  obtain ⟨c, source, -, hnewborn, rfl⟩ := insertCreature_inv hinsert
  change (w.creatures.insert ⟨w.lastRank + 1⟩ c).get? rank = some d at hd
  rw [Table.get?_insert] at hd
  split at hd
  · cases hd
    exact hseed d _ _ hnewborn
  · exact hall rank d hd

end World

namespace History

open World (Lasting Welcomes)

variable {P : World E → Prop} {config : Config} {enclosure : E} {entropy : BitVec 256} {calls : List Call}

/-- **What lasts holds at every moment of a run**, if it holds of the bare world and whoever is put in keeps
it. -/
theorem timeline_lasting (hP : Lasting P) (hbare : P (.bare config enclosure entropy))
    (hguests : ∀ seed, .insertCreature seed ∈ calls → Welcomes P seed) :
    ∀ w ∈ timeline config enclosure entropy calls, P w := by
  -- who is put in on the way is among the calls
  have hput : ∀ before seed after h id w', calls = before ++ .insertCreature seed :: after →
      run config enclosure entropy before = .ok h → h.world.insertCreature seed = .ok (id, w') →
      P h.world → P w' := by
    rintro before seed after h id w' rfl - hinsert
    exact hguests seed (List.mem_append_right before List.mem_cons_self) _ _ _ hinsert
  have hmoments := (timeline_passes hP.passage hput).forall_mem (P := P) (fun _ _ hcarry => hcarry) hbare
  exact List.forall_mem_cons.mpr ⟨hbare, hmoments⟩

/-- Where there are ticks only, nobody is put in. -/
theorem timeline_ticks_lasting (hP : Lasting P) (hbare : P (.bare config enclosure entropy))
    {ticks : List TickCall} : ∀ w ∈ timeline config enclosure entropy (ticks.map .tick), P w := by
  refine timeline_lasting hP hbare fun seed hmem => ?_
  obtain ⟨t, -, ht⟩ := List.mem_map.mp hmem
  cases ht

end History

end Vivarium
