import Vivarium.Proofs.World.Arena

/-!
# The kept views are those that would be taken anew

Views of all creatures and pellets are taken when the turns of a tick begin. From then on they are kept
up: a death strikes one out, a birth adds one, and a pellet that is eaten is struck out too. A view that
is taken anew would also show where a body has been pushed to in the meantime, which the kept ones leave
as it was; in everything else the two agree at every moment of every tick, in the same order.

Two facts carry this. Ranks are in order, so that what is struck out by its rank in the views is the one
entry of the table, and what comes last in the table comes last in the views; and a creature keeps through
life whatever a view shows of it.

Main result: `kept_views_agree`.
-/

namespace Vivarium

/-- The view with its position blotted out. -/
def CreatureView.unplaced (v : CreatureView) : CreatureView := { v with position := .zero }

variable {E : Type} [Physics E]

namespace World

/-! ## Views that are taken anew -/

/-- What any world shows of a creature, its position aside. -/
def unplacedView (rank : Rank) (c : Creature) : CreatureView :=
  ⟨rank, c.id, c.body, .zero, c.hue, c.traits.familyThreshold⟩

/-- Apart from the places, views are taken of the entries one by one. -/
theorem unplaced_creatureViews (w : World E) :
    w.creatureViews.map (·.unplaced) = w.creatures.entries.map fun e => unplacedView e.1 e.2 := by
  unfold creatureViews
  rw [List.map_map]
  rfl

/-- Whoever is spawned comes last in view. -/
theorem unplaced_spawnCreature {w : World E} (h : w.Ranked) (c : Creature) :
    (w.spawnCreature c).creatureViews.map (·.unplaced) =
      w.creatureViews.map (·.unplaced) ++
        [((w.spawnCreature c).viewOf ⟨(w.spawnCreature c).lastRank⟩ c).unplaced] := by
  have hfresh : (⟨w.lastRank + 1⟩ : Rank) ∉ w.creatures.keys :=
    fun hmem => h.fresh (List.mem_append_left _ hmem)
  have hentries : (w.spawnCreature c).creatures.entries =
      w.creatures.entries ++ [(⟨w.lastRank + 1⟩, c)] := Table.entries_insert hfresh c
  rw [unplaced_creatureViews, unplaced_creatureViews, hentries, List.map_append]
  rfl

/-- Who is removed is struck from the views by its rank. -/
theorem unplaced_removeCreature {w w' : World E} {rank : Rank} {c : Creature}
    (h : w.removeCreature rank = some (c, w')) :
    w'.creatureViews.map (·.unplaced) =
      (w.creatureViews.map (·.unplaced)).filter fun v => v.rank ≠ rank := by
  obtain ⟨-, rfl⟩ := removeCreature_inv h
  rw [unplaced_creatureViews, unplaced_creatureViews, List.filter_map]
  rfl

/-- So is a pellet. -/
theorem pelletViews_removePellet {w w' : World E} {rank : Rank} {p : Pellet}
    (h : w.removePellet rank = some (p, w')) :
    w'.pelletViews = w.pelletViews.filter fun v => v.rank ≠ rank := by
  obtain ⟨-, rfl⟩ := removePellet_inv h
  unfold pelletViews
  rw [List.filter_map]
  rfl

variable [LawfulPhysics E]

/-- A creature keeps through life whatever a view shows of it. -/
theorem Quiet.unplaced_creatureViews {w w' : World E} (h : w.Quiet w') (hranked : w.Ranked) :
    w'.creatureViews.map (·.unplaced) = w.creatureViews.map (·.unplaced) := by
  rw [World.unplaced_creatureViews, World.unplaced_creatureViews]
  refine h.map_entries hranked.creatures_nodup fun rank c d hsame => ?_
  unfold unplacedView
  rw [hsame.id_eq, hsame.body_eq, hsame.hue_eq, hsame.traits_eq]

/-- A quiet change leaves the pellets in view as they are. -/
theorem Quiet.pelletViews_eq {w w' : World E} (h : w.Quiet w') : w'.pelletViews = w.pelletViews := by
  unfold pelletViews
  rw [h.pellets_eq]

end World

namespace Stage

/-! ## Views that are kept -/

/-- The kept views are those that would be taken now, positions of creatures aside. -/
structure Current (s : Stage E) : Prop where
  creatures : s.views.map (·.unplaced) = s.world.creatureViews.map (·.unplaced)
  pellets   : s.pelletViews = s.world.pelletViews

namespace Current

variable {s : Stage E}

theorem start (w : World E) (events : List Event) : (Stage.start w events).Current := ⟨rfl, rfl⟩

/-- The log does not matter. -/
theorem log (h : s.Current) (e : Event) : (s.log e).Current := ⟨h.creatures, h.pellets⟩

/-- A pellet is struck from the world and from the views. -/
theorem removePellet {food : Rank} {pellet : Pellet} {world : World E} (h : s.Current)
    (hremoved : s.world.removePellet food = some (pellet, world)) :
    Current { s with world, pelletViews := s.pelletViews.filter fun v => v.rank ≠ food } := by
  refine ⟨h.creatures.trans ?_, ?_⟩
  · obtain ⟨-, rfl⟩ := World.removePellet_inv hremoved
    rw [World.unplaced_creatureViews, World.unplaced_creatureViews]
  · show s.pelletViews.filter _ = world.pelletViews
    rw [World.pelletViews_removePellet hremoved, h.pellets]

/-- Who is taken out is taken out of the views. -/
theorem kill (h : s.Current) (rank : Rank) : (s.kill rank).Current := by
  unfold Stage.kill
  split
  · exact h
  · rename_i c world hremoved
    refine log ⟨?_, ?_⟩ _
    -- the creature's rank is struck from both lists
    · have hviews : (s.views.filter fun v => v.rank ≠ rank).map (·.unplaced) =
          (s.views.map (·.unplaced)).filter fun v => v.rank ≠ rank := by
        rw [List.filter_map]
        rfl
      show (s.views.filter fun v => v.rank ≠ rank).map (·.unplaced) = _
      rw [hviews, h.creatures, World.unplaced_removeCreature hremoved]
    · obtain ⟨-, rfl⟩ := World.removeCreature_inv hremoved
      exact h.pellets

/-- A child in view comes last in both lists. -/
theorem spawnCreature (h : s.Current) (hranked : s.world.Ranked) (c : Creature) :
    Current
      { s with
        world := s.world.spawnCreature c
        views := s.views ++
          [(s.world.spawnCreature c).viewOf ⟨(s.world.spawnCreature c).lastRank⟩ c] } := by
  refine ⟨?_, h.pellets⟩
  rw [World.unplaced_spawnCreature hranked, ← h.creatures, List.map_append]
  rfl

variable [LawfulPhysics E]

/-- Quiet changes are not looked for, since views show what a creature keeps. -/
theorem quiet {world : World E} (h : s.Current) (hranked : s.world.Ranked)
    (hquiet : s.world.Quiet world) : Current { s with world } :=
  ⟨h.creatures.trans (hquiet.unplaced_creatureViews hranked).symm,
    h.pellets.trans hquiet.pelletViews_eq.symm⟩

theorem deliver {seed : Seed} {paid : World E} (h : s.Current) (hranked : s.world.Ranked)
    (hpaid : World.Quiet { s.world with enclosure := seed.bodied s.world.enclosure } paid)
    (parent : Creature) (birth : Birth) : (s.deliver parent birth paid).Current := by
  have hbodied : World.Ranked { s.world with enclosure := seed.bodied s.world.enclosure } :=
    hranked.retold _ _ _
  have hbefore : Current { s with
      world := { s.world with enclosure := seed.bodied s.world.enclosure } } := by
    refine ⟨h.creatures.trans ?_, h.pellets⟩
    rw [World.unplaced_creatureViews, World.unplaced_creatureViews]
  -- the parent pays, the birth is logged, and the child comes into view
  have hafter : Current { s with world := paid } := hbefore.quiet hbodied hpaid
  unfold Stage.deliver
  cases birth.operator with
  | none => exact (hafter.log _).spawnCreature (hbodied.quiet hpaid) birth.creature
  | some op => exact ((hafter.log _).log _).spawnCreature (hbodied.quiet hpaid) birth.creature

end Current

variable [LawfulPhysics E]

/-- **Each step keeps the views up.** -/
theorem Step.current {s s' : Stage E} (hstep : s.Step s') (hranked : s.world.Ranked) (h : s.Current) :
    s'.Current := by
  -- the views follow whoever comes or goes, and a quiet change is not seen in them
  cases hstep with
  | quiet hquiet => exact h.quiet hranked hquiet
  | struck _ _ hquiet => exact (h.quiet hranked hquiet).log _
  | eaten _ hremoved hquiet =>
    have hfewer := h.removePellet hremoved
    exact (hfewer.quiet (hranked.removePellet hremoved) hquiet).log _
  | @died rank _ => exact h.kill rank
  | @born parent birth _ _ _ hpaid => exact h.deliver hranked hpaid parent birth

/-- A step keeps the ranks in order. -/
theorem Step.ranked {s s' : Stage E} (hstep : s.Step s') (hranked : s.world.Ranked) : s'.world.Ranked := by
  obtain ⟨es, hcourse, -⟩ := hstep.advances
  exact hranked.course hcourse

/-- **Steps keep the views current.** -/
theorem Steps.current {s s' : Stage E} (hsteps : s.Steps s') (hranked : s.world.Ranked) (h : s.Current) :
    s'.world.Ranked ∧ s'.Current := by
  induction hsteps with
  | refl => exact ⟨hranked, h⟩
  | tail _ hstep ih => exact ⟨hstep.ranked ih.1, hstep.current ih.1 ih.2⟩

end Stage

variable [LawfulPhysics E]

/-- The turns of a tick begin with current views. -/
theorem World.openingBy_current {w : World E} (hranked : w.Ranked) (t : TickCall) :
    Outcome.Ensures (w.openingBy t) fun start => start.world.Ranked ∧ start.Current := by
  have hopening : ∀ e : E, Outcome.Ensures (opening { w with enclosure := e })
      fun start => start.world.Ranked ∧ start.Current := by
    intro e
    refine (opening_ensures { w with enclosure := e }).mono ?_
    rintro start ⟨-, w', rfl, hcourse, -⟩
    -- the turns begin with views of all who are there by then
    have hcounted : (counted { w with enclosure := e }).Ranked := hranked.retold _ _ _
    exact ⟨hcounted.course hcourse, .start w' _⟩
  cases t with
  | update => exact hopening w.enclosure
  | advance dt => exact .bind (.ofFault fun _ h => h) fun e _ => hopening e

/-- **The kept views agree with views taken anew**, in every tick of every history. Whichever turns of the
tick have been taken when a creature's turn begins, the kept views of the creatures list those that are
alive, each with its rank, identity, body, hue and threshold, as taking them anew would; and once that
creature has fed, the kept views of the pellets are those that would be taken. -/
theorem kept_views_agree {config : Config} {enclosure : E} {entropy : BitVec 256} {calls : List Call}
    {h : History E} {t : TickCall} {start s : Stage E} {before after : List Rank} {rank : Rank}
    (hrun : History.run config enclosure entropy calls = .ok h)
    (hstart : h.world.openingBy t = .ok start)
    (hranks : start.views.map (·.rank) = before ++ rank :: after)
    (hturns : start.turns before = .ok s) :
    h.world.tickBy t = (do
      let stage ← s.turns (rank :: after)
      World.closing (start.views.map (·.rank)) stage) ∧
    s.views.map (·.unplaced) = s.world.creatureViews.map (·.unplaced) ∧
    (s.feed rank).pelletViews = (s.feed rank).world.pelletViews := by
  obtain ⟨hranked, hcurrent⟩ :=
    (World.openingBy_current (History.ranked_run hrun) t).of_ok hstart
  have hsteps : start.Steps s := (start.turns_ensures before).of_ok hturns
  obtain ⟨hranked', hnow⟩ := hsteps.current hranked hcurrent
  refine ⟨?_, hnow.creatures, ((s.feed_steps rank).current hranked' hnow).2.pellets⟩
  -- the turns before this one are the first part of the tick
  have hsplit : start.turns (start.views.map (·.rank)) = s.turns (rank :: after) := by
    unfold Stage.turns at hturns ⊢
    rw [hranks, List.foldlM_append, hturns]
    rfl
  rw [World.tickBy_eq, hstart]
  show (start.turns (start.views.map (·.rank)) >>= fun stage => World.closing _ stage) = _
  rw [hsplit]

/-- A world in which nobody appears by itself and everybody starves in one tick. -/
def Config.famished : Config :=
  { world      := { seed := some 1, populationFloor := 0 }
    metabolism := { starvationRate := 2.0, starvationRateEarly := 2.0 } }

/-- Two creatures and, in reach of the second one, a pellet. -/
def gatherings : List Call :=
  [.insertCreature { program := .idle, position := ⟨30.0, 40.0⟩, mass := 120.0 },
    .insertCreature { program := .idle, position := ⟨300.0, 400.0⟩, mass := 140.0 },
    .insertPellet ⟨301.0, 400.0⟩]

theorem kept_views_agree_gatherings :
    ∃ h start s, History.run .famished (Enclosure.empty 1280.0 720.0) 0 gatherings = .ok h ∧
      h.world.openingBy .update = .ok start ∧
      start.views.map (·.rank) = [⟨1⟩] ++ ⟨2⟩ :: [] ∧ start.turns [⟨1⟩] = .ok s ∧
      start.views.length = 2 ∧ s.views.length = 1 ∧
      s.views.map (·.unplaced) = s.world.creatureViews.map (·.unplaced) ∧
      (s.feed ⟨2⟩).pelletViews.length < s.pelletViews.length ∧
      (s.feed ⟨2⟩).pelletViews = (s.feed ⟨2⟩).world.pelletViews := by
  -- who is in view before and after the first turn is computed, and that the views agree is taken from the
  -- theorem
  have hcheck : (History.run .famished (Enclosure.empty 1280.0 720.0) 0 gatherings).toOption.any (fun h =>
      (h.world.openingBy .update).toOption.any fun start =>
        (start.turns [⟨1⟩]).toOption.any fun s =>
          decide (start.views.map (·.rank) = [⟨1⟩] ++ ⟨2⟩ :: [] ∧ start.views.length = 2 ∧
            s.views.length = 1 ∧ (s.feed ⟨2⟩).pelletViews.length < s.pelletViews.length)) = true := by
    decide +kernel
  obtain ⟨h, hrun, hcheck⟩ := except_any_inv hcheck
  obtain ⟨start, hstart, hcheck⟩ := except_any_inv hcheck
  obtain ⟨s, hturns, hcheck⟩ := except_any_inv hcheck
  obtain ⟨hranks, hbefore, hafter, hfed⟩ := of_decide_eq_true hcheck
  obtain ⟨-, hviews, hpellets⟩ := kept_views_agree hrun hstart hranks hturns
  exact ⟨h, start, s, hrun, hstart, hranks, hturns, hbefore, hafter, hviews, hfed, hpellets⟩

end Vivarium
