import Vivarium.Proofs.World.Moments

/-!
# The population stays between its floor and its cap

The cap is looked at twice before a child is born: by the parent's genes and again when the request is
carried out, after all births and deaths that came before it in the tick. So several births in one tick
cannot pass it together. Whoever is missing to the floor is counted when the turns are over, so filling up
meets the floor exactly, and an accepted configuration has no floor above its cap.

Main result: `population_between_floor_and_cap`.
-/

namespace Vivarium

variable {E : Type}

namespace World

variable {w w' : World E}

/-- Ranks are in order, and the world is not overcrowded. -/
structure Within (w : World E) : Prop extends Ranked w where
  le_cap : w.population ≤ w.config.world.populationCap

/-- A world between its floor and its cap. Beyond the cutoff tick there is no floor. -/
structure Populated (config : Config) (w : World E) : Prop extends Within w where
  config_eq : w.config = config
  floor_le  : w.tick < config.world.floorCutoffTick → config.world.populationFloor ≤ w.population

theorem population_spawnCreature (h : w.Ranked) (c : Creature) :
    (w.spawnCreature c).population = w.population + 1 := by
  have hfresh : (⟨w.lastRank + 1⟩ : Rank) ∉ w.creatures.keys :=
    fun hmem => h.fresh (List.mem_append_left _ hmem)
  show (w.creatures.insert _ c).entries.length = w.creatures.entries.length + 1
  rw [Table.entries_insert hfresh, List.length_append, List.length_singleton]

/-- Whoever is missing does not lead beyond the cap, if the floor does not. -/
theorem Within.add_missing_le (h : w.Within)
    (hfloor : w.config.world.populationFloor ≤ w.config.world.populationCap) :
    w.population + w.missing ≤ w.config.world.populationCap := by
  have hcap := h.le_cap
  unfold missing
  split <;> omega

variable [Physics E]

/-- Who is taken out is one less at most. -/
theorem population_removeCreature_le {rank : Rank} {c : Creature}
    (h : w.removeCreature rank = some (c, w')) : w'.population ≤ w.population := by
  obtain ⟨-, rfl⟩ := removeCreature_inv h
  exact List.length_filter_le _ _

/-- Whoever is born to a parent was let in because there was room. -/
theorem Arrives.room_of_parent {seed : Seed} {c : Creature} {es : List Event} {id parent : Ident}
    {generation tick : Nat} (h : w.Arrives seed c es)
    (hmem : Event.birth id (some parent) generation tick ∈ es) :
    w.population < w.config.world.populationCap := by
  cases h with
  | fresh _ _ => simp at hmem
  | child _ _ hroom _ _ _ => exact hroom

variable [LawfulPhysics E]

/-! ## Turns keep below the cap -/

/-- A quiet change leaves as many alive. -/
theorem Within.quiet (h : w.Within) (hquiet : w.Quiet w') : w'.Within := by
  refine ⟨h.toRanked.quiet hquiet, ?_⟩
  rw [hquiet.retains.population_eq, hquiet.config_eq]
  exact h.le_cap

/-- **No step of a turn passes the cap.** -/
theorem Within.step {s s' : Stage E} (h : s.world.Within) (hstep : s.Step s') : s'.world.Within := by
  -- only a birth adds to the population, and it asks for room first
  cases hstep with
  | quiet hquiet => exact h.quiet hquiet
  | struck _ _ hquiet => exact h.quiet hquiet
  | eaten _ hremoved hquiet =>
    have hfewer := h.toRanked.removePellet hremoved
    obtain ⟨-, rfl⟩ := removePellet_inv hremoved
    have hleft : Within _ := ⟨hfewer, h.le_cap⟩
    exact hleft.quiet hquiet
  | @died rank _ =>
    unfold Stage.kill
    split
    · exact h
    · rename_i c world hremoved
      refine ⟨h.toRanked.removeCreature hremoved, ?_⟩
      have hle := population_removeCreature_le hremoved
      obtain ⟨-, rfl⟩ := removeCreature_inv hremoved
      exact hle.trans h.le_cap
  | @born parent birth seed paid harrives hpaid =>
    have hbodied : Ranked { s.world with enclosure := seed.bodied s.world.enclosure } :=
      h.toRanked.retold _ _ _
    have hpaidRanked := hbodied.quiet hpaid
    rw [Stage.deliver_world]
    refine ⟨hpaidRanked.spawnCreature _, ?_⟩
    rw [population_spawnCreature hpaidRanked, hpaid.retains.population_eq]
    show s.world.population + 1 ≤ paid.config.world.populationCap
    rw [hpaid.config_eq]
    exact harrives.room_of_parent List.mem_cons_self

/-- A part of a turn leaves the population within the cap. -/
theorem Within.moves {s s' : Stage E} (hmoves : s.Moves s') (h : s.world.Within) : s'.world.Within := by
  cases hmoves with
  | refl => exact h
  | single hstep => exact h.step hstep

/-! ## Filling up meets the floor -/

/-- A fresh creature is one more, whatever the cap. -/
theorem spawnFresh_population (h : w.Ranked) :
    Outcome.Ensures w.spawnFresh fun (_, w') => w'.Ranked ∧ w'.population = w.population + 1 := by
  refine w.spawnFresh_born.mono ?_
  rintro ⟨e, w'⟩ ⟨seed, c, w₁, -, hquiet, rfl⟩
  have hbodied : Ranked { w with enclosure := seed.bodied w.enclosure } := h.retold _ _ _
  have hranked := hbodied.quiet hquiet
  refine ⟨hranked.spawnCreature c, ?_⟩
  rw [population_spawnCreature hranked, hquiet.retains.population_eq]
  rfl

/-- So many fresh creatures are so many more. -/
theorem spawnMany_population (n : Nat) (h : w.Ranked) :
    Outcome.Ensures (w.spawnMany n) fun (_, w') => w'.population = w.population + n := by
  -- the induction is on how many are missing, over the world so far
  induction n generalizing w with
  | zero => exact .pure rfl
  | succ n ih =>
    unfold spawnMany
    refine .bind (spawnFresh_population h) ?_
    rintro ⟨e, w₁⟩ ⟨hranked, hone⟩
    refine .bind (ih hranked) ?_
    rintro ⟨es, w₂⟩ hmany
    refine .pure (hmany.trans ?_)
    omega

/-- On the way there are never more than in the end. -/
theorem spawnMoments_population_le {n : Nat} (h : w.Ranked) :
    ∀ v ∈ w.spawnMoments n, v.population ≤ w.population + n := by
  induction n generalizing w with
  | zero =>
    intro v hv
    cases hv
  | succ n ih =>
    intro v hv
    obtain ⟨⟨e, w₁⟩, hfresh, hv⟩ := Outcome.mem_andThen.mp hv
    obtain ⟨hranked, hone⟩ := (spawnFresh_population h).of_ok hfresh
    rcases List.mem_cons.mp hv with rfl | hlater
    · omega
    · -- at most as many are there as have been spawned until then
      have hle := ih hranked v hlater
      omega

/-- **Filling up populates a world.** -/
theorem Within.refill {config : Config} {es : List Event} (h : w.Within) (hconfig : w.config = config)
    (hfloor : config.world.populationFloor ≤ config.world.populationCap)
    (hrefill : w.refill = .ok (es, w')) : w'.Populated config := by
  subst hconfig
  have hcourse : w.Course es w' := w.refill_ensures.of_ok hrefill
  obtain ⟨hconfig, htick, -⟩ := hcourse.frame
  have hfilled : w'.population = w.population + w.missing :=
    (spawnMany_population w.missing h.toRanked).of_ok hrefill
  -- there is room for all that are missing, since the floor is not above the cap
  have hroom := h.add_missing_le hfloor
  refine ⟨⟨h.toRanked.course hcourse, ?_⟩, hconfig, fun hearly => ?_⟩
  · rw [hfilled, hconfig]
    exact hroom
  · rw [htick] at hearly
    rw [hfilled]
    unfold missing
    rw [if_pos hearly]
    omega

/-! ## Ticks -/

theorem Populated.opening {config : Config} {t : TickCall} {start : Stage E} (h : w.Populated config)
    (hstart : w.openingBy t = .ok start) : start.world.Within ∧ start.world.config = config := by
  obtain ⟨w₁, rfl, hcourse, hcreatures⟩ := (w.openingBy_ensures t).of_ok hstart
  have hcounted : w.counted.Ranked := h.toRanked.retold _ _ _
  obtain ⟨hconfig, -, -⟩ := hcourse.frame
  refine ⟨⟨hcounted.course hcourse, ?_⟩, hconfig.trans h.config_eq⟩
  show w₁.creatures.size ≤ w₁.config.world.populationCap
  rw [hcreatures, hconfig]
  exact h.le_cap

/-- When the turns are over, the population is still within its cap. -/
theorem within_turns {start stage : Stage E} {ranks : List Rank} (h : start.world.Within)
    (hturns : start.turns ranks = .ok stage) :
    stage.world.Within ∧ stage.world.config = start.world.config := by
  have hsteps : start.Steps stage := (start.turns_ensures ranks).of_ok hturns
  obtain ⟨es, hcourse, -⟩ := hsteps.advances
  refine ⟨?_, hcourse.frame.1⟩
  clear hcourse hturns
  induction hsteps with
  | refl => exact h
  | tail _ hstep ih => exact ih.step hstep

/-- **At no moment of a tick is the cap passed.** -/
theorem Populated.moments {config : Config} (h : w.Populated config)
    (hfloor : config.world.populationFloor ≤ config.world.populationCap) (t : TickCall) :
    ∀ v ∈ w.moments t, v.population ≤ config.world.populationCap := by
  intro v hv
  obtain ⟨start, hstart, hv⟩ := Outcome.mem_andThen.mp hv
  obtain ⟨hwithin, hconfig⟩ := h.opening hstart
  rw [List.mem_cons, List.mem_append, Outcome.mem_andThen] at hv
  rcases hv with rfl | hturn | ⟨stage, hturns, hspawned⟩
  · rw [← hconfig]
    exact hwithin.le_cap
  · -- each part of a turn stays within the cap, and none touches the configuration
    have hmoments := Stage.turnsMoments_pass
      (R := fun v v' => v.Within ∧ v.config = config → v'.Within ∧ v'.config = config) ?_
      (start.views.map (·.rank)) start
    · obtain ⟨hle, hsame⟩ := hmoments.forall_mem (fun _ _ himp => himp) ⟨hwithin, hconfig⟩ v hturn
      rw [← hsame]
      exact hle.le_cap
    · intro s s' hmoves hs
      obtain ⟨es, hcourse, -⟩ := hmoves.steps.advances
      exact ⟨hs.1.moves hmoves, hcourse.frame.1.trans hs.2⟩
  · obtain ⟨hready, hsame⟩ := within_turns hwithin hturns
    have hle := spawnMoments_population_le hready.toRanked v hspawned
    have hroom := hready.add_missing_le (by rwa [hsame, hconfig])
    rw [hsame, hconfig] at hroom
    exact hle.trans hroom

/-- A tick leaves a populated world populated. -/
theorem Populated.tick {config : Config} {t : TickCall} {events : List Event} (h : w.Populated config)
    (hfloor : config.world.populationFloor ≤ config.world.populationCap)
    (htick : w.tickBy t = .ok (events, w')) : w'.Populated config := by
  obtain ⟨opened, stage, newborn, rest, hstart, -, hturns, -, hrefill, -⟩ := tickBy_inv htick
  obtain ⟨hwithin, hconfig⟩ := h.opening hstart
  obtain ⟨hready, hsame⟩ := within_turns hwithin hturns
  exact hready.refill (hsame.trans hconfig) hfloor hrefill

end World

/-! ## Histories -/

/-- An accepted configuration has its floor within its cap. -/
theorem Config.Valid.floor_le_cap {config : Config} (h : config.Valid) :
    config.world.populationFloor ≤ config.world.populationCap := by
  have hmem : (Violation.populationFloor,
      decide (config.world.populationFloor ≤ config.world.populationCap)) ∈ config.conditions := by
    simp [Config.conditions]
  exact of_decide_eq_true (h.met hmem)

namespace History

variable [Physics E] [LawfulPhysics E]

/-- The population is as it should be after every run of ticks. -/
theorem populated_run {config : Config} {enclosure : E} {entropy : BitVec 256} {ticks : List TickCall}
    {h : History E} (hrun : run config enclosure entropy (ticks.map .tick) = .ok h) :
    config.Valid ∧ h.world.Populated config := by
  refine run_induction hrun (P := fun h => config.Valid ∧ h.world.Populated config) (fun w hw => ?_)
    fun h c h' hc ih hcall => ?_
  · -- to set a world up is to fill up one with nobody in it
    obtain ⟨hvalid, births, w₁, hrefill, rfl⟩ := World.create_refill hw
    have hbare : (World.bare config enclosure entropy).Within := ⟨.bare _ _ _, Nat.zero_le _⟩
    have hfull := hbare.refill rfl hvalid.floor_le_cap hrefill
    exact ⟨hvalid, ⟨hfull.toRanked.retold _ _ _, hfull.le_cap⟩, hfull.config_eq, hfull.floor_le⟩
  · obtain ⟨t, -, rfl⟩ := List.mem_map.mp hc
    obtain ⟨events, w', htick, rfl⟩ := call_tick_inv hcall
    exact ⟨ih.1, ih.2.tick ih.1.floor_le_cap htick⟩

/-- Ticks are counted. -/
theorem tick_run {config : Config} {enclosure : E} {entropy : BitVec 256} {ticks : List TickCall}
    {h : History E} (hrun : run config enclosure entropy (ticks.map .tick) = .ok h) :
    h.world.tick = ticks.length := by
  obtain ⟨w, hw, hcalls⟩ := except_bind_inv hrun
  have hstart : w.tick = 0 := by
    obtain ⟨-, births, w₁, hcourse, rfl⟩ := World.create_inv hw
    exact hcourse.frame.2.1
  -- the induction is on the ticks, over the history they start from
  suffices hcount : ∀ h₀ : History E, (ticks.map Call.tick).foldlM call h₀ = .ok h →
      h.world.tick = h₀.world.tick + ticks.length by
    rw [hcount _ hcalls, hstart, Nat.zero_add]
  clear hrun hcalls hstart hw
  induction ticks with
  | nil =>
    intro h₀ hcalls
    cases hcalls
    rfl
  | cons t ticks ih =>
    intro h₀ hcalls
    rw [List.map_cons, List.foldlM_cons] at hcalls
    obtain ⟨h₁, hfirst, hrest⟩ := except_bind_inv hcalls
    obtain ⟨⟨events, w'⟩, htick, hpure⟩ := except_bind_inv hfirst
    cases hpure
    obtain ⟨es, hcourse, -⟩ := (h₀.world.tickBy_ensures t).of_ok htick
    have hcounted : w'.tick = h₀.world.tick + 1 := hcourse.frame.2.1
    rw [ih _ hrest, hcounted, List.length_cons]
    omega

end History

variable [Physics E] [LawfulPhysics E]

/-- **The population stays between its floor and its cap.** Whatever configuration a world was set up on
and however many ticks it was run for, there are at most as many creatures as the cap allows, and as long
as the cutoff tick has not come at least as many as the floor demands. The cap holds at every moment of the
next tick too, as far as that comes; if it returns, the last of these moments is the world after it. -/
theorem population_between_floor_and_cap {config : Config} {enclosure : E} {entropy : BitVec 256}
    {ticks : List TickCall} {h : History E}
    (hrun : History.run config enclosure entropy (ticks.map .tick) = .ok h) :
    h.world.population ≤ config.world.populationCap ∧ h.world.tick = ticks.length ∧
    (h.world.tick < config.world.floorCutoffTick →
      config.world.populationFloor ≤ h.world.population) ∧
    ∀ t, (∀ v ∈ h.world.moments t, v.population ≤ config.world.populationCap) ∧
      ∀ events w', h.world.tickBy t = .ok (events, w') → (h.world.moments t).getLast? = some w' := by
  obtain ⟨hvalid, hpopulated⟩ := History.populated_run hrun
  refine ⟨?_, History.tick_run hrun, hpopulated.floor_le, fun t =>
    ⟨hpopulated.moments hvalid.floor_le_cap t, fun events w' htick => World.last_moment htick⟩⟩
  rw [← hpopulated.config_eq]
  exact hpopulated.le_cap

/-- A world for one creature, which starves in its first tick. -/
def Config.solitary : Config :=
  { world      := { seed := some 1, populationFloor := 1, populationCap := 1 }
    metabolism := { starvationRate := 2.0, starvationRateEarly := 2.0 } }

/-- The place that it leaves is empty for a moment and is filled at the end of the tick. -/
theorem population_between_floor_and_cap_solitary :
    ∃ h, History.run .solitary (Enclosure.empty 1280.0 720.0) 0 ([TickCall.update].map .tick) = .ok h ∧
      h.world.tick < Config.solitary.world.floorCutoffTick ∧ h.world.population = 1 ∧
      (∃ v ∈ h.world.moments .update, v.population = 0) ∧
      ∀ v ∈ h.world.moments .update, v.population ≤ 1 := by
  -- that the only creature starves and another is spawned is computed, and the bounds are taken from the
  -- theorem
  have hcheck : (History.run .solitary (Enclosure.empty 1280.0 720.0) 0
      ([TickCall.update].map .tick)).toOption.any (fun h =>
        decide (h.world.tick < Config.solitary.world.floorCutoffTick ∧
          (h.world.moments .update).any fun v => v.population = 0)) = true := by
    decide +kernel
  obtain ⟨h, hrun, hcheck⟩ := except_any_inv hcheck
  obtain ⟨hearly, hempty⟩ := of_decide_eq_true hcheck
  obtain ⟨v, hv, hnobody⟩ := List.any_eq_true.mp hempty
  obtain ⟨hcap, -, hfloor, hmoments⟩ := population_between_floor_and_cap hrun
  have hone : h.world.population = 1 := Nat.le_antisymm hcap (hfloor hearly)
  exact ⟨h, hrun, hearly, hone, ⟨v, hv, of_decide_eq_true hnobody⟩, (hmoments .update).1⟩

end Vivarium
