import Vivarium.Proofs.World.History

/-!
# The log is a ledger of the population

Creatures are listed in the order of their spawning, and events are logged in the order in which they
happen. Ranks are given out in ascending order, so what is spawned is listed last, and each change of the
world does to the list of the living what its events say. Over a run of any length, whoever reads the log
from the beginning knows who is alive, and in which order.

Main result: `log_replays_to_living`.
-/

namespace Vivarium

variable {E : Type}

namespace World

/-- The identities of the living, in the order of spawning. -/
def living (w : World E) : List Ident := w.creatures.values.map (·.id)

/-- The ranks of all creatures and pellets. -/
def ranks (w : World E) : List Rank := w.creatures.keys ++ w.pellets.keys

/-! ## Ranks -/

/-- No rank is held twice, none was given out that is yet to come, and both tables list their entries in
ascending order of ranks. -/
structure Ranked (w : World E) : Prop where
  nodup               : w.ranks.Nodup
  le                  : ∀ rank ∈ w.ranks, rank.number ≤ w.lastRank
  creatures_ascending : w.creatures.keys.Pairwise (·.number < ·.number)
  pellets_ascending   : w.pellets.keys.Pairwise (·.number < ·.number)

namespace Ranked

variable {w w' : World E}

theorem creatures_nodup (h : w.Ranked) : w.creatures.keys.Nodup := (List.nodup_append.mp h.nodup).1

theorem pellets_nodup (h : w.Ranked) : w.pellets.keys.Nodup := (List.nodup_append.mp h.nodup).2.1

/-- The next rank is held by nobody. -/
theorem fresh (h : w.Ranked) : (⟨w.lastRank + 1⟩ : Rank) ∉ w.ranks := by
  intro hmem
  have hle : w.lastRank + 1 ≤ w.lastRank := h.le _ hmem
  omega

/-- Somebody may have left; nobody came. -/
theorem of_sublist (h : w.Ranked) (hcreatures : w'.creatures.keys.Sublist w.creatures.keys)
    (hpellets : w'.pellets.keys.Sublist w.pellets.keys) (hlast : w'.lastRank = w.lastRank) :
    w'.Ranked := by
  have hranks : w'.ranks.Sublist w.ranks := hcreatures.append hpellets
  refine ⟨h.nodup.sublist hranks, fun rank hrank => ?_, h.creatures_ascending.sublist hcreatures,
    h.pellets_ascending.sublist hpellets⟩
  rw [hlast]
  exact h.le rank (hranks.subset hrank)

/-- One more holds the next rank, which is greater than all others. -/
theorem nodup_le_of_perm (h : w.Ranked) (hranks : w'.ranks.Perm (⟨w.lastRank + 1⟩ :: w.ranks))
    (hlast : w'.lastRank = w.lastRank + 1) :
    w'.ranks.Nodup ∧ ∀ rank ∈ w'.ranks, rank.number ≤ w'.lastRank := by
  refine ⟨hranks.nodup_iff.mpr (List.nodup_cons.mpr ⟨h.fresh, h.nodup⟩), fun rank hrank => ?_⟩
  rw [hlast]
  rcases List.mem_cons.mp (hranks.subset hrank) with rfl | hmem
  · exact Nat.le_refl _
  · exact Nat.le_succ_of_le (h.le rank hmem)

/-- Ascending ranks ascend further with the next one. -/
theorem ascending_append (h : w.Ranked) {keys : List Rank} (hkeys : keys.Pairwise (·.number < ·.number))
    (hmem : ∀ rank ∈ keys, rank ∈ w.ranks) :
    (keys ++ [(⟨w.lastRank + 1⟩ : Rank)]).Pairwise (·.number < ·.number) := by
  rw [List.pairwise_append]
  refine ⟨hkeys, List.pairwise_singleton _ _, fun rank hrank next hnext => ?_⟩
  rw [List.mem_singleton.mp hnext]
  exact Nat.lt_succ_of_le (h.le rank (hmem rank hrank))

/-- Whoever is spawned takes the next rank, which is listed last. -/
theorem spawnCreature (h : w.Ranked) (c : Creature) : (w.spawnCreature c).Ranked := by
  have hkeys : (w.spawnCreature c).creatures.keys = w.creatures.keys ++ [⟨w.lastRank + 1⟩] :=
    Table.keys_insert (fun hmem => h.fresh (List.mem_append_left _ hmem)) c
  -- the newcomer has the next rank, which is nobody's
  have hranks : (w.spawnCreature c).ranks.Perm (⟨w.lastRank + 1⟩ :: w.ranks) := by
    unfold ranks
    rw [hkeys, List.append_assoc]
    exact List.perm_middle
  obtain ⟨hnodup, hle⟩ := h.nodup_le_of_perm hranks rfl
  refine ⟨hnodup, hle, ?_, h.pellets_ascending⟩
  rw [hkeys]
  exact h.ascending_append h.creatures_ascending fun _ => List.mem_append_left _

/-- The clock, the engine and what is pending do not matter. -/
theorem retold (h : w.Ranked) (tick : Nat) (enclosure : E) (pendingEvents : List Event) :
    Ranked { w with tick, enclosure, pendingEvents } :=
  ⟨h.nodup, h.le, h.creatures_ascending, h.pellets_ascending⟩

/-- A world without anybody has no ranks to keep in order. -/
theorem bare (config : Config) (enclosure : E) (entropy : BitVec 256) :
    (World.bare config enclosure entropy).Ranked :=
  ⟨List.nodup_nil, (fun _ hrank => by cases hrank), List.Pairwise.nil, List.Pairwise.nil⟩

variable [Physics E]

/-- A pellet takes the next rank as well. -/
theorem spawnPellet (h : w.Ranked) {place : Vec} {pellet : Pellet}
    (hspawn : w.spawnPellet place = .ok (pellet, w')) : w'.Ranked := by
  obtain ⟨source, -, -, hw'⟩ := spawnPellet_inv hspawn
  have hkeys : w'.pellets.keys = w.pellets.keys ++ [⟨w.lastRank + 1⟩] := by
    rw [hw']
    -- the pellet comes last among the pellets, and the creatures are those from before
    exact Table.keys_insert (fun hmem => h.fresh (List.mem_append_right _ hmem)) pellet
  have hcreatures : w'.creatures = w.creatures := by rw [hw']
  have hranks : w'.ranks.Perm (⟨w.lastRank + 1⟩ :: w.ranks) := by
    unfold ranks
    rw [hkeys, hcreatures, ← List.append_assoc]
    exact List.perm_append_singleton _ _
  obtain ⟨hnodup, hle⟩ := h.nodup_le_of_perm hranks (by rw [hw'])
  refine ⟨hnodup, hle, ?_, ?_⟩
  · rw [hcreatures]
    exact h.creatures_ascending
  · rw [hkeys]
    exact h.ascending_append h.pellets_ascending fun _ => List.mem_append_right _

/-- The ranks of those who are left stay in order. -/
theorem removeCreature (h : w.Ranked) {rank : Rank} {c : Creature}
    (hremoved : w.removeCreature rank = some (c, w')) : w'.Ranked := by
  obtain ⟨-, rfl⟩ := removeCreature_inv hremoved
  refine h.of_sublist ?_ (List.Sublist.refl _) rfl
  rw [Table.keys_erase]
  exact List.filter_sublist

/-- And so do those of the pellets. -/
theorem removePellet (h : w.Ranked) {rank : Rank} {p : Pellet}
    (hremoved : w.removePellet rank = some (p, w')) : w'.Ranked := by
  obtain ⟨-, rfl⟩ := removePellet_inv hremoved
  refine h.of_sublist (List.Sublist.refl _) ?_ rfl
  rw [Table.keys_erase]
  exact List.filter_sublist

variable [LawfulPhysics E]

/-- A quiet change does not touch the ranks. -/
theorem quiet (h : w.Ranked) (hquiet : w.Quiet w') : w'.Ranked := by
  refine h.of_sublist ?_ ?_ hquiet.lastRank_eq
  · rw [hquiet.keys_eq]
  · rw [hquiet.pellets_eq]

/-- **Every change keeps the ranks in order.** -/
theorem change {es : List Event} (h : w.Ranked) (hchange : w.Change es w') : w'.Ranked := by
  cases hchange with
  | quiet hquiet => exact h.quiet hquiet
  | struck _ _ hquiet => exact h.quiet hquiet
  | pellet hspawn => exact h.spawnPellet hspawn
  | eaten _ hremoved hquiet => exact (h.removePellet hremoved).quiet hquiet
  | died _ hremoved => exact h.removeCreature hremoved
  | @born seed c es w₁ _ hquiet =>
    have hbodied : Ranked { w with enclosure := seed.bodied w.enclosure } := h.retold _ _ _
    exact (hbodied.quiet hquiet).spawnCreature c

/-- So does every course of changes. -/
theorem course {es : List Event} (h : w.Ranked) (hcourse : w.Course es w') : w'.Ranked := by
  induction hcourse with
  | refl => exact h
  | step _ hchange ih => exact ih.change hchange

end Ranked

/-! ## The list of the living -/

/-- Whoever is spawned is listed last. -/
theorem living_spawnCreature {w : World E} (h : w.Ranked) (c : Creature) :
    (w.spawnCreature c).living = w.living ++ [c.id] := by
  have hfresh : (⟨w.lastRank + 1⟩ : Rank) ∉ w.creatures.keys :=
    fun hmem => h.fresh (List.mem_append_left _ hmem)
  unfold living
  show (w.creatures.insert _ c).values.map (·.id) = _
  rw [Table.values_insert hfresh, List.map_append]
  rfl

variable [Physics E]

/-- Who dies is struck from the list, and the others stay in order. -/
theorem living_removeCreature {w w' : World E} {rank : Rank} {c : Creature} (h : w.Ranked)
    (hliving : w.living.Nodup) (hremoved : w.removeCreature rank = some (c, w')) :
    w'.living = w.living.erase c.id := by
  obtain ⟨hget, rfl⟩ := removeCreature_inv hremoved
  rw [hliving.erase_eq_filter]
  refine (Table.map_values_erase h.creatures_nodup hliving hget).trans ?_
  refine List.filter_congr fun id _ => ?_
  rw [Bool.eq_iff_iff]
  simp

/-- An arrival is one birth. -/
theorem Arrives.births_eq {w : World E} {seed : Seed} {c : Creature} {es : List Event}
    (h : w.Arrives seed c es) : births es = [c.id] := by
  cases h with
  | fresh _ _ => rfl
  | @child rank parent o _ _ _ _ _ _ _ _ _ => cases o.operator <;> rfl

/-- Replayed, it puts the newborn last in the list. -/
theorem Arrives.replay_eq {w : World E} {seed : Seed} {c : Creature} {es : List Event}
    (h : w.Arrives seed c es) (living : List Ident) : replay living es = living ++ [c.id] := by
  cases h with
  | fresh _ _ => rfl
  | @child rank parent o _ _ _ _ _ _ _ _ _ => cases o.operator <;> rfl

variable [LawfulPhysics E]

/-- A quiet change does not touch what the creatures keep, rank by rank. -/
theorem Quiet.map_entries {β : Type} {w w' : World E} (h : w.Quiet w') (hkeys : w.creatures.keys.Nodup)
    {g : Rank → Creature → β} (hg : ∀ rank c d, c.Same d → g rank d = g rank c) :
    w'.creatures.entries.map (fun e => g e.1 e.2) = w.creatures.entries.map fun e => g e.1 e.2 := by
  refine Table.map_entries_congr hkeys h.keys_eq fun rank c hc => ?_
  obtain ⟨c', hc', hlives⟩ := h.lives rank c hc
  exact ⟨c', hc', hg rank c c' hlives.toSame⟩

/-- Nor does it touch what is kept, creature by creature. -/
theorem Quiet.map_values {β : Type} {w w' : World E} (h : w.Quiet w') (hkeys : w.creatures.keys.Nodup)
    {g : Creature → β} (hg : ∀ c d, c.Same d → g d = g c) :
    w'.creatures.values.map g = w.creatures.values.map g := by
  have hentries := h.map_entries hkeys (g := fun _ => g) fun _ => hg
  unfold Table.values
  rw [List.map_map, List.map_map]
  exact hentries

/-- After a quiet change the same are alive, in the same order. -/
theorem Quiet.living_eq {w w' : World E} (h : w.Quiet w') (hranked : w.Ranked) :
    w'.living = w.living :=
  h.map_values hranked.creatures_nodup fun _ _ hsame => hsame.id_eq

/-- **Whoever is alive after a course of changes** was alive before it, under the same rank, or its birth was
told, and its rank is new. -/
theorem Course.origin {w w' : World E} {es : List Event} (h : w.Course es w') {rank : Rank} {d : Creature}
    (hd : w'.creatures.get? rank = some d) :
    (∃ c, w.creatures.get? rank = some c ∧ c.Lives d) ∨ d.id ∈ births es ∧ w.lastRank < rank.number := by
  induction h generalizing d with
  | refl => exact .inl ⟨d, hd, .refl d⟩
  | @step w' w'' es fs hcourse hchange ih =>
    rw [births_append, List.mem_append]
    -- whoever was there before the last change is from the beginning or was born on the way
    rcases hchange.origin hd with ⟨c, hc, hlives⟩ | ⟨seed, harrives, hnew⟩
    · rcases ih hc with ⟨b, hb, hlives'⟩ | ⟨hborn, hnew⟩
      · exact .inl ⟨b, hb, hlives'.trans hlives⟩
      · exact .inr ⟨.inl (hlives.id_eq ▸ hborn), hnew⟩
    · rw [harrives.births_eq]
      exact .inr ⟨.inr (List.mem_singleton_self _), Nat.lt_of_le_of_lt hcourse.lastRank_le hnew⟩

/-- **Each change does to the list of the living what its events say.** -/
theorem Change.living_eq {w w' : World E} {es : List Event} (h : w.Change es w') (hranked : w.Ranked)
    (hliving : w.living.Nodup) : w'.living = replay w.living es := by
  cases h with
  | quiet hquiet => exact hquiet.living_eq hranked
  | struck _ _ hquiet => exact hquiet.living_eq hranked
  | pellet hspawn =>
    obtain ⟨source, -, -, rfl⟩ := spawnPellet_inv hspawn
    rfl
  | eaten _ hremoved hquiet =>
    rw [hquiet.living_eq (hranked.removePellet hremoved)]
    obtain ⟨-, rfl⟩ := removePellet_inv hremoved
    rfl
  | died _ hremoved => exact living_removeCreature hranked hliving hremoved
  | @born seed c es w₁ harrives hquiet =>
    have hbodied : Ranked { w with enclosure := seed.bodied w.enclosure } := hranked.retold _ _ _
    -- the payment of the parent is quiet, and the newborn comes last
    rw [living_spawnCreature (hbodied.quiet hquiet), hquiet.living_eq hbodied, harrives.replay_eq]
    rfl

/-- So does a course of changes, if nobody is born under an identity that was used before. -/
theorem Course.living_eq {w w' : World E} {es : List Event} (h : w.Course es w') (hranked : w.Ranked)
    (hdistinct : (w.living ++ births es).Nodup) : w'.living = replay w.living es := by
  induction h with
  | refl => rfl
  | @step w' w'' es fs hcourse hchange ih =>
    rw [births_append, ← List.append_assoc] at hdistinct
    have hbefore : (w.living ++ births es).Nodup := (List.nodup_append.mp hdistinct).1
    have hliving : w'.living = replay w.living es := ih hbefore
    -- the living are some of those who were there or were born, so they are distinct too
    have hnodup : w'.living.Nodup := by
      rw [hliving]
      exact hbefore.sublist (replay_sublist es w.living)
    rw [hchange.living_eq (hranked.course hcourse) hnodup, hliving, replay_append]

/-! ## Extinction -/

/-- No change raises an extinction: only the end of a tick does. -/
theorem Change.no_extinction {w w' : World E} {es : List Event} (h : w.Change es w') (n : Nat) :
    Event.extinction n ∉ es := by
  cases h with
  | quiet _ => exact List.not_mem_nil
  | pellet _ => exact List.not_mem_nil
  | born harrives _ =>
    cases harrives with
    | fresh _ _ => simp
    | @child rank parent o _ _ _ _ _ _ _ _ _ => cases o.operator <;> simp
  | _ => simp

/-- No course of changes tells of an extinction, which is for the end of a tick. -/
theorem Course.no_extinction {w w' : World E} {es : List Event} (h : w.Course es w') (n : Nat) :
    Event.extinction n ∉ es := by
  induction h with
  | refl => exact List.not_mem_nil
  | step _ hchange ih =>
    rw [List.mem_append]
    rintro (hmem | hmem)
    · exact ih hmem
    · exact hchange.no_extinction n hmem

end World

/-! ## Histories -/

namespace History

variable [Physics E] [LawfulPhysics E]

/-- Whatever is asked of the world, ranks stay in order. -/
theorem ranked_call {h h' : History E} {c : Call} (hranked : h.world.Ranked) (hcall : h.call c = .ok h') :
    h'.world.Ranked := by
  cases called_of_call hcall with
  -- each call gives out ranks in order, if at all
  | tick htick =>
    obtain ⟨es, hcourse, -⟩ := (h.world.tickBy_ensures _).of_ok htick
    have hcounted : h.world.counted.Ranked := hranked.retold _ _ _
    exact hcounted.course hcourse
  | @guest seed id w' hinsert =>
    obtain ⟨c, source, -, -, rfl⟩ := World.insertCreature_inv hinsert
    have hbodied : World.Ranked { h.world with enclosure := seed.bodied h.world.enclosure } :=
      hranked.retold _ _ _
    exact (hbodied.quiet (.memory _ source h.world.similarity)).spawnCreature c
  | change hchange => exact hranked.change hchange

/-- Ranks are in order in every state that calls lead to. -/
theorem ranked_run {config : Config} {enclosure : E} {entropy : BitVec 256} {calls : List Call}
    {h : History E} (hrun : run config enclosure entropy calls = .ok h) : h.world.Ranked := by
  refine run_induction hrun (fun w hw => ?_) fun _ _ _ _ hranked hcall => ranked_call hranked hcall
  obtain ⟨-, es, w₁, hcourse, rfl⟩ := World.create_inv hw
  exact ((World.Ranked.bare config enclosure entropy).course hcourse).retold _ _ _

/-- The log and what is pending tell who is alive, and nothing pending is an extinction. -/
structure Balanced (h : History E) : Prop where
  ranked        : h.world.Ranked
  no_extinction : ∀ n, Event.extinction n ∉ h.world.pendingEvents
  living_eq     : (births (h.log ++ h.world.pendingEvents)).Nodup →
    h.world.living = replay [] (h.log ++ h.world.pendingEvents)

/-- A new world has told nothing yet, and its first creatures are pending. -/
theorem balanced_create {config : Config} {enclosure : E} {entropy : BitVec 256} {w : World E}
    (h : World.create config enclosure entropy = .ok w) : Balanced { world := w } := by
  obtain ⟨-, es, w₁, hcourse, rfl⟩ := World.create_inv h
  have hranked := World.Ranked.bare config enclosure entropy
  have hafter := hranked.course hcourse
  refine ⟨hafter.retold _ _ _, fun n => hcourse.no_extinction n, fun hdistinct => ?_⟩
  exact hcourse.living_eq hranked hdistinct

/-- **A tick keeps the log in balance with the living.** -/
theorem Balanced.tick {h : History E} (hbalanced : h.Balanced) {t : TickCall} {events : List Event}
    {w' : World E} (htick : h.world.tickBy t = .ok (events, w')) :
    Balanced { h with world := w', log := h.log ++ events } := by
  obtain ⟨es, hcourse, hevents⟩ := (h.world.tickBy_ensures t).of_ok htick
  have hcounted : h.world.counted.Ranked := hbalanced.ranked.retold _ _ _
  have hpending : w'.pendingEvents = [] := World.pendingEvents_of_course hcourse
  refine ⟨hcounted.course hcourse, fun n => ?_, fun hdistinct => ?_⟩
  · show Event.extinction n ∉ w'.pendingEvents
    rw [hpending]
    exact List.not_mem_nil
  change (births ((h.log ++ events) ++ w'.pendingEvents)).Nodup at hdistinct
  show w'.living = replay [] ((h.log ++ events) ++ w'.pendingEvents)
  rw [hpending, List.append_nil, hevents, ← List.append_assoc, ← List.append_assoc] at hdistinct ⊢
  -- an extinction is neither a birth nor a death
  rw [births_append, births_extinction, List.append_nil, births_append] at hdistinct
  rw [replay_append, replay_extinction, replay_append]
  have hliving := hbalanced.living_eq (List.nodup_append.mp hdistinct).1
  rw [hcourse.living_eq hcounted ?_]
  · exact congrArg (replay · es) hliving
  · show (h.world.living ++ births es).Nodup
    rw [hliving]
    exact hdistinct.sublist ((replay_sublist _ []).append_right _)

/-- So does a run of ticks. -/
theorem balanced_run {config : Config} {enclosure : E} {entropy : BitVec 256} {ticks : List TickCall}
    {h : History E} (hrun : run config enclosure entropy (ticks.map .tick) = .ok h) : h.Balanced := by
  refine run_induction hrun (fun w hw => balanced_create hw) fun h c h' hc hbalanced hcall => ?_
  obtain ⟨t, -, rfl⟩ := List.mem_map.mp hc
  obtain ⟨⟨events, w'⟩, htick, hpure⟩ := except_bind_inv hcall
  cases hpure
  exact hbalanced.tick htick

end History

/-- **The log is a complete ledger of the population.** Whenever a world has been set up and run for any
number of ticks, and one more tick returns, then reading all events returned so far, adding whoever is
born and striking out whoever dies, yields the living in the order in which the world lists them, which
is that of their spawning. The last of these ticks reports an extinction if and only if someone was alive
before it and nobody is after it, and then once, as its last event. -/
theorem log_replays_to_living [Physics E] [LawfulPhysics E] {config : Config} {enclosure : E} {entropy : BitVec 256}
    {ticks : List TickCall} {h : History E} {t : TickCall} {events : List Event} {w' : World E}
    (hrun : History.run config enclosure entropy (ticks.map .tick) = .ok h)
    (htick : h.world.tickBy t = .ok (events, w'))
    (hdistinct : (births (h.log ++ events)).Nodup) :
    replay [] (h.log ++ events) = w'.creatures.values.map (·.id) ∧
      w'.creatures.keys.Pairwise (·.number < ·.number) ∧
      ∃ told, (∀ n, Event.extinction n ∉ told) ∧
        events = told ++
          if h.world.population ≠ 0 ∧ w'.population = 0 then [.extinction w'.tick] else [] := by
  have hbefore : h.Balanced := History.balanced_run hrun
  have hafter := hbefore.tick htick
  obtain ⟨es, hcourse, hevents⟩ := (h.world.tickBy_ensures t).of_ok htick
  refine ⟨?_, hafter.ranked.creatures_ascending, _, fun n => ?_, hevents⟩
  · have hpending : w'.pendingEvents = [] := World.pendingEvents_of_course hcourse
    have hliving := hafter.living_eq
    rw [hpending, List.append_nil] at hliving
    exact (hliving hdistinct).symm
  -- neither what was pending nor the course holds an extinction
  · rw [List.mem_append]
    rintro (hmem | hmem)
    · exact hbefore.no_extinction n hmem
    · exact hcourse.no_extinction n hmem

/-- A world of one creature that starves in its second tick and is not replaced. -/
def Config.starving : Config :=
  { world      := { seed := some 1, populationFloor := 1, floorCutoffTick := 1 }
    metabolism := { starvationRate := 0.005, starvationRateEarly := 0.005 } }

/-- A world in which everybody starves in the second tick, whose log replays to nobody and ends with an
extinction. -/
theorem log_replays_to_living_starving :
    ∃ h events w',
      History.run .starving (Enclosure.empty 1280.0 720.0) 0 ([TickCall.update].map .tick) = .ok h ∧
      h.world.tickBy .update = .ok (events, w') ∧ (births (h.log ++ events)).Nodup ∧
      h.world.population = 1 ∧ w'.population = 0 ∧
      replay [] (h.log ++ events) = w'.creatures.values.map (·.id) ∧
      events.getLast? = some (.extinction w'.tick) := by
  -- that the world dies out in this tick is computed, and what is told of it is taken from the theorem
  have hcheck : (match History.run .starving (Enclosure.empty 1280.0 720.0) 0 ([TickCall.update].map .tick) with
      | .ok h => match h.world.tickBy .update with
        | .ok (events, w') => decide ((births (h.log ++ events)).Nodup) &&
          decide (h.world.population = 1) && decide (w'.population = 0)
        | .error _ => false
      | .error _ => false) = true := by decide +kernel
  split at hcheck
  · rename_i h hrun
    split at hcheck
    · rename_i events w' htick
      simp only [Bool.and_eq_true, decide_eq_true_eq] at hcheck
      obtain ⟨⟨hdistinct, hbefore⟩, hafter⟩ := hcheck
      obtain ⟨hreplay, -, told, -, hevents⟩ := log_replays_to_living hrun htick hdistinct
      refine ⟨h, events, w', hrun, htick, hdistinct, hbefore, hafter, hreplay, ?_⟩
      rw [hevents, hbefore, hafter]
      simp
    · cases hcheck
  · cases hcheck

end Vivarium
