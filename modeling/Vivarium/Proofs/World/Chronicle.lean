import Vivarium.Proofs.World.Ledger

/-!
# The log is a chronicle

An event speaks of creatures by their identities. It fits what was logged before it if the creatures that
it speaks of are alive at that point, and if what it says of them agrees with their births: nobody is born
twice, a child is of the generation after its parent's, a mutation is told right after the birth of the
child that it changed, and a death tells the age. Every event of every run fits its past.

The invariant behind this is that each living creature is on record: its birth was logged, with the
generation and the tick that the creature itself still knows.

Main result: `events_fit_their_past`.
-/

namespace Vivarium

/-! ## Events that fit -/

/-- The event agrees with the events before it. -/
def Event.Fits (past : List Event) : Event → Prop
  | .birth id none generation _ => id ∉ births past ∧ generation = 1
  | .birth id (some parent) generation _ =>
    id ∉ births past ∧ parent ∈ replay [] past ∧
      ∃ grandparent g t, .birth parent grandparent g t ∈ past ∧ generation = g + 1
  | .death id age tick =>
    id ∈ replay [] past ∧ ∃ parent g t, .birth id parent g t ∈ past ∧ t + age = tick
  | .mutation id _ tick => ∃ before parent g, past = before ++ [.birth id (some parent) g tick]
  | .attack attacker target _ => attacker ∈ replay [] past ∧ target ∈ replay [] past
  | .foodEaten creature _ _ => creature ∈ replay [] past
  | .extinction _ => replay [] past = []

/-- Each of the events fits those before it. -/
def Consistent (es : List Event) : Prop :=
  ∀ past e future, es = past ++ e :: future → e.Fits past

namespace Consistent

theorem nil : Consistent [] := by
  intro past e future h
  simp at h

/-- What fits may be logged next. -/
theorem concat {es : List Event} (h : Consistent es) {e : Event} (he : e.Fits es) :
    Consistent (es ++ [e]) := by
  intro past e' future hsplit
  -- either `e'` is the new event, or it was there before
  rcases future.eq_nil_or_concat with rfl | ⟨future', last, rfl⟩
  · obtain ⟨rfl, hlast⟩ := List.append_inj' hsplit rfl
    cases hlast
    exact he
  · have hbefore : es = past ++ e' :: future' := by
      rw [List.concat_eq_append, ← List.cons_append, ← List.append_assoc] at hsplit
      exact (List.append_inj' hsplit rfl).1
    exact h past e' future' hbefore

/-- An extinction is told when nobody is left. -/
theorem extinct {es : List Event} (h : Consistent es) {c : Prop} [Decidable c]
    (hnobody : c → replay [] es = []) (n : Nat) :
    Consistent (es ++ if c then [.extinction n] else []) := by
  split
  · rename_i hc
    exact h.concat (hnobody hc)
  · rw [List.append_nil]
    exact h

end Consistent

/-! ## Creatures on record -/

/-- The child of a creature is of the next generation. -/
theorem Birth.childLineage_generation {parent : Creature} {mutated : Bool} {lineage : Lineage}
    (h : childLineage parent mutated = .ok lineage) :
    lineage.generation = parent.lineage.generation + 1 := by
  rw [childLineage_inv h]

/-- The birth of the creature is among the events, as the creature remembers it. -/
def Creature.OnRecord (past : List Event) (c : Creature) : Prop :=
  ∃ parent, .birth c.id parent c.lineage.generation c.birthTick ∈ past

/-- A record is kept for life, whatever is logged afterwards. -/
theorem Creature.OnRecord.lives {past : List Event} {c d : Creature} (h : c.OnRecord past)
    (hlives : c.Lives d) (es : List Event) : d.OnRecord (past ++ es) := by
  obtain ⟨parent, hmem⟩ := h
  refine ⟨parent, List.mem_append_left _ ?_⟩
  rw [hlives.id_eq, hlives.lineage_eq, hlives.birthTick_eq]
  exact hmem

variable {E : Type}

namespace World

/-- The events so far are consistent, tell who is alive, and have all the living on record. -/
structure Recorded (past : List Event) (w : World E) : Prop extends Ranked w where
  consistent   : Consistent past
  births_nodup : (births past).Nodup
  living_eq    : w.living = replay [] past
  on_record    : ∀ rank c, w.creatures.get? rank = some c → c.OnRecord past
  birthTick_le : ∀ rank c, w.creatures.get? rank = some c → c.birthTick ≤ w.tick

/-- Whoever arrives is born now, and told to be born. -/
theorem Arrives.onRecord [Physics E] {w : World E} {seed : Seed} {c : Creature} {es : List Event}
    (h : w.Arrives seed c es) (past : List Event) :
    c.birthTick = w.tick ∧ c.OnRecord (past ++ es) := by
  cases h with
  | @fresh place program c hprogram hnewborn =>
    -- its birth is all that its arrival tells of
    refine ⟨hnewborn.birthTick_eq, none, List.mem_append_right _ ?_⟩
    rw [show ({ c with mass := _ } : Creature).birthTick = w.tick from hnewborn.birthTick_eq]
    exact List.mem_singleton_self _
  | @child rank parent _ _ _ _ _ _ _ _ _ hnewborn =>
    -- its birth comes first, and at most a mutation follows
    refine ⟨hnewborn.birthTick_eq, some parent.id, List.mem_append_right _ ?_⟩
    rw [hnewborn.birthTick_eq]
    exact List.mem_cons_self

namespace Recorded

variable {past : List Event} {w w' : World E}

/-- Who is alive is alive by the log. -/
theorem mem_replay (h : w.Recorded past) {rank : Rank} {c : Creature}
    (hc : w.creatures.get? rank = some c) : c.id ∈ replay [] past := by
  rw [← h.living_eq]
  exact List.mem_map_of_mem (Table.mem_values_of_get? hc)

theorem living_nodup (h : w.Recorded past) : w.living.Nodup := by
  rw [h.living_eq]
  exact h.births_nodup.sublist (replay_sublist past [])

theorem bare (config : Config) (enclosure : E) (entropy : BitVec 256) :
    (World.bare config enclosure entropy).Recorded [] :=
  { toRanked     := .bare _ _ _
    consistent   := .nil
    births_nodup := List.nodup_nil
    living_eq    := rfl
    on_record    := fun _ _ hc => by cases hc
    birthTick_le := fun _ _ hc => by cases hc }

/-- Time passes, and what is pending is told. -/
theorem counted (h : w.Recorded past) : w.counted.Recorded past :=
  ⟨h.toRanked.retold _ _ _, h.consistent, h.births_nodup, h.living_eq, h.on_record,
    fun rank c hc => Nat.le_succ_of_le (h.birthTick_le rank c hc)⟩

/-- An extinction is told of a world without creatures. -/
theorem extinct (h : w.Recorded past) {c : Prop} [Decidable c] (hnobody : c → w.population = 0)
    (n : Nat) : w.Recorded (past ++ if c then [.extinction n] else []) := by
  -- nobody is left, so the past replays to nobody
  have hreplay : c → replay [] past = [] := by
    intro hc
    have hempty : w.creatures.entries = [] := List.length_eq_zero_iff.mp (hnobody hc)
    rw [← h.living_eq, living, Table.values, hempty]
    rfl
  refine ⟨h.toRanked, h.consistent.extinct hreplay n, ?_, ?_, ?_, h.birthTick_le⟩
  · rw [births_append, births_extinction, List.append_nil]
    exact h.births_nodup
  · rw [replay_append, replay_extinction]
    exact h.living_eq
  · intro rank d hd
    exact (h.on_record rank d hd).lives (.refl d) _

variable [Physics E]

/-- An arrival is told by a birth that fits, and a mutation right after it. -/
theorem arrival (h : w.Recorded past) {seed : Seed} {c : Creature} {es : List Event}
    (harrives : w.Arrives seed c es) (hdistinct : (births (past ++ es)).Nodup) :
    Consistent (past ++ es) := by
  have hnew : c.id ∉ births past := by
    rw [births_append, harrives.births_eq] at hdistinct
    intro hmem
    exact (List.nodup_append.mp hdistinct).2.2 _ hmem _ (List.mem_singleton_self _) rfl
  cases harrives with
  | fresh _ hnewborn =>
    refine h.consistent.concat ⟨hnew, ?_⟩
    rw [hnewborn.lineage_eq]
    rfl
  | @child rank parent o tr lineage c hparent _ _ _ hlineage hnewborn =>
    -- the parent is alive, so its own birth is on record
    obtain ⟨grandparent, hbirth⟩ := h.on_record rank parent hparent
    have hgeneration : c.lineage.generation = parent.lineage.generation + 1 := by
      rw [hnewborn.lineage_eq]
      exact Birth.childLineage_generation hlineage
    have hborn := h.consistent.concat (e := .birth c.id (some parent.id) c.lineage.generation w.tick)
      ⟨hnew, h.mem_replay hparent, grandparent, _, _, hbirth, hgeneration⟩
    cases o.operator with
    | none => exact hborn
    | some op =>
      rw [List.append_cons]
      exact hborn.concat ⟨past, parent.id, c.lineage.generation, rfl⟩

variable [LawfulPhysics E]

/-- What a change raises fits. -/
theorem consistent_append (h : w.Recorded past) {es : List Event} (hchange : w.Change es w')
    (hdistinct : (births (past ++ es)).Nodup) : Consistent (past ++ es) := by
  cases hchange with
  | quiet _ =>
    rw [List.append_nil]
    exact h.consistent
  | struck hattacker hvictim _ =>
    exact h.consistent.concat ⟨h.mem_replay hattacker, h.mem_replay hvictim⟩
  | pellet _ =>
    rw [List.append_nil]
    exact h.consistent
  | eaten heater _ _ => exact h.consistent.concat (h.mem_replay heater)
  | died _ hremoved =>
    obtain ⟨hget, -⟩ := removeCreature_inv hremoved
    obtain ⟨parent, hbirth⟩ := h.on_record _ _ hget
    -- nobody is born in the future, so the age is no less than the true difference
    have hage := Nat.add_sub_cancel' (h.birthTick_le _ _ hget)
    exact h.consistent.concat ⟨h.mem_replay hget, parent, _, _, hbirth, hage⟩
  | born harrives _ => exact h.arrival harrives hdistinct

/-- **Each change leaves the world recorded** by the log with the events of the change. -/
theorem change (h : w.Recorded past) {es : List Event} (hchange : w.Change es w')
    (hdistinct : (births (past ++ es)).Nodup) : w'.Recorded (past ++ es) := by
  refine ⟨h.toRanked.change hchange, h.consistent_append hchange hdistinct, hdistinct, ?_, ?_, ?_⟩
  · rw [replay_append, ← h.living_eq]
    exact hchange.living_eq h.toRanked h.living_nodup
  · intro rank d hd
    -- whoever is there after the change was there before it, or has just arrived
    rcases hchange.origin hd with ⟨c, hc, hlives⟩ | ⟨seed, harrives, -⟩
    · exact (h.on_record rank c hc).lives hlives es
    · exact (harrives.onRecord past).2
  · intro rank d hd
    rw [hchange.frame.2.1]
    rcases hchange.origin hd with ⟨c, hc, hlives⟩ | ⟨seed, harrives, -⟩
    · rw [hlives.birthTick_eq]
      exact h.birthTick_le rank c hc
    · exact (harrives.onRecord past).1.le

theorem course (h : w.Recorded past) {es : List Event} (hcourse : w.Course es w')
    (hdistinct : (births (past ++ es)).Nodup) : w'.Recorded (past ++ es) := by
  induction hcourse with
  | refl =>
    rw [List.append_nil]
    exact h
  | @step w' w'' es fs _ hchange ih =>
    -- the last change is judged by what was told before it
    rw [← List.append_assoc] at hdistinct ⊢
    have hbefore : (births (past ++ es)).Nodup := by
      rw [births_append] at hdistinct
      exact (List.nodup_append.mp hdistinct).1
    exact (ih hbefore).change hchange hdistinct

end Recorded

end World

/-! ## Histories -/

variable [Physics E] [LawfulPhysics E]

namespace History

/-- If the drawn identities are distinct, what was logged and what is pending record the world. -/
theorem recorded_run {config : Config} {enclosure : E} {entropy : BitVec 256} {ticks : List TickCall}
    {h : History E} (hrun : run config enclosure entropy (ticks.map .tick) = .ok h) :
    h.drawn.Nodup → h.world.Recorded (h.log ++ h.world.pendingEvents) := by
  refine run_induction hrun
    (P := fun h => h.drawn.Nodup → h.world.Recorded (h.log ++ h.world.pendingEvents))
    (fun w hw hdistinct => ?_) fun h c h' hc ih hcall hdistinct => ?_
  · obtain ⟨-, es, w₁, hcourse, rfl⟩ := World.create_inv hw
    have hafter := (World.Recorded.bare config enclosure entropy).course hcourse hdistinct
    exact ⟨hafter.toRanked.retold _ _ _, hafter.consistent, hafter.births_nodup, hafter.living_eq,
      hafter.on_record, hafter.birthTick_le⟩
  · obtain ⟨t, -, rfl⟩ := List.mem_map.mp hc
    obtain ⟨events, w', htick, rfl⟩ := call_tick_inv hcall
    obtain ⟨es, hcourse, rfl⟩ := (h.world.tickBy_ensures t).of_ok htick
    have hpending : w'.pendingEvents = [] := World.pendingEvents_of_course hcourse
    -- what was pending is logged first, then the course, then an extinction
    change (drawn { h with world := w', log := h.log ++ (h.world.pendingEvents ++ es ++ _) }).Nodup
      at hdistinct
    unfold drawn at hdistinct
    dsimp only at hdistinct ⊢
    rw [hpending, List.append_nil, ← List.append_assoc, ← List.append_assoc] at hdistinct ⊢
    rw [births_append, births_extinction, List.append_nil] at hdistinct
    have hlogged : (births ((h.log ++ h.world.pendingEvents) ++ es)).Nodup :=
      (List.nodup_append.mp hdistinct).2.1
    have hbefore : h.drawn.Nodup := by
      refine hdistinct.sublist ((List.Sublist.refl _).append ?_)
      rw [births_append _ es]
      exact List.sublist_append_left _ _
    exact ((ih hbefore).counted.course hcourse hlogged).extinct (fun hlast => hlast.2) _

end History

/-- **Every event fits its past.** In the log of every run, at every point: whoever eats, attacks, is
attacked, dies or gives birth is alive at that point by what was logged before; nobody is born under an
identity that was used before; a creature without a parent is of the first generation, and a child of the
one after its parent's; a mutation comes right after the birth of the creature that it changed; the age at
a death counts the ticks since that creature's birth; and an extinction leaves nobody. -/
theorem events_fit_their_past {config : Config} {enclosure : E} {entropy : BitVec 256}
    {ticks : List TickCall} {h : History E} {past future : List Event} {e : Event}
    (hrun : History.run config enclosure entropy (ticks.map .tick) = .ok h)
    (hdistinct : h.drawn.Nodup) (hlog : h.log = past ++ e :: future) : e.Fits past := by
  refine (History.recorded_run hrun hdistinct).consistent past e (future ++ h.world.pendingEvents) ?_
  rw [hlog, List.append_assoc, List.cons_append]

/-- The only creature of the world starves in the second tick, and its death fits its birth. -/
theorem events_fit_their_past_starving :
    ∃ h id,
      History.run .starving (Enclosure.empty 1280.0 720.0) 0 ([.update, .update].map .tick) = .ok h ∧
      h.drawn.Nodup ∧ h.log = [.birth id none 1 0] ++ .death id 2 2 :: [.extinction 2] ∧
      Event.Fits [.birth id none 1 0] (.death id 2 2) := by
  have hcheck : (History.run .starving (Enclosure.empty 1280.0 720.0) 0
      ([.update, .update].map .tick)).toOption.any (fun h => (births h.log).head?.any fun id =>
        decide (h.drawn.Nodup ∧
          h.log = [.birth id none 1 0] ++ .death id 2 2 :: [.extinction 2])) = true := by
    decide +kernel
  obtain ⟨h, hrun, hcheck⟩ := except_any_inv hcheck
  obtain ⟨id, -, hcheck⟩ := (Option.any_eq_true _ _).mp hcheck
  obtain ⟨hdistinct, hlog⟩ := of_decide_eq_true hcheck
  exact ⟨h, id, hrun, hdistinct, hlog, events_fit_their_past hrun hdistinct hlog⟩

end Vivarium
