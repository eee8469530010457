import Vivarium.Proofs.Tally
import Vivarium.Proofs.World.Population
import Vivarium.Run.Basic

/-!
# The tally agrees with the world

Every way into the world is told by one birth, and every way out of it by one death; a mutation is told at most
once with a birth, under the name of one of the operators. So over any course of changes the population goes up
by the births and down by the deaths. What a run has told so far, together with what still waits to be told, is
such a course from the bare world on; after the first tick nothing waits any more, and the totals of the tally
are those of the world.

Main result: `tally_agrees_with_world`.
-/

namespace Vivarium

/-! ## Names -/

/-- A mutation bears the name of one of the operators. -/
def Event.Named : Event → Prop
  | .mutation _ operator _ => ∃ op : MutationOperator, operator = op.name
  | _                      => True

/-- The name of the counter that is kept for a kind of events. -/
def Event.Kind.counter? : Event.Kind → Option String
  | .attack     => some "attack"
  | .foodEaten  => some "food_eaten"
  | .extinction => some "extinction"
  | _           => none

/-- No operator has the name of such a counter, so only the events of this kind raise it. -/
theorem Event.label?_eq_iff {e : Event} (h : e.Named) {k : Event.Kind} {name : String}
    (hname : k.counter? = some name) : e.label? = some name ↔ e.kind = k := by
  -- the five names of operators against the three names of counters
  have hne (op : MutationOperator) : op.name ≠ name := by
    cases k <;> cases hname <;> cases op <;> simp [MutationOperator.name]
  cases e with
  | mutation id operator tick =>
    obtain ⟨op, rfl⟩ := h
    refine ⟨fun hlabel => absurd (Option.some.inj hlabel) (hne op), fun hkind => ?_⟩
    subst hkind
    cases hname
  | _ => cases k <;> cases hname <;> simp [Event.label?, Event.kind]

theorem labelled_eq_told {k : Event.Kind} {name : String} {es : List Event} (hname : k.counter? = some name)
    (hnamed : ∀ e ∈ es, e.Named) : labelled name es = told k es := by
  refine List.countP_congr fun e he => ?_
  rw [decide_eq_true_eq, decide_eq_true_eq]
  exact Event.label?_eq_iff (hnamed e he) hname

/-- The counters of the operators count the mutations together, each of them once. -/
theorem sum_labelled_operators {es : List Event} (hnamed : ∀ e ∈ es, e.Named) :
    (MutationOperator.table.map fun op => labelled op.name es).sum = told .mutation es := by
  induction es with
  | nil => rfl
  | cons e es ih =>
    obtain ⟨he, hes⟩ := List.forall_mem_cons.mp hnamed
    -- each name is in the table once, so a mutation raises one of the counters
    have hone : (MutationOperator.table.map fun op => if e.label? = some op.name then 1 else 0).sum =
        if e.kind = .mutation then 1 else 0 := by
      cases e with
      | mutation id operator tick =>
        obtain ⟨op, rfl⟩ := he
        cases op <;> rfl
      | _ => rfl
    simp only [labelled_cons, told_cons]
    rw [List.sum_map_add, ih hes, hone]

/-! ## Accounts -/

/-- The events account for a population that was `before` and is `after`. -/
structure Accounts (es : List Event) (before after : Nat) : Prop where
  balance      : after + told .death es = before + told .birth es
  mutations_le : told .mutation es ≤ told .birth es
  named        : ∀ e ∈ es, e.Named

namespace Accounts

variable {es fs : List Event} {before between after : Nat}

theorem nil (n : Nat) : Accounts [] n n := ⟨rfl, Nat.le_refl _, fun e he => by cases he⟩

theorem append (h : Accounts es before between) (h' : Accounts fs between after) :
    Accounts (es ++ fs) before after := by
  have hbalance := h.balance
  have hbalance' := h'.balance
  have hle := h.mutations_le
  have hle' := h'.mutations_le
  refine ⟨?_, ?_, fun e he => (List.mem_append.mp he).elim (h.named e) (h'.named e)⟩
  · rw [told_append, told_append]
    omega
  · rw [told_append, told_append]
    omega

/-- Attacks, meals and extinctions change no population. -/
theorem single {e : Event} (hkind : e.kind = .attack ∨ e.kind = .foodEaten ∨ e.kind = .extinction) (n : Nat) :
    Accounts [e] n n := by
  have hnamed : e.Named := by
    cases e with
    | mutation id operator tick => simp [Event.kind] at hkind
    | _ => trivial
  have hall : ∀ e' ∈ [e], e'.Named := fun e' he' => List.mem_singleton.mp he' ▸ hnamed
  rcases hkind with hkind | hkind | hkind
  · exact ⟨by simp [hkind], by simp [hkind], hall⟩
  · exact ⟨by simp [hkind], by simp [hkind], hall⟩
  · exact ⟨by simp [hkind], by simp [hkind], hall⟩

theorem extinction {c : Prop} [Decidable c] (tick n : Nat) :
    Accounts (if c then [.extinction tick] else []) n n := by
  split
  · exact single (.inr (.inr rfl)) n
  · exact nil n

end Accounts

namespace World

variable {w w' : World Enclosure}

theorem population_eq_length_keys (w : World Enclosure) : w.population = w.creatures.keys.length := by
  unfold Table.keys
  rw [List.length_map]
  rfl

/-- Where no rank is held twice, one death is one less. -/
theorem population_removeCreature (hranked : w.Ranked) {rank : Rank} {c : Creature}
    (h : w.removeCreature rank = some (c, w')) : w'.population + 1 = w.population := by
  obtain ⟨hget, rfl⟩ := removeCreature_inv h
  have hmem := Table.mem_keys_of_get? hget
  have hpos : 0 < w.creatures.keys.length := List.length_pos_of_mem hmem
  rw [population_eq_length_keys, population_eq_length_keys]
  -- the rank is one of the keys, and is there once, so one key is taken away
  have herased : (w.creatures.erase rank).keys = w.creatures.keys.erase rank := by
    rw [Table.keys_erase, hranked.creatures_nodup.erase_eq_filter]
    exact List.filter_congr fun k _ => by simp [bne, Bool.beq_eq_decide_eq]
  show (w.creatures.erase rank).keys.length + 1 = _
  rw [herased, List.length_erase_of_mem hmem]
  omega

/-- An arrival is told by one birth, and by one mutation at most. -/
theorem Arrives.accounts {seed : Seed} {c : Creature} {es : List Event} (h : w.Arrives seed c es) (n : Nat) :
    Accounts es n (n + 1) := by
  cases h with
  | fresh _ _ => exact ⟨rfl, Nat.zero_le _, fun e he => List.mem_singleton.mp he ▸ trivial⟩
  | @child _ _ o _ _ _ _ _ _ _ _ _ =>
    -- a child is told of by its birth, and by a mutation if an operator was at work
    cases o.operator with
    | none => exact ⟨rfl, Nat.zero_le _, fun e he => List.mem_singleton.mp he ▸ trivial⟩
    | some op =>
      refine ⟨rfl, Nat.le_refl _, fun e he => ?_⟩
      rcases List.mem_cons.mp he with rfl | hmutation
      · trivial
      · rw [List.mem_singleton.mp hmutation]
        exact ⟨op, rfl⟩

/-- **Each change accounts for the population.** -/
theorem Change.accounts {es : List Event} (h : w.Change es w') (hranked : w.Ranked) :
    Accounts es w.population w'.population := by
  -- only a birth adds to the population, and only a death takes from it
  cases h with
  | quiet hquiet =>
    rw [hquiet.retains.population_eq]
    exact .nil _
  | struck _ _ hquiet =>
    rw [hquiet.retains.population_eq]
    exact .single (.inl rfl) _
  | pellet hspawn =>
    obtain ⟨source, -, -, rfl⟩ := spawnPellet_inv hspawn
    exact .nil _
  | eaten _ hremoved hquiet =>
    obtain ⟨-, rfl⟩ := removePellet_inv hremoved
    rw [hquiet.retains.population_eq]
    exact .single (.inr (.inl rfl)) _
  | died _ hremoved =>
    rw [← population_removeCreature hranked hremoved]
    exact ⟨rfl, Nat.le_refl _, fun e he => List.mem_singleton.mp he ▸ trivial⟩
  | @born seed c es w₁ harrives hquiet =>
    have hbodied : Ranked { w with enclosure := seed.bodied w.enclosure } := hranked.retold _ _ _
    rw [population_spawnCreature (hbodied.quiet hquiet), hquiet.retains.population_eq]
    exact harrives.accounts _

theorem Course.accounts {es : List Event} (h : w.Course es w') (hranked : w.Ranked) :
    Accounts es w.population w'.population := by
  induction h with
  | refl => exact .nil _
  | step hcourse hchange ih => exact ih.append (hchange.accounts (hranked.course hcourse))

end World

/-! ## Runs -/

namespace Run

/-- So many ticks of a run, and all events of theirs. -/
def steps : (n : Nat) → Run → Outcome (List Event × Run)
  | 0, r     => return ([], r)
  | n + 1, r => do
    let (events, r) ← r.step
    let (later, r) ← steps n r
    return (events ++ later, r)

/-- What the tally of a run says, where `past` are the events that its ticks told so far. -/
structure Tallied (past : List Event) (r : Run) : Prop where
  ranked    : r.world.Ranked
  accounts  : Accounts (past ++ r.world.pendingEvents) 0 r.world.population
  births    : r.tally.births = told .birth past
  deaths    : r.tally.deaths = told .death past
  ascending : Tally.Ascending r.tally.counters
  counters  : ∀ name, r.tally.counter name = labelled name past
  ticks     : r.tally.ticks = r.world.tick

/-- The tally shows the world as the last tick left it, when all births have been told. -/
structure UpToDate (r : Run) : Prop where
  nothing    : r.world.pendingEvents = []
  population : r.tally.population = r.world.population
  food       : r.tally.food = r.world.foodCount

variable {config : Config} {options : RunOptions} {entropy : BitVec 256} {r r' : Run} {past es : List Event}

/-- At first nothing is tallied. -/
theorem start_tallied (h : start config options entropy = .ok r) : r.Tallied [] ∧ r.world.tick = 0 := by
  obtain ⟨w, hcreate, hpure⟩ := except_bind_inv h
  cases hpure
  obtain ⟨-, births, w₁, hcourse, rfl⟩ := World.create_inv hcreate
  have hbare := World.Ranked.bare { config with world := { config.world with
    seed := options.seed <|> config.world.seed } } (Enclosure.empty config.world.width config.world.height) entropy
  have hclock : w₁.tick = 0 := hcourse.frame.2.1
  exact ⟨⟨(hbare.course hcourse).retold _ _ _, hcourse.accounts hbare, rfl, rfl, List.Pairwise.nil,
    fun _ => rfl, hclock.symm⟩, hclock⟩

/-- **A tick is tallied.** -/
theorem Tallied.step (h : r.Tallied past) (hstep : r.step = .ok (es, r')) :
    r'.Tallied (past ++ es) ∧ r'.UpToDate ∧ r'.world.tick = r.world.tick + 1 := by
  obtain ⟨⟨events, w'⟩, hadvance, hpure⟩ := except_bind_inv hstep
  cases hpure
  obtain ⟨fs, hcourse, rfl⟩ := (r.world.tickBy_ensures (.advance frameTime)).of_ok hadvance
  have hcounted : r.world.counted.Ranked := h.ranked.retold _ _ _
  have hpending : w'.pendingEvents = [] := World.pendingEvents_of_course hcourse
  have hclock : w'.tick = r.world.tick + 1 := hcourse.frame.2.1
  refine ⟨⟨hcounted.course hcourse, ?_, ?_, ?_, ?_, fun name => ?_, ?_⟩, ⟨hpending, rfl, rfl⟩, hclock⟩
  · -- what was pending is told first, then the course, then an extinction
    show Accounts (_ ++ w'.pendingEvents) 0 w'.population
    rw [hpending, List.append_nil, ← List.append_assoc, ← List.append_assoc]
    exact (h.accounts.append (hcourse.accounts hcounted)).append (.extinction _ _)
  · show (r.tally.recordEvents _).births = _
    rw [Tally.births_recordEvents, h.births, told_append _ past]
  · show (r.tally.recordEvents _).deaths = _
    rw [Tally.deaths_recordEvents, h.deaths, told_append _ past]
  · exact Tally.ascending_recordEvents h.ascending _
  · show (r.tally.recordEvents _).counter name = _
    rw [Tally.counter_recordEvents h.ascending, h.counters, labelled_append name past]
  · show (r.tally.recordEvents _).ticks + 1 = w'.tick
    rw [Tally.ticks_recordEvents, h.ticks, hclock]

/-- So are all ticks, and after the last of them the tally is up to date. -/
theorem Tallied.steps {n : Nat} (h : r.Tallied past) (hsteps : r.steps n = .ok (es, r')) :
    r'.Tallied (past ++ es) ∧ r'.world.tick = r.world.tick + n ∧ (n = 0 ∨ r'.UpToDate) := by
  -- by induction on the ticks; what one of them told is past for the next
  induction n generalizing r past es with
  | zero =>
    cases hsteps
    rw [List.append_nil]
    exact ⟨h, rfl, .inl rfl⟩
  | succ n ih =>
    obtain ⟨⟨events, r₁⟩, hstep, hsteps⟩ := except_bind_inv hsteps
    obtain ⟨⟨later, r₂⟩, hlater, hpure⟩ := except_bind_inv hsteps
    cases hpure
    obtain ⟨htallied, hdate, hone⟩ := h.step hstep
    obtain ⟨hlast, hclock, hend⟩ := ih htallied hlater
    refine ⟨by rwa [← List.append_assoc], by omega, .inr ?_⟩
    rcases hend with rfl | hend
    · cases hlater
      exact hdate
    · exact hend

end Run

/-- **The tally agrees with the world.** Whatever a run was set up on, after any number of ticks, but one at
least, the births are the deaths and those who are alive, and the tally's population, pellets and ticks are the
world's. The counters of attacks, meals and extinctions say how many of these were told, and the counters of
the five operators say together how many mutations were told, which are no more than the births. -/
theorem tally_agrees_with_world {config : Config} {options : RunOptions} {entropy : BitVec 256} {n : Nat}
    {start r : Run} {events : List Event} (hstart : Run.start config options entropy = .ok start)
    (hsteps : start.steps (n + 1) = .ok (events, r)) :
    r.tally.births = r.tally.deaths + r.world.population ∧
    r.tally.population = r.world.population ∧ r.tally.food = r.world.foodCount ∧
    r.tally.ticks = r.world.tick ∧ r.world.tick = n + 1 ∧
    r.tally.births = told .birth events ∧ r.tally.deaths = told .death events ∧
    r.tally.counter "attack" = told .attack events ∧
    r.tally.counter "food_eaten" = told .foodEaten events ∧
    r.tally.counter "extinction" = told .extinction events ∧
    (MutationOperator.table.map fun op => r.tally.counter op.name).sum = told .mutation events ∧
    told .mutation events ≤ r.tally.births := by
  obtain ⟨hfirst, hzero⟩ := Run.start_tallied hstart
  obtain ⟨htallied, hclock, hend⟩ := hfirst.steps hsteps
  obtain ⟨hnothing, hpopulation, hfood⟩ := hend.resolve_left (Nat.succ_ne_zero n)
  rw [List.nil_append] at htallied
  -- nothing is pending after the last tick, so what was told accounts for all who are there
  obtain ⟨hbalance, hle, hnamed⟩ := htallied.accounts
  rw [hnothing, List.append_nil] at hbalance hle hnamed
  rw [← htallied.births, ← htallied.deaths] at hbalance
  rw [← htallied.births] at hle
  have hoperators :
      (MutationOperator.table.map fun op => r.tally.counter op.name).sum = told .mutation events := by
    rw [← sum_labelled_operators hnamed]
    exact congrArg List.sum (List.map_congr_left fun op _ => htallied.counters op.name)
  refine ⟨by omega, hpopulation, hfood, htallied.ticks, by omega, htallied.births, htallied.deaths, ?_, ?_, ?_,
    hoperators, hle⟩
  · exact (htallied.counters _).trans (labelled_eq_told rfl hnamed)
  · exact (htallied.counters _).trans (labelled_eq_told rfl hnamed)
  · exact (htallied.counters _).trans (labelled_eq_told rfl hnamed)

/-- A world for one creature, which has a child and starves in its first turn. -/
def Config.fleeting : Config :=
  { world      := { seed := some 4, populationFloor := 1, freshSpawnMass := 400.0 }
    food       := { maxFood := 0.0, maxFoodEarly := 0.0 }
    metabolism := { starvationRate := 1.0, starvationRateEarly := 1.0 } }

/-- After one tick its child is left, which was changed. -/
theorem tally_agrees_with_world_fleeting :
    ∃ start events r,
      Run.start .fleeting {} 0 = .ok start ∧ start.steps (0 + 1) = .ok (events, r) ∧
      told .birth events = 2 ∧ told .death events = 1 ∧ told .mutation events = 1 ∧
      r.world.population = 1 ∧ r.tally.births = r.tally.deaths + r.world.population ∧
      r.tally.population = 1 ∧ r.tally.births = 2 ∧
      (MutationOperator.table.map fun op => r.tally.counter op.name).sum = 1 := by
  -- what happens in this tick is computed, and that the tally agrees with it is taken from the theorem
  have hcheck : (Run.start .fleeting {} 0).toOption.any (fun start =>
      (start.steps (0 + 1)).toOption.any fun after =>
        decide (told .birth after.1 = 2 ∧ told .death after.1 = 1 ∧ told .mutation after.1 = 1 ∧
          after.2.world.population = 1)) = true := by
    decide +kernel
  obtain ⟨start, hstart, hcheck⟩ := except_any_inv hcheck
  obtain ⟨⟨events, r⟩, hsteps, hcheck⟩ := except_any_inv hcheck
  obtain ⟨hbirths, hdeaths, hmutations, hone⟩ := of_decide_eq_true hcheck
  obtain ⟨hbalance, hpopulation, -, -, -, htold, -, -, -, -, hoperators, -⟩ :=
    tally_agrees_with_world hstart hsteps
  exact ⟨start, events, r, hstart, hsteps, hbirths, hdeaths, hmutations, hone, hbalance,
    hpopulation.trans hone, htold.trans hbirths, hoperators.trans hmutations⟩

end Vivarium
