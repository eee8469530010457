import Vivarium.Proofs.Creature.Turns
import Vivarium.Proofs.Program.Building
import Vivarium.Proofs.Scalar.Special
import Vivarium.Proofs.World.Deliveries
import Vivarium.Proofs.World.Steady
import Vivarium.Proofs.World.Views

/-!
# A creature that waits starves on schedule

In a world that brings no food and nobody else, a creature whose genes all wait has nothing to do. Each gene keeps
it busy for a hundred ticks, so that it is at the next one after a hundred and one, and only its metabolism is
charged. So its state after any number of ticks is known in a closed form, up to the first tick at which nothing
is left of its hunger: in that one it dies, and the world is empty.

Main result: `waiting_creature_starves_on_schedule`.
-/

namespace Vivarium

/-! ## No food -/

/-- Where nothing is ever put in, no food is allowed at any time. -/
theorem Config.maxFood_of_zero {config : Config} (hsteady : (config.food.maxFood == 0.0) = true)
    (hearly : (config.food.maxFoodEarly == 0.0) = true) (tick : Nat) :
    ¬ Float.ofNat 0 < config.maxFood tick := by
  intro hlt
  obtain ⟨-, hnumber, hpos⟩ := Double.lt_iff.mp hlt
  unfold maxFood decaying at hnumber hpos
  rw [Double.units_zero_div_add_zero (Double.sub_of_zero hearly hsteady) hsteady hnumber,
    (Double.isWhole_ofNat (n := 0) (by decide)).2, Int.natCast_zero, Int.zero_mul] at hpos
  exact Int.lt_irrefl 0 hpos

/-! ## Programs that wait -/

/-- The last instruction of the catalog is to wait. -/
theorem Instruction.eq_wait {i : Instruction} (h : i.catalogIndex = 15) : i = .wait := by
  unfold catalogIndex at h
  split at h
  all_goals first | rfl | cases h

/-- Every gene waits, for a hundred ticks. -/
def Program.Idles (p : Program) : Prop := ∀ g ∈ p.genes, g.instruction = .wait ∧ g.timeCost = 100

/-- A list that names nothing else gives a program that waits. -/
theorem Program.ofIndices_idles (len : Nat) :
    (ofIndices (List.replicate len Instruction.wait.catalogIndex)).Yields fun p =>
      p.length = len ∧ p.Idles := by
  intro s p s' hrun
  obtain ⟨hindices, hfits⟩ := (ofIndices_verdict hrun).built
  refine ⟨?_, fun g hg => ?_⟩
  · have hlength := congrArg List.length hindices
    rwa [Program.indices, List.length_map, List.length_replicate] at hlength
  · have hindex : g.index = 15 := by
      have hmem : g.index ∈ p.indices := List.mem_map_of_mem hg
      rw [hindices] at hmem
      exact List.eq_of_mem_replicate hmem
    -- the catalog knows one kind at this index, and its cost
    have hkind := (hfits g hg).index_eq
    have hcost := (hfits g hg).cost_eq
    rw [hindex] at hkind hcost
    exact ⟨Instruction.eq_wait hkind.symm, (Option.some.inj hcost).symm⟩

/-- Nothing is executed while a delay is left. -/
theorem Turn.executeGenes_of_delay {t : Turn} (h : 0 < t.creature.moveDelay) (position : Vec) (s : Surroundings)
    (budget : Nat) : executeGenes position s budget t = pure t := by
  cases budget with
  | zero => rfl
  | succ budget => exact if_neg h.ne'

namespace Creature

variable {c : Creature}

/-- What a tick does to a creature whose genes all wait, apart from its metabolism. -/
def pass (c : Creature) : Creature :=
  if 0 < c.moveDelay then { c with moveDelay := c.moveDelay - 1 }
  else { c with cursor := (c.program.wrap c.cursor + 1) % c.program.length, moveDelay := 100 }

/-- A gene that waits moves the cursor on and sets the delay, and nothing more. -/
theorem executeGene_of_idles (hidles : c.program.Idles) (hpending : c.pendingJump = none) (position : Vec)
    (s : Surroundings) (source : Source) :
    (Turn.executeGene position s { creature := c }).run source =
      .ok ({ creature := { c with cursor := (c.program.wrap c.cursor + 1) % c.program.length, moveDelay := 100 }
             ops      := 1 }, source) := by
  obtain ⟨hwaits, hcost⟩ := hidles (c.program.gene (c.program.wrap c.cursor)) (List.get_mem _ _)
  unfold Turn.executeGene
  dsimp only
  rw [hwaits, hcost, Creature.execute, pure_bind, hpending]
  rfl

/-- **A turn of a creature whose genes all wait** draws nothing and asks for nothing. -/
theorem takeTurn_of_idles (hidles : c.program.Idles) (hpending : c.pendingJump = none) {s : Surroundings}
    (hbudget : 0 < s.config.evolution.maxOpsPerTick) (position : Vec) (source : Source) :
    ∃ t, (c.takeTurn position s).run source = .ok (t, source) ∧ t.creature = c.pass ∧ t.pushes = [] ∧
      t.requests = [] := by
  unfold pass
  by_cases hdelay : 0 < c.moveDelay
  · rw [takeTurn_of_delay hdelay, if_pos hdelay]
    exact ⟨_, rfl, rfl, rfl, rfl⟩
  · have hready : c.moveDelay = 0 := by omega
    obtain ⟨budget, hbudget⟩ := Nat.exists_eq_add_one_of_ne_zero hbudget.ne'
    rw [takeTurn_of_ready hready, if_neg hdelay, hbudget, Turn.executeGenes, if_pos hready,
      Draw.bind_run (executeGene_of_idles hidles hpending position s source)]
    -- the one gene has left its cost behind as delay
    rw [Turn.executeGenes_of_delay (Nat.succ_pos 99)]
    exact ⟨_, rfl, rfl, rfl, rfl⟩

end Creature

/-! ## What is left of a creature -/

/-- The hunger that metabolism leaves of a full one after a number of ticks. -/
def Config.hungerLeft (config : Config) (mass : Float) : Nat → Float
  | 0     => 1.0
  | n + 1 => clampTo 0.0 1.0 (config.hungerLeft mass n + -config.starvationRate (n + 1) * mass)

namespace Creature

variable {c : Creature} {config : Config}

/-- A newborn creature after it has waited for a number of ticks. -/
def waited (config : Config) (c : Creature) : Nat → Creature
  | 0     => c
  | n + 1 => { c with
      hunger    := config.hungerLeft c.mass (n + 1)
      cursor    := (n / 101 + 1) % c.program.length
      moveDelay := 100 - n % 101 }

/-- To pass a tick changes the cursor and the delay only. -/
theorem pass_eq (c : Creature) : ∃ cursor moveDelay, c.pass = { c with cursor, moveDelay } := by
  unfold pass
  split
  · exact ⟨_, _, rfl⟩
  · exact ⟨_, _, rfl⟩

/-- When the delay is over, the next gene sets it anew. -/
theorem pass_of_ready (hready : c.moveDelay = 0) (hcursor : c.cursor < c.program.length) :
    c.pass = { c with cursor := (c.cursor + 1) % c.program.length, moveDelay := 100 } := by
  have hwrap : (c.program.wrap c.cursor : Nat) = c.cursor := by
    unfold Program.wrap
    rw [dif_pos hcursor]
  unfold pass
  rw [if_neg (by omega), hwrap]

/-- Each gene takes a hundred and one ticks: one in which it is executed, and those of its delay. -/
theorem pass_waited (hfull : c.hunger = 1.0) (hcursor : c.cursor = 0) (hready : c.moveDelay = 0) (n : Nat) :
    (c.waited config n).pass = { c with
      hunger    := config.hungerLeft c.mass n
      cursor    := (n / 101 + 1) % c.program.length
      moveDelay := 100 - n % 101 } := by
  have hlength := c.program.length_pos
  cases n with
  | zero =>
    refine (pass_of_ready hready (by omega)).trans ?_
    rw [hcursor, hfull]
    rfl
  | succ n =>
    by_cases hbusy : n % 101 < 100
    · -- the gene goes on
      have hgene : (n + 1) / 101 = n / 101 := by omega
      have hrest : 100 - (n + 1) % 101 = 100 - n % 101 - 1 := by omega
      have hdelay : 0 < (c.waited config (n + 1)).moveDelay := Nat.sub_pos_of_lt hbusy
      unfold pass
      rw [if_pos hdelay, hgene, hrest]
      rfl
    · -- the next gene begins
      have hgene : (n + 1) / 101 = n / 101 + 1 := by omega
      have hrest : (n + 1) % 101 = 0 := by omega
      have hdelay : (c.waited config (n + 1)).moveDelay = 0 := Nat.sub_eq_zero_of_le (by omega)
      refine (pass_of_ready hdelay (Nat.mod_lt _ hlength)).trans ?_
      have hnext : ((n / 101 + 1) % c.program.length + 1) % c.program.length =
          (n / 101 + 1 + 1) % c.program.length := Nat.mod_add_mod _ _ _
      rw [hgene, hrest, ← hnext]
      rfl

/-- **One more tick** leads from each of these states to the next. -/
theorem starve_pass_waited (hfull : c.hunger = 1.0) (hcursor : c.cursor = 0) (hready : c.moveDelay = 0)
    (n : Nat) :
    (c.waited config n).pass.starve (config.starvationRate (n + 1)) = c.waited config (n + 1) := by
  rw [pass_waited hfull hcursor hready]
  rfl

end Creature

/-! ## A world with nobody else -/

variable {E : Type}

/-- A world at a tick with one creature and no food, and nothing pending. -/
structure World.Alone (config : Config) (tick : Nat) (rank : Rank) (c : Creature) (w : World E) : Prop where
  config_eq        : w.config = config
  tick_eq          : w.tick = tick
  pendingEvents_eq : w.pendingEvents = []
  creatures_eq     : w.creatures = ⟨[(rank, c)]⟩
  pellets_eq       : w.pellets = .empty

variable [Physics E] {config : Config} {tick : Nat} {rank : Rank} {c : Creature} {w : World E}

namespace World.Alone

omit [Physics E] in
/-- The creature is found under its rank. -/
theorem get?_creature (h : w.Alone config tick rank c) : w.creatures.get? rank = some c := by
  rw [h.creatures_eq, Table.get?_cons, if_pos rfl]

omit [Physics E] in
/-- To modify the creature leaves it alone in the world. -/
theorem modify (h : w.Alone config tick rank c) (f : Creature → Creature) :
    (w.modifyCreature rank f).Alone config tick rank (f c) where
  config_eq        := h.config_eq
  tick_eq          := h.tick_eq
  pendingEvents_eq := h.pendingEvents_eq
  creatures_eq     := by
    show w.creatures.modify rank f = _
    rw [h.creatures_eq]
    simp [Table.modify]
  pellets_eq       := h.pellets_eq

/-- To take the creature out leaves nobody. -/
theorem removeCreature (h : w.Alone config tick rank c) :
    ∃ w', w.removeCreature rank = some (c, w') ∧ w'.creatures = .empty ∧ w'.config = config ∧
      w'.tick = tick := by
  unfold World.removeCreature
  rw [h.get?_creature]
  refine ⟨_, rfl, ?_, h.config_eq, h.tick_eq⟩
  show w.creatures.erase rank = .empty
  rw [h.creatures_eq]
  simp [Table.erase, Table.empty]

end World.Alone

namespace Stage

variable {s : Stage E}

/-- There is nothing to eat and no laser to count down. -/
theorem prepared_alone [LawfulPhysics E] (h : s.world.Alone config tick rank c) (hpellets : s.pelletViews = [])
    (hlaser : c.laser = none) : (s.feed rank).tickLaser rank = s := by
  -- there is no pellet that it could overlap with
  have hfeed : s.feed rank = s := by
    have hnone (body : Handle) : Physics.overlapping s.world.enclosure body [] = [] :=
      LawfulPhysics.overlapping_eq _ _ _
    rw [feed_eq, h.get?_creature, hpellets, List.map_nil]
    dsimp only
    rw [hnone]
    rfl
  rw [hfeed]
  unfold tickLaser
  rw [h.get?_creature]
  dsimp only
  rw [hlaser]

/-- Its genes wait. -/
theorem runGenes_alone (hbudget : 0 < config.evolution.maxOpsPerTick) (h : s.world.Alone config tick rank c)
    (hidles : c.program.Idles) (hpending : c.pendingJump = none) :
    ∃ world, s.runGenes rank = .ok ([], { s with world }) ∧ world.Alone config tick rank c.pass := by
  have hops : 0 < (s.surroundings c).1.config.evolution.maxOpsPerTick := by
    rw [(s.surroundings_seen c).2.2, h.config_eq]
    exact hbudget
  obtain ⟨t, hrun, hcreature, hpushes, hrequests⟩ := c.takeTurn_of_idles hidles hpending hops
    (s.world.placeOf c.body) s.world.source
  obtain ⟨similarity, hgenes⟩ := runGenes_eq h.get?_creature
  rw [hgenes, hrun]
  refine ⟨_, congrArg Except.ok (Prod.ext hrequests rfl), ?_⟩
  -- to look around has changed the memo at most
  have hsame : World.Alone config tick rank c { s.world with similarity } :=
    ⟨h.config_eq, h.tick_eq, h.pendingEvents_eq, h.creatures_eq, h.pellets_eq⟩
  rw [hcreature, hpushes]
  exact hsame.modify fun _ => c.pass

/-- **The turn of a creature that is alone and waits**: a tick goes by, it is charged, and if that starves it,
it is taken out. -/
theorem turn_alone [LawfulPhysics E] (hbudget : 0 < config.evolution.maxOpsPerTick)
    (h : s.world.Alone config tick rank c)
    (hpellets : s.pelletViews = []) (hidles : c.program.Idles) (hpending : c.pendingJump = none)
    (hlaser : c.laser = none) :
    ∃ s', s.turn rank = .ok s' ∧ s'.world.config = config ∧ s'.world.tick = tick ∧
      ((c.pass.starve (config.starvationRate tick)).isStarved = false →
        s'.events = s.events ∧
          s'.world.Alone config tick rank (c.pass.starve (config.starvationRate tick))) ∧
      ((c.pass.starve (config.starvationRate tick)).isStarved = true →
        s'.events = s.events ++ [.death c.id (c.age tick) tick] ∧ s'.world.creatures = .empty) := by
  obtain ⟨world, hgenes, hpassed⟩ := runGenes_alone hbudget h hidles hpending
  have hthere : s.world.creatures.contains rank = true := by
    rw [Table.contains_eq_isSome, h.get?_creature]
    rfl
  have hturn : s.turn rank = .ok ({ s with world }.metabolize rank) := by
    unfold turn
    rw [if_pos hthere, prepared_alone h hpellets hlaser, hgenes]
    rfl
  have hcharged := hpassed.modify (·.starve (config.starvationRate tick))
  refine ⟨_, hturn, ?_⟩
  rw [metabolize_eq]
  dsimp only
  rw [hpassed.config_eq, hpassed.tick_eq]
  unfold reap
  dsimp only
  rw [hcharged.get?_creature, Option.any_some]
  by_cases hstarved : (c.pass.starve (config.starvationRate tick)).isStarved = true
  · -- it has starved, and nobody is left
    rw [if_pos hstarved]
    obtain ⟨emptied, hremoved, hnobody, hconfig, htick⟩ := hcharged.removeCreature
    unfold kill
    dsimp only
    rw [hremoved]
    refine ⟨hconfig, htick, fun hfed => absurd (hfed.symm.trans hstarved) Bool.false_ne_true, fun _ =>
      ⟨?_, hnobody⟩⟩
    obtain ⟨cursor, moveDelay, hpass⟩ := c.pass_eq
    show s.events ++ [.death (c.pass.starve _).id ((c.pass.starve _).age emptied.tick) emptied.tick] = _
    rw [hpass, htick]
    rfl
  · rw [if_neg hstarved]
    exact ⟨hcharged.config_eq, hcharged.tick_eq, fun _ => ⟨rfl, hcharged⟩, fun h => absurd h hstarved⟩

end Stage

/-! ## A world in which nothing appears -/

/-- No accepted program is kept from running. -/
theorem Config.Valid.ops_pos (h : config.Valid) : 0 < config.evolution.maxOpsPerTick := by
  have hmem : (Violation.maxOps, decide (0 < config.evolution.maxOpsPerTick)) ∈ config.conditions := by
    simp [Config.conditions]
  exact of_decide_eq_true (h.met hmem)

/-- An accepted world whose population is not filled up and in which no food appears. -/
structure Config.Barren (config : Config) : Prop where
  valid      : config.Valid
  floor_eq   : config.world.populationFloor = 0
  steadyFood : (config.food.maxFood == 0.0) = true
  earlyFood  : (config.food.maxFoodEarly == 0.0) = true

namespace World

/-- Where there is no floor, nobody is missing. -/
theorem refill_of_floor (hfloor : w.config.world.populationFloor = 0) : w.refill = .ok ([], w) := by
  unfold refill missing
  rw [hfloor, Nat.zero_sub, ite_self]
  rfl

/-- Where no food is allowed, none appears. -/
theorem spawnFood_barren (hbarren : config.Barren) (hconfig : w.config = config) (hpellets : w.pellets = .empty) :
    w.spawnFood = .ok w := by
  -- both bounds on the food are zero, so not even an empty world is short of it
  have hnone : w.config.spawnsFood w.tick w.foodCount = .ok false := by
    have hcount : w.foodCount = 0 := by
      unfold foodCount
      rw [hpellets]
      rfl
    unfold Config.spawnsFood
    rw [hconfig, hcount, if_neg (hbarren.valid.interval_pos w.tick).ne',
      decide_eq_false (Config.maxFood_of_zero hbarren.steadyFood hbarren.earlyFood w.tick), Bool.and_false]
  unfold spawnFood
  rw [hnone]
  rfl

/-- Nobody is there when the world is set up. -/
theorem create_barren (hbarren : config.Barren) (enclosure : E) (entropy : BitVec 256) :
    create config enclosure entropy = .ok (bare config enclosure entropy) := by
  have hnobody : (bare config enclosure entropy).refill = .ok ([], bare config enclosure entropy) :=
    refill_of_floor hbarren.floor_eq
  unfold create
  rw [hbarren.valid.validate_eq]
  dsimp only
  rw [hnobody]
  rfl

/-- Where nobody is missing, the end of a tick tells of an extinction at most. -/
theorem closing_of_floor {ranks : List Rank} {s : Stage E} (hranks : ranks ≠ [])
    (hfloor : s.world.config.world.populationFloor = 0) :
    closing ranks s = if s.world.population = 0 then .ok (s.events ++ [.extinction s.world.tick], s.world)
      else .ok (s.events, s.world) := by
  unfold closing
  rw [refill_of_floor hfloor]
  show (if ranks ≠ [] ∧ s.world.population = 0 then _ else _) = _
  simp only [ne_eq, hranks, not_false_eq_true, true_and, List.append_nil]
  rfl

/-- The turns of a tick begin with the creature alone. -/
theorem Alone.opening (hbarren : config.Barren) (h : w.Alone config tick rank c)
    (hclock : tick + 1 < twoTo 64) :
    ∃ w', w.opening = .ok (Stage.start w' []) ∧ w'.Alone config (tick + 1) rank c := by
  have hopened : World.Alone config (tick + 1) rank c w.counted :=
    ⟨h.config_eq, congrArg (· + 1) h.tick_eq, rfl, h.creatures_eq, h.pellets_eq⟩
  refine ⟨_, ?_, hopened⟩
  rw [opening_of_lt (h.tick_eq.symm ▸ hclock), spawnFood_barren hbarren hopened.config_eq hopened.pellets_eq,
    h.pendingEvents_eq]
  rfl

/-- **A tick of a world with one creature, which waits.** -/
theorem Alone.update [LawfulPhysics E] (hbarren : config.Barren) (h : w.Alone config tick rank c)
    (hclock : tick + 1 < twoTo 64) (hidles : c.program.Idles) (hpending : c.pendingJump = none)
    (hlaser : c.laser = none) :
    ∃ events w', w.update = .ok (events, w') ∧
      ((c.pass.starve (config.starvationRate (tick + 1))).isStarved = false →
        events = [] ∧
          w'.Alone config (tick + 1) rank (c.pass.starve (config.starvationRate (tick + 1)))) ∧
      ((c.pass.starve (config.starvationRate (tick + 1))).isStarved = true →
        events = [.death c.id (c.age (tick + 1)) (tick + 1), .extinction (tick + 1)] ∧ w'.population = 0) := by
  obtain ⟨opened, hopening, halone⟩ := h.opening hbarren hclock
  have hpellets : (Stage.start opened []).pelletViews = [] := by
    show opened.pellets.entries.map _ = []
    rw [halone.pellets_eq]
    rfl
  obtain ⟨s, hturn, hconfig, htick, hfed, hstarved⟩ :=
    Stage.turn_alone hbarren.valid.ops_pos (s := Stage.start opened []) halone hpellets hidles hpending hlaser
  have hupdate : w.update = closing [rank] s := by
    rw [update_eq, hopening]
    show ((Stage.start opened []).turns _ >>= closing _) = _
    rw [Stage.start_ranks, show opened.creatures.keys = [rank] by rw [halone.creatures_eq]; rfl]
    unfold Stage.turns
    rw [List.foldlM_cons, hturn]
    rfl
  -- without a floor nobody is spawned at the end of the tick
  rw [hupdate, closing_of_floor (List.cons_ne_nil _ _) (hconfig ▸ hbarren.floor_eq), htick]
  by_cases hend : (c.pass.starve (config.starvationRate (tick + 1))).isStarved = true
  · obtain ⟨hevents, hnobody⟩ := hstarved hend
    have hempty : s.world.population = 0 := by
      unfold population
      rw [hnobody]
      rfl
    rw [if_pos hempty, hevents]
    exact ⟨_, _, rfl, fun hfed => absurd (hfed.symm.trans hend) Bool.false_ne_true, fun _ => ⟨rfl, hempty⟩⟩
  · obtain ⟨hevents, hafter⟩ := hfed (Bool.eq_false_iff.mpr hend)
    have hthere : s.world.population ≠ 0 := by
      unfold population
      rw [hafter.creatures_eq]
      exact Nat.one_ne_zero
    rw [if_neg hthere, hevents]
    exact ⟨_, _, rfl, fun _ => ⟨rfl, hafter⟩, fun h => absurd h hend⟩

/-- A creature can always be put in. -/
theorem insertCreature_returns (w : World E) (seed : Seed) : ∃ id w', w.insertCreature seed = .ok (id, w') := by
  obtain ⟨c, hrun, -⟩ := seed.embody_run w.tick w.enclosure w.source
  unfold insertCreature draw
  rw [hrun]
  exact ⟨_, _, rfl⟩

/-- Who is put into a world without anybody is alone. -/
theorem insertCreature_alone (config : Config) (enclosure : E) (entropy : BitVec 256) (seed : Seed) :
    ∃ c w', (bare config enclosure entropy).insertCreature seed = .ok (c.id, w') ∧
      c.Newborn seed 0 enclosure ∧ w'.Alone config 0 ⟨1⟩ c := by
  obtain ⟨id, w', hinsert⟩ := (bare config enclosure entropy).insertCreature_returns seed
  obtain ⟨c, source, rfl, hnewborn, rfl⟩ := insertCreature_inv hinsert
  exact ⟨c, _, hinsert, hnewborn, rfl, rfl, rfl, rfl, rfl⟩

end World

/-! ## From the first tick to the last -/

namespace Creature

/-- After any number of ticks only hunger, cursor and delay have changed. -/
theorem waited_eq (config : Config) (hfull : c.hunger = 1.0) (n : Nat) : ∃ cursor moveDelay, c.waited config n =
    { c with hunger := config.hungerLeft c.mass n, cursor, moveDelay } := by
  cases n with
  | zero =>
    refine ⟨c.cursor, c.moveDelay, ?_⟩
    rw [show config.hungerLeft c.mass 0 = c.hunger from hfull.symm]
    rfl
  | succ n => exact ⟨_, _, rfl⟩

end Creature

namespace History

/-- A creature is put in, and `n` ticks go by. -/
def vigil (seed : Seed) (n : Nat) : List Call := .insertCreature seed :: List.replicate n (.tick .update)

/-- One more tick comes last. -/
theorem vigil_succ (seed : Seed) (n : Nat) : vigil seed (n + 1) = vigil seed n ++ [.tick .update] := by
  unfold vigil
  rw [List.replicate_succ', List.cons_append]

/-- A tick that returned appends its events to the log. -/
theorem call_update {h : History E} {events : List Event} {w' : World E}
    (hupdate : h.world.update = .ok (events, w')) :
    h.call (.tick .update) = .ok { h with world := w', log := h.log ++ events } := by
  show (h.world.update >>= _) = _
  rw [hupdate]
  rfl

variable {seed : Seed} {enclosure : E} {entropy : BitVec 256}

/-- A run begins with the call on the world that was set up. -/
theorem run_first {w w' : World E} {id : Ident} (hcreate : World.create config enclosure entropy = .ok w)
    (hinsert : w.insertCreature seed = .ok (id, w')) :
    run config enclosure entropy (vigil seed 0) = .ok { world := w', guests := [id] } := by
  have hnothing : run config enclosure entropy [] = .ok { world := w } := by
    unfold run
    rw [hcreate]
    rfl
  refine run_call hnothing ?_
  unfold call
  dsimp only
  rw [hinsert]
  rfl

/-- At first the creature is alone, in the state that it was born in. -/
theorem vigil_zero (hbarren : config.Barren) (seed : Seed) (enclosure : E) (entropy : BitVec 256) :
    ∃ c h, run config enclosure entropy (vigil seed 0) = .ok h ∧ h.log = [] ∧ c.Newborn seed 0 enclosure ∧
      h.world.Alone config 0 ⟨1⟩ c := by
  obtain ⟨c, w, hinsert, hnewborn, halone⟩ := World.insertCreature_alone config enclosure entropy seed
  exact ⟨c, _, run_first (World.create_barren hbarren enclosure entropy) hinsert, rfl, hnewborn, halone⟩

/-- A creature that was alone at the last tick is alone at the next one, or has died in it. -/
theorem vigil_step [LawfulPhysics E] (hbarren : config.Barren) {c : Creature}
    (hnewborn : c.Newborn seed 0 enclosure) (hidles : seed.program.Idles) {n : Nat}
    (hclock : n + 1 < twoTo 64) {h : History E}
    (hrun : run config enclosure entropy (vigil seed n) = .ok h) (hlog : h.log = [])
    (halone : h.world.Alone config n rank (c.waited config n)) :
    ∃ h', run config enclosure entropy (vigil seed (n + 1)) = .ok h' ∧
      (¬ config.hungerLeft seed.mass (n + 1) ≤ 0.0 →
        h'.log = [] ∧ h'.world.Alone config (n + 1) rank (c.waited config (n + 1))) ∧
      (config.hungerLeft seed.mass (n + 1) ≤ 0.0 →
        h'.log = [.death c.id (n + 1) (n + 1), .extinction (n + 1)] ∧ h'.world.population = 0) := by
  obtain ⟨cursor, moveDelay, hwaited⟩ := c.waited_eq config hnewborn.hunger_eq n
  have hstarved : (c.waited config (n + 1)).isStarved = decide (config.hungerLeft seed.mass (n + 1) ≤ 0.0) := by
    rw [← hnewborn.mass_eq]
    rfl
  -- the tick is that of a creature alone, whose program only waits
  obtain ⟨events, w', hupdate, hfed, hdied⟩ := halone.update hbarren hclock
    (by rw [hwaited]; exact hnewborn.program_eq ▸ hidles) (by rw [hwaited]; exact hnewborn.pending_none)
    (by rw [hwaited]; exact hnewborn.unarmed)
  rw [Creature.starve_pass_waited hnewborn.hunger_eq hnewborn.cursor_eq hnewborn.idle, hstarved] at hfed hdied
  refine ⟨_, vigil_succ seed n ▸ run_call hrun (call_update hupdate), ?_, ?_⟩
  · intro hleft
    obtain ⟨hevents, hafter⟩ := hfed (decide_eq_false hleft)
    exact ⟨by rw [hlog, hevents]; rfl, hafter⟩
  · intro hnothing
    obtain ⟨hevents, hnobody⟩ := hdied (decide_eq_true hnothing)
    refine ⟨?_, hnobody⟩
    show h.log ++ events = _
    -- it was born at tick zero, so its age is the clock
    have hage : (c.waited config n).age (n + 1) = n + 1 := by
      rw [hwaited]
      show n + 1 - c.birthTick = n + 1
      rw [hnewborn.birthTick_eq, Nat.sub_zero]
    have hid : (c.waited config n).id = c.id := by rw [hwaited]
    rw [hlog, hevents, hage, hid, List.nil_append]

/-- As long as something is left of its hunger, it is there. -/
theorem vigil_alone [LawfulPhysics E] (hbarren : config.Barren) {c : Creature}
    (hnewborn : c.Newborn seed 0 enclosure) (hidles : seed.program.Idles) {h₀ : History E}
    (hstart : run config enclosure entropy (vigil seed 0) = .ok h₀)
    (hlog : h₀.log = []) (halone : h₀.world.Alone config 0 rank c) {n : Nat} (hclock : n < twoTo 64)
    (hleft : ∀ k, 0 < k → k ≤ n → ¬ config.hungerLeft seed.mass k ≤ 0.0) :
    ∃ h, run config enclosure entropy (vigil seed n) = .ok h ∧ h.log = [] ∧
      h.world.Alone config n rank (c.waited config n) := by
  induction n with
  | zero => exact ⟨h₀, hstart, hlog, halone⟩
  | succ n ih =>
    obtain ⟨h, hrun, hlog, halone⟩ := ih (by omega) fun k hpos hle => hleft k hpos (by omega)
    obtain ⟨h', hrun', hfed, -⟩ := vigil_step hbarren hnewborn hidles hclock hrun hlog halone
    exact ⟨h', hrun', hfed (hleft (n + 1) n.succ_pos le_rfl)⟩

end History

/-- **A creature that waits starves on schedule.** It has a program of `length` genes from the catalog, all of
which wait, and is put into a world in which nobody else is and nothing appears. As long as its hunger lasts, no
tick tells anything, its mass and direction are those it came with, and its cursor stands where every hundred and
one ticks have taken it a gene further. The tick in which nothing is left of its hunger tells of its death and of
an extinction, and leaves nobody. (The clock of a world is a word of 64 bits, so there is no later tick.) -/
theorem waiting_creature_starves_on_schedule [LawfulPhysics E] {config : Config} (hvalid : config.Valid)
    (hfloor : config.world.populationFloor = 0) (hsteady : (config.food.maxFood == 0.0) = true)
    (hearly : (config.food.maxFoodEarly == 0.0) = true) {seed : Seed} {length : Nat} {source rest : Source}
    (hprogram : (Program.ofIndices (List.replicate length Instruction.wait.catalogIndex)).run.run source =
      .ok (.ok seed.program, rest)) (enclosure : E) (entropy : BitVec 256) :
    ∃ c h₀, History.run config enclosure entropy (History.vigil seed 0) = .ok h₀ ∧
      h₀.world.creatures.values = [c] ∧
      (∀ n, n < twoTo 64 → (∀ k, 0 < k → k ≤ n → ¬ config.hungerLeft seed.mass k ≤ 0.0) →
        ∃ h d, History.run config enclosure entropy (History.vigil seed n) = .ok h ∧ h.log = [] ∧ h.world.tick = n ∧
          h.world.creatures.values = [d] ∧ d.id = c.id ∧ d.hunger = config.hungerLeft seed.mass n ∧
          d.mass = seed.mass ∧ d.direction = c.direction ∧
          (0 < n → d.cursor = ((n - 1) / 101 + 1) % length ∧ d.moveDelay = 100 - (n - 1) % 101)) ∧
      ∀ n, 0 < n → n < twoTo 64 → (∀ k, 0 < k → k < n → ¬ config.hungerLeft seed.mass k ≤ 0.0) →
        config.hungerLeft seed.mass n ≤ 0.0 →
        ∃ h, History.run config enclosure entropy (History.vigil seed n) = .ok h ∧
          h.log = [.death c.id n n, .extinction n] ∧ h.world.population = 0 := by
  have hbarren : config.Barren := ⟨hvalid, hfloor, hsteady, hearly⟩
  obtain ⟨hlength, hidles⟩ := Program.ofIndices_idles length _ _ _ hprogram
  obtain ⟨c, h₀, hstart, hlog, hnewborn, halone⟩ := History.vigil_zero hbarren seed enclosure entropy
  refine ⟨c, h₀, hstart, congrArg Table.values halone.creatures_eq, fun n hclock hleft => ?_,
    fun n hpos hclock hleft hnothing => ?_⟩
  · -- as long as something is left, the creature is the one that the closed form gives
    obtain ⟨h, hrun, hlog, hlonely⟩ :=
      History.vigil_alone hbarren hnewborn hidles hstart hlog halone hclock hleft
    obtain ⟨cursor, moveDelay, hwaited⟩ := c.waited_eq config hnewborn.hunger_eq n
    refine ⟨h, c.waited config n, hrun, hlog, hlonely.tick_eq, congrArg Table.values hlonely.creatures_eq,
      ?_, ?_, ?_, ?_, fun hpos => ?_⟩
    · rw [hwaited]
    · rw [hwaited, hnewborn.mass_eq]
    · rw [hwaited, hnewborn.mass_eq]
    · rw [hwaited]
    · obtain ⟨n, rfl⟩ := Nat.exists_eq_add_one_of_ne_zero hpos.ne'
      rw [← hlength, ← hnewborn.program_eq]
      exact ⟨rfl, rfl⟩
  · -- the last of the ticks is the first that leaves nothing
    obtain ⟨n, rfl⟩ := Nat.exists_eq_add_one_of_ne_zero hpos.ne'
    obtain ⟨h, hrun, hlog, hlonely⟩ := History.vigil_alone hbarren hnewborn hidles hstart hlog halone
      (n := n) (by omega) fun k hpos hle => hleft k hpos (by omega)
    obtain ⟨h', hrun', -, hdied⟩ := History.vigil_step hbarren hnewborn hidles hclock hrun hlog hlonely
    exact ⟨h', hrun', hdied hnothing⟩

/-- A world with nothing to eat, whose metabolism takes two fifths of its hunger from a mass of 100 in a tick. -/
def Config.fasting : Config :=
  { world      := { seed := some 1, populationFloor := 0 }
    food       := { maxFood := 0.0, maxFoodEarly := 0.0 }
    metabolism := { starvationRate := 0.004, starvationRateEarly := 0.004 } }

def Seed.hermit : Seed := { program := .idle, position := ⟨100.0, 100.0⟩, mass := 100.0 }

/-- It waits for three ticks and dies in the third, with nothing left of its hunger. -/
theorem waiting_creature_starves_on_schedule_fasting :
    ∃ id h d h', History.run .fasting (Enclosure.empty 1280.0 720.0) 0 (History.vigil .hermit 2) = .ok h ∧
      h.log = [] ∧ h.world.creatures.values = [d] ∧ d.id = id ∧ d.mass = 100.0 ∧ d.cursor = 1 ∧
      d.moveDelay = 99 ∧
      History.run .fasting (Enclosure.empty 1280.0 720.0) 0 (History.vigil .hermit 3) = .ok h' ∧
      h'.log = [.death id 3 3, .extinction 3] ∧ h'.world.population = 0 := by
  have hvalid : Config.fasting.Valid := by decide +kernel
  -- the words that name the genes of the program
  have hprogram : (Program.ofIndices (List.replicate 15 Instruction.wait.catalogIndex)).run.run
      ⟨(List.range 15).flatMap fun i => [i.toUInt64, 0], default⟩ =
        .ok (.ok Seed.hermit.program, ⟨[], default⟩) := rfl
  have hleft : ∀ k, k < 3 → ¬ Config.fasting.hungerLeft 100.0 k ≤ 0.0 := by decide +kernel
  have hnothing : Config.fasting.hungerLeft 100.0 3 ≤ 0.0 := by decide +kernel
  obtain ⟨c, -, -, -, halive, hdies⟩ := waiting_creature_starves_on_schedule hvalid rfl (by decide) (by decide)
    hprogram (Enclosure.empty 1280.0 720.0) 0
  obtain ⟨h, d, hrun, hlog, -, hthere, hid, -, hmass, -, hgene⟩ :=
    halive 2 (by decide) fun k _ hle => hleft k (Nat.lt_succ_of_le hle)
  obtain ⟨h', hrun', hlog', hnobody⟩ := hdies 3 (by decide) (by decide) (fun k _ => hleft k) hnothing
  obtain ⟨hcursor, hdelay⟩ := hgene (by decide)
  exact ⟨c.id, h, d, h', hrun, hlog, hthere, hid, hmass, hcursor, hdelay, hrun', hlog', hnobody⟩

end Vivarium
