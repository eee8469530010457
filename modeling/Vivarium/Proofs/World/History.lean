import Vivarium.Proofs.World.Tick
import Vivarium.World.Access

/-!
# Histories

A history is a world as far as it was run: a sequence of calls from outside, the events that its ticks
returned, and the identities of the creatures that were put in between the ticks. `History.run` sets a
world up and makes the calls; what holds of every history it returns holds in every reachable state.
-/

namespace Vivarium

/-! ## Events in sequence -/

/-- The identities of the creatures born in a sequence of events, in order. -/
def births (es : List Event) : List Ident :=
  es.filterMap fun
    | .birth id _ _ _ => some id
    | _               => none

@[simp] theorem births_append (es fs : List Event) : births (es ++ fs) = births es ++ births fs :=
  List.filterMap_append ..

/-- The list of the living after an event, from the list before it. -/
def Event.settle (living : List Ident) : Event → List Ident
  | .birth id _ _ _ => living ++ [id]
  | .death id _ _   => living.erase id
  | _               => living

/-- The list of the living after a sequence of events. -/
def replay (living : List Ident) (es : List Event) : List Ident := es.foldl Event.settle living

@[simp] theorem replay_append (living : List Ident) (es fs : List Event) :
    replay living (es ++ fs) = replay (replay living es) fs := List.foldl_append ..

/-- Nobody is among the living who was neither there before nor born since. -/
theorem replay_sublist : ∀ (es : List Event) (living : List Ident),
    (replay living es).Sublist (living ++ births es)
  | [], living => by
    rw [show births [] = [] from rfl, List.append_nil]
    exact List.Sublist.refl _
  | e :: es, living => by
    -- the first event is settled before the others: a birth adds its name at the end, and a death takes one
    -- out
    refine (replay_sublist es (e.settle living)).trans ?_
    cases e with
    | birth id _ _ _ =>
      show ((living ++ [id]) ++ births es).Sublist (living ++ id :: births es)
      rw [List.append_assoc, List.singleton_append]
    | death id _ _ => exact List.erase_sublist.append_right _
    | _ => exact List.Sublist.refl _

/-- An extinction is no birth. -/
theorem births_extinction {c : Prop} [Decidable c] (n : Nat) :
    births (if c then [.extinction n] else []) = [] := by
  split <;> rfl

/-- An extinction changes no list of the living. -/
theorem replay_extinction (living : List Ident) {c : Prop} [Decidable c] (n : Nat) :
    replay living (if c then [.extinction n] else []) = living := by
  split <;> rfl

/-! ## Calls -/

/-- How a tick is called for: by itself, or after a step of the bodies. -/
inductive TickCall where
  | update
  | advance (dt : Float)

/-- What can be asked of a world from outside. -/
inductive Call where
  | tick (t : TickCall)
  | insertCreature (seed : Seed)
  | insertPellet (place : Vec)
  | setMass (id : Ident) (mass : Float)
  | compare (a b : Ident)

variable {E : Type} [Physics E]

/-- A tick of the world. -/
def World.tickBy (w : World E) : TickCall → Outcome (List Event × World E)
  | .update     => w.update
  | .advance dt => w.advance dt

/-! ## What a call did -/

/-- The turns of a tick are those of all that are alive when they begin. -/
theorem Stage.start_ranks (w : World E) (events : List Event) :
    (Stage.start w events).views.map (·.rank) = w.creatures.keys := by
  show (w.creatures.entries.map fun e => w.viewOf e.1 e.2).map (·.rank) = _
  rw [List.map_map]
  rfl

namespace World

/-- The stage at which the turns of a tick begin, after the step of the bodies if there is one. -/
def openingBy (w : World E) : TickCall → Outcome (Stage E)
  | .update     => w.opening
  | .advance dt => do
    let enclosure ← Outcome.ofFault (Physics.step w.enclosure dt)
    { w with enclosure }.opening

theorem tickBy_eq (w : World E) (t : TickCall) :
    w.tickBy t = (do
      let start ← w.openingBy t
      let stage ← start.turns (start.views.map (·.rank))
      closing (start.views.map (·.rank)) stage) := by
  cases t with
  | update => exact w.update_eq
  | advance dt =>
    unfold tickBy advance openingBy
    simp only [bind_assoc, update_eq]

/-- Once the first turns of a tick have been taken, the tick goes on with the others. -/
theorem tickBy_after {w : World E} {t : TickCall} {start s : Stage E} {before after : List Rank}
    (hstart : w.openingBy t = .ok start) (hranks : start.views.map (·.rank) = before ++ after)
    (hturns : start.turns before = .ok s) :
    w.tickBy t = (do
      let stage ← s.turns after
      closing (start.views.map (·.rank)) stage) := by
  have hsplit : start.turns (start.views.map (·.rank)) = s.turns after := by
    rw [hranks]
    exact Stage.turns_append hturns
  rw [tickBy_eq, hstart]
  show (start.turns (start.views.map (·.rank)) >>= fun stage => closing _ stage) = _
  rw [hsplit]

theorem insertCreature_inv {w w' : World E} {seed : Seed} {id : Ident}
    (h : w.insertCreature seed = .ok (id, w')) :
    ∃ c source, c.id = id ∧ c.Newborn seed w.tick w.enclosure ∧
      w' = { w with source, enclosure := seed.bodied w.enclosure }.spawnCreature c := by
  obtain ⟨⟨⟨c, enclosure⟩, w₁⟩, hdraw, hpure⟩ := except_bind_inv h
  obtain ⟨source, hrun, rfl⟩ := draw_inv hdraw
  obtain ⟨hnewborn, rfl⟩ := seed.embody_ensures _ _ _ _ _ hrun
  cases hpure
  exact ⟨c, source, rfl, hnewborn, rfl⟩

theorem insertPellet_inv {w w' : World E} {place : Vec} {id : Ident}
    (h : w.insertPellet place = .ok (id, w')) : ∃ pellet, w.spawnPellet place = .ok (pellet, w') := by
  obtain ⟨⟨pellet, w₁⟩, hspawn, hpure⟩ := except_bind_inv h
  cases hpure
  exact ⟨pellet, hspawn⟩

variable [LawfulPhysics E]

/-- The turns of a tick begin at a stage of the counted world, in which a pellet may have appeared and
bodies may have moved. -/
theorem openingBy_ensures (w : World E) (t : TickCall) :
    Outcome.Ensures (w.openingBy t) fun start => ∃ w', start = Stage.start w' w.pendingEvents ∧
      w.counted.Course [] w' ∧ w'.creatures = w.creatures := by
  cases t with
  | update => exact w.opening_ensures.mono fun _ h => h.2
  | advance dt =>
    refine .bind (.ofFault fun _ hstep => hstep) fun enclosure hstep => ?_
    refine (opening_ensures { w with enclosure }).mono ?_
    rintro start ⟨-, w', rfl, hcourse, hcreatures⟩
    -- the step before the update moves bodies and nothing else
    have hmoved : w.counted.Quiet (counted { w with enclosure }) :=
      .moved (Physics.step_sameBodies hstep)
    exact ⟨w', rfl, (Course.quiet hmoved).trans hcourse, hcreatures⟩

/-- A tick that returned opened, took the turns of all that were alive, and filled the population up. It
told what the turns told, and more. -/
theorem tickBy_inv {w w' : World E} {t : TickCall} {events : List Event}
    (h : w.tickBy t = .ok (events, w')) :
    ∃ opened stage newborn rest, w.openingBy t = .ok (Stage.start opened w.pendingEvents) ∧
      opened.creatures = w.creatures ∧
      (Stage.start opened w.pendingEvents).turns w.creatures.keys = .ok stage ∧
      closing w.creatures.keys stage = .ok (events, w') ∧
      stage.world.refill = .ok (newborn, w') ∧ events = stage.events ++ rest := by
  rw [tickBy_eq] at h
  obtain ⟨start, hstart, h⟩ := except_bind_inv h
  obtain ⟨stage, hturns, hclosing⟩ := except_bind_inv h
  obtain ⟨opened, rfl, -, hcreatures⟩ := (w.openingBy_ensures t).of_ok hstart
  -- all that are alive are in view when the turns begin
  rw [Stage.start_ranks, hcreatures] at hturns hclosing
  obtain ⟨⟨newborn, w₁⟩, hrefill, hpure⟩ := except_bind_inv hclosing
  dsimp only at hpure
  split at hpure
  · cases hpure
    exact ⟨opened, stage, newborn, _, hstart, hcreatures, hturns, hclosing, hrefill,
      List.append_assoc _ _ _⟩
  · cases hpure
    exact ⟨opened, stage, newborn, _, hstart, hcreatures, hturns, hclosing, hrefill, rfl⟩

/-- A tick, with or without a step before it, counts the clock and goes through a course of changes. -/
theorem tickBy_ensures (w : World E) (t : TickCall) :
    Outcome.Ensures (w.tickBy t) fun (events, w') =>
      ∃ es, w.counted.Course es w' ∧ events = w.pendingEvents ++ es ++
        if w.population ≠ 0 ∧ w'.population = 0 then [.extinction w'.tick] else [] := by
  cases t with
  | update => exact w.update_ensures.mono fun _ h => h.2
  | advance dt =>
    refine .bind (.ofFault fun _ hstep => hstep) fun enclosure hstep => ?_
    refine (update_ensures { w with enclosure }).mono fun (events, w') ⟨_, es, hcourse, h⟩ => ?_
    -- the step of the bodies is one more quiet change at the beginning
    have hmoved : w.counted.Quiet (counted { w with enclosure }) :=
      .moved (Physics.step_sameBodies hstep)
    exact ⟨es, (Course.quiet hmoved).trans hcourse, h⟩

/-- A tick leaves nothing pending. -/
theorem pendingEvents_of_course {w w' : World E} {es : List Event} (h : w.counted.Course es w') :
    w'.pendingEvents = [] := h.frame.2.2

theorem setCreatureMass_quiet (w : World E) (id : Ident) (mass : Float) :
    w.Quiet ((w.setCreatureMass? id mass).getD w) := by
  unfold setCreatureMass?
  cases w.liveRank? id with
  | none => exact .refl w
  | some rank => exact .setMass w rank mass

theorem genomeSimilarity_quiet (w : World E) (a b : Ident) : w.Quiet (w.genomeSimilarity a b).2 := by
  unfold genomeSimilarity
  split
  · exact .memory w w.source _
  · exact .refl w

end World

/-! ## Histories -/

/-- A world with its past. -/
structure History (E : Type) where
  world  : World E
  /-- The events that all ticks so far returned. -/
  log    : List Event := []
  /-- The identities of the creatures that were put in from outside. -/
  guests : List Ident := []

namespace History

/-- The identities of all creatures so far: those put in, and those born, reported or pending. -/
def drawn {E : Type} (h : History E) : List Ident := h.guests ++ births (h.log ++ h.world.pendingEvents)

/-- The history after one more call. To set the mass of a creature that is not alive changes nothing. -/
def call (h : History E) : Call → Outcome (History E)
  | .tick t             => do
    let (events, world) ← h.world.tickBy t
    return { h with world, log := h.log ++ events }
  | .insertCreature seed => do
    let (id, world) ← Outcome.ofFault (h.world.insertCreature seed)
    return { h with world, guests := h.guests ++ [id] }
  | .insertPellet place => do
    let (_, world) ← Outcome.ofFault (h.world.insertPellet place)
    return { h with world }
  | .setMass id mass    => return { h with world := (h.world.setCreatureMass? id mass).getD h.world }
  | .compare a b        => return { h with world := (h.world.genomeSimilarity a b).2 }

/-- Sets up a world and makes the given calls. -/
def run (config : Config) (enclosure : E) (entropy : BitVec 256) (calls : List Call) :
    Outcome (History E) := do
  calls.foldlM call { world := ← World.create config enclosure entropy }

/-- A run with one more call is the run, and then the call. -/
theorem run_concat (config : Config) (enclosure : E) (entropy : BitVec 256) (calls : List Call) (c : Call) :
    run config enclosure entropy (calls ++ [c]) =
      run config enclosure entropy calls >>= fun h => h.call c := by
  unfold run
  simp only [List.foldlM_append, List.foldlM_cons, List.foldlM_nil, bind_assoc, bind_pure]

/-- A run goes on with one more call. -/
theorem run_call {config : Config} {enclosure : E} {entropy : BitVec 256} {calls : List Call} {c : Call}
    {h h' : History E} (hrun : run config enclosure entropy calls = .ok h) (hcall : h.call c = .ok h') :
    run config enclosure entropy (calls ++ [c]) = .ok h' := by
  rw [run_concat, hrun]
  exact hcall

/-- A tick that is called for adds its events to the log. -/
theorem call_tick_inv {h h' : History E} {t : TickCall} (hcall : h.call (.tick t) = .ok h') :
    ∃ events w', h.world.tickBy t = .ok (events, w') ∧
      h' = { h with world := w', log := h.log ++ events } := by
  obtain ⟨⟨events, w'⟩, htick, hpure⟩ := except_bind_inv hcall
  cases hpure
  exact ⟨events, w', htick, rfl⟩

/-- A run of ticks is the run of all but the last of them, and then the last. -/
theorem run_ticks_inv {config : Config} {enclosure : E} {entropy : BitVec 256} {ticks : List TickCall}
    {t : TickCall} {h' : History E}
    (hrun : run config enclosure entropy ((ticks ++ [t]).map .tick) = .ok h') :
    ∃ h events w', run config enclosure entropy (ticks.map .tick) = .ok h ∧
      h.world.tickBy t = .ok (events, w') ∧ h' = { h with world := w', log := h.log ++ events } := by
  rw [List.map_append, List.map_singleton, run_concat] at hrun
  obtain ⟨h, hbefore, hcall⟩ := except_bind_inv hrun
  obtain ⟨events, w', htick⟩ := call_tick_inv hcall
  exact ⟨h, events, w', hbefore, htick⟩

/-- **Induction over histories.** What holds of a world that was just set up, and survives each call,
holds of every history. -/
theorem run_induction {config : Config} {enclosure : E} {entropy : BitVec 256} {P : History E → Prop}
    {calls : List Call} {h : History E} (hrun : run config enclosure entropy calls = .ok h)
    (hcreate : ∀ w, World.create config enclosure entropy = .ok w → P { world := w })
    (hcall : ∀ h c h', c ∈ calls → P h → h.call c = .ok h' → P h') : P h := by
  obtain ⟨w, hw, hcalls⟩ := except_bind_inv hrun
  have hstart : P { world := w } := hcreate w hw
  -- the induction is on the calls, over every history they may start from
  clear hrun
  generalize ({ world := w } : History E) = h₀ at hcalls hstart
  induction calls generalizing h₀ with
  | nil =>
    cases hcalls
    exact hstart
  | cons c calls ih =>
    rw [List.foldlM_cons] at hcalls
    obtain ⟨h₁, hfirst, hrest⟩ := except_bind_inv hcalls
    have hnext : P h₁ := hcall h₀ c h₁ List.mem_cons_self hstart hfirst
    exact ih (fun h c h' hc => hcall h c h' (List.mem_cons_of_mem _ hc)) h₁ hrest hnext

variable [LawfulPhysics E]

/-- What a call makes of a history. -/
inductive Called (h : History E) : Call → History E → Prop
  /-- A tick is told. -/
  | tick {t : TickCall} {events : List Event} {w' : World E} (htick : h.world.tickBy t = .ok (events, w')) :
      Called h (.tick t) { h with world := w', log := h.log ++ events }
  /-- A creature is put in. -/
  | guest {seed : Seed} {id : Ident} {w' : World E} (hinsert : h.world.insertCreature seed = .ok (id, w')) :
      Called h (.insertCreature seed) { h with world := w', guests := h.guests ++ [id] }
  /-- Anything else changes the world at most, and tells nothing. -/
  | change {c : Call} {w' : World E} (hchange : h.world.Change [] w') : Called h c { h with world := w' }

theorem called_of_call {h h' : History E} {c : Call} (hcall : h.call c = .ok h') : h.Called c h' := by
  -- a tick appends to the log, an insertion takes a guest or a pellet in, and the others change no more
  -- than they say
  cases c with
  | tick t =>
    obtain ⟨events, w', htick, rfl⟩ := call_tick_inv hcall
    exact .tick htick
  | insertCreature seed =>
    obtain ⟨⟨id, w'⟩, hinsert, hpure⟩ := except_bind_inv hcall
    cases hpure
    exact .guest (Outcome.ofFault_inv hinsert)
  | insertPellet place =>
    obtain ⟨⟨id, w'⟩, hinsert, hpure⟩ := except_bind_inv hcall
    cases hpure
    obtain ⟨pellet, hspawn⟩ := World.insertPellet_inv (Outcome.ofFault_inv hinsert)
    exact .change (.pellet hspawn)
  | setMass id mass =>
    cases hcall
    exact .change (.quiet (h.world.setCreatureMass_quiet id mass))
  | compare a b =>
    cases hcall
    exact .change (.quiet (h.world.genomeSimilarity_quiet a b))

/-- No call touches the configuration, or adds to what waits for the next tick to be told. -/
theorem call_frame {h h' : History E} {c : Call} (hcall : h.call c = .ok h') :
    h'.world.config = h.world.config ∧
      (h'.world.pendingEvents = h.world.pendingEvents ∨ h'.world.pendingEvents = []) := by
  cases called_of_call hcall with
  | tick htick =>
    obtain ⟨es, hcourse, -⟩ := (h.world.tickBy_ensures _).of_ok htick
    exact ⟨hcourse.frame.1, .inr (World.pendingEvents_of_course hcourse)⟩
  | guest hinsert =>
    obtain ⟨c, source, -, -, rfl⟩ := World.insertCreature_inv hinsert
    exact ⟨rfl, .inl rfl⟩
  | change hchange => exact ⟨hchange.frame.1, .inl hchange.frame.2.2⟩

theorem config_run {config : Config} {enclosure : E} {entropy : BitVec 256} {calls : List Call}
    {h : History E} (hrun : run config enclosure entropy calls = .ok h) : h.world.config = config := by
  refine run_induction hrun (P := fun h => h.world.config = config) (fun w hw => ?_)
    fun h c h' _ ih hcall => (call_frame hcall).1.trans ih
  obtain ⟨-, es, w₁, hcourse, rfl⟩ := World.create_inv hw
  exact hcourse.frame.1

/-- What waits for the next tick to be told are births. -/
theorem census_pending {config : Config} {enclosure : E} {entropy : BitVec 256} {calls : List Call}
    {h : History E} (hrun : run config enclosure entropy calls = .ok h) :
    ∀ e ∈ h.world.pendingEvents, e.Census := by
  refine run_induction hrun (P := fun h => ∀ e ∈ h.world.pendingEvents, e.Census) (fun w hw => ?_)
    fun h c h' _ ih hcall => ?_
  · -- what the setting up tells of are births
    obtain ⟨-, births, w₁, hrefill, rfl⟩ := World.create_refill hw
    exact (World.spawnMany_census _ _).of_ok hrefill
  · rcases (call_frame hcall).2 with hsame | hnone
    · rw [hsame]
      exact ih
    · rw [hnone]
      exact fun e he => by cases he

/-- What life keeps and arrivals have, all the living have in every state that ticks lead to. -/
theorem all_run {P : Creature → Prop} (hvital : World.Vital E P) {config : Config} {enclosure : E}
    {entropy : BitVec 256} {ticks : List TickCall} {h : History E}
    (hrun : run config enclosure entropy (ticks.map .tick) = .ok h) : h.world.All P := by
  refine run_induction hrun (P := fun h => h.world.All P) (fun w hw => ?_) fun h c h' hc ih hcall => ?_
  · -- nobody is there to begin with, and whoever is spawned in the setting up has the property on arrival
    obtain ⟨-, es, w₁, hcourse, rfl⟩ := World.create_inv hw
    have hbare : (World.bare config enclosure entropy).All P := fun _ _ hd => by cases hd
    have hafter : w₁.All P := hbare.course hvital hcourse
    exact hafter
  · obtain ⟨t, -, rfl⟩ := List.mem_map.mp hc
    obtain ⟨events, w', htick, rfl⟩ := call_tick_inv hcall
    obtain ⟨es, hcourse, -⟩ := (h.world.tickBy_ensures t).of_ok htick
    have hcounted : h.world.counted.All P := ih
    exact hcounted.course hvital hcourse

end History

end Vivarium
