import Vivarium.Proofs.Creature.Steady
import Vivarium.Proofs.Evolution.Strict
import Vivarium.Proofs.World.Generations
import Vivarium.Proofs.World.Population
import Vivarium.Run.Basic

/-!
# Runs that do not break off

On an accepted configuration, nearly nothing can break a run off. All draws are from ranges that hold
something, no interval is zero, and the pieces of programs are cut where programs have genes. Acceptance
leaves three things open. A side of the world may be infinite, too wide to draw a place from, or so short
that its half is rounded up beyond what is left; and the weights of the operators may not fit into 32 bits
together. `Config.Roomy` excludes these. Besides, clocks and generations are counted in words of fixed width.

Main results: `accepted_runs_are_steady`, `acceptance_leaves_faults_open`.
-/

namespace Vivarium

/-- The sides of the world are spacious, and the weights of the operators fit into 32 bits together. -/
structure Config.Roomy (config : Config) : Prop where
  width   : Spacious config.world.width
  height  : Spacious config.world.height
  weights : config.evolution.operatorWeights.total < twoTo 32

/-- No accepted interval between pellets is zero. -/
theorem Config.Valid.interval_pos {config : Config} (h : config.Valid) (tick : Nat) :
    0 < config.foodInterval tick := by
  -- that the intervals are positive is one of the conditions for a configuration to be accepted
  have hmem : (Violation.spawnIntervals,
      decide (0 < config.food.earlySpawnInterval ∧ 0 < config.food.spawnInterval)) ∈ config.conditions := by
    simp [Config.conditions]
  have hpos := of_decide_eq_true (h.met hmem)
  unfold foodInterval
  split
  · exact hpos.1
  · exact hpos.2

/-- A loop is steady if each of its rounds is, from wherever the rounds before it lead. -/
theorem Outcome.Steady.foldlM_of_mem {α β : Type} {I : α → Prop} {f : α → β → Outcome α} :
    ∀ {xs : List β}, (∀ x ∈ xs, ∀ a, I a → (f a x).Steady) → (∀ x ∈ xs, ∀ a, I a → (f a x).Ensures I) →
      ∀ a, I a → Outcome.Steady (xs.foldlM f a)
  | [], _, _, a, _ => by
    rw [List.foldlM_nil]
    exact .pure
  | x :: xs, hf, hI, a, ha => by
    rw [List.foldlM_cons]
    -- the invariant carries over from one step to the next, and each step is steady where it holds
    refine .bind (hf x List.mem_cons_self a ha) fun b hb => ?_
    exact foldlM_of_mem (fun y hy => hf y (List.mem_cons_of_mem x hy))
      (fun y hy => hI y (List.mem_cons_of_mem x hy)) b ((hI x List.mem_cons_self a ha).of_ok hb)

/-- What is neither refused nor broken off can only have been given up. -/
theorem Outcome.Steady.eq_exhausted {α : Type} {x : Outcome α} {P : α → Prop} (h : x.Steady)
    (hensures : x.Ensures P) {failure : Failure} (hx : x = .error failure) : failure = .fault .exhausted := by
  cases failure with
  | fault cause => rw [h cause hx]
  | refused cause => exact absurd hx (hensures.not_refused cause)

variable {config : Config} {sides : Float × Float} {last g : Nat}

/-! ## Turns -/

namespace World

variable {α : Type}

/-- A draw is as steady on the source of a world as on any other. -/
theorem draw_steady {d : Draw α} (hd : d.Steady) (w : World Enclosure) : Vivarium.Steady (w.draw d) := by
  unfold draw
  exact (hd w.source).bind fun _ _ => .ok

/-- So is a build. -/
theorem build_steady {b : Build α} (hb : b.Steady) (w : World Enclosure) : (w.build b).Steady := by
  unfold build
  refine .bind (.ofFault (draw_steady hb w)) fun (x, w') _ => ?_
  cases x with
  | ok a => exact .pure
  | error cause => exact .refused

end World

namespace Stage

variable {rank : Rank}

/-- Running the genes does not break off, whatever there is to sense. -/
theorem runGenes_steady (s : Stage Enclosure) (rank : Rank) : Steady (s.runGenes rank) := by
  unfold runGenes
  split
  · exact .ok
  · exact .bind (World.draw_steady (Creature.takeTurn_steady _ _ _) _) fun _ _ => .ok

/-- The child of one of the first ranks can be counted. -/
theorem replicate_steady (hroomy : config.Roomy) (hg : g + 1 < twoTo 32) {s : Stage Enclosure}
    (h : s.world.Paced config sides last g) (hrank : rank.number ≤ last) : (s.replicate rank).Steady := by
  rw [replicate_eq]
  split
  · exact .pure
  · rename_i parent hparent
    -- the creature was there before the tick, so its generation has not gone up in it
    have hlineage := h.lineages rank parent hparent
    rw [if_pos hrank] at hlineage
    have hle := hlineage.generation_le
    have hlt := hlineage.mutations_lt
    have hweights : s.world.config.evolution.operatorWeights.total < twoTo 32 := by
      rw [h.config_eq]
      exact hroomy.weights
    refine .ite (fun _ => .pure) fun _ => ?_
    have hchild : (Birth.child parent ((s.world.placeOf parent.body).add childOffset) s.world.tick
        s.world.config s.world.enclosure).Steady :=
      Birth.child_steady _ _ _ _ hweights (by omega) (by omega)
    exact .bind (World.build_steady hchild _) fun _ _ => .pure

/-- Nor does carrying out a request, as long as there is room for one more generation. -/
theorem interact_steady (hroomy : config.Roomy) (hg : g + 1 < twoTo 32) {actor : Rank}
    (hactor : actor.number ≤ last) (s : Stage Enclosure) (r : Interaction) (h : s.world.Paced config sides last g) :
    (interact actor s r).Steady := by
  cases r with
  | attack target targetId => exact .pure
  | replicate => exact replicate_steady hroomy hg h hactor

/-- **A turn does not break off** as long as there is room for one more generation. -/
theorem turn_steady (hroomy : config.Roomy) (hg : g + 1 < twoTo 32) (hrank : rank.number ≤ last)
    (s : Stage Enclosure) (h : s.world.Paced config sides last g) : (s.turn rank).Steady := by
  unfold turn
  refine .ite (fun _ => ?_) fun _ => .pure
  refine .bind (.ofFault (runGenes_steady _ rank)) fun (requests, ran) hgenes => ?_
  have hran := runGenes_paced (tickLaser_paced (feed_paced h rank) rank) (Outcome.ofFault_inv hgenes)
  refine .bind ?_ fun _ _ => .pure
  exact .foldlM_of_mem (fun r _ s => interact_steady hroomy hg hrank s r)
    (fun r _ s => interact_paced hrank s r) ran hran

/-- And so it is with the turns of a tick, since all whose turns they are were alive before it. -/
theorem turns_steady (hroomy : config.Roomy) (hg : g + 1 < twoTo 32) {ranks : List Rank}
    (hranks : ∀ rank ∈ ranks, rank.number ≤ last) {s : Stage Enclosure} (h : s.world.Paced config sides last g) :
    (s.turns ranks).Steady :=
  .foldlM_of_mem (fun rank hrank s => turn_steady hroomy hg (hranks rank hrank) s)
    (fun rank hrank s => turn_paced (hranks rank hrank) s) s h

end Stage

/-! ## Ticks -/

namespace World

variable {w : World Enclosure}

/-- Food is due at an interval that is not zero, and is put in a place that can be drawn. -/
theorem spawnFood_steady (hvalid : config.Valid) (hroomy : config.Roomy) (hconfig : w.config = config) :
    Vivarium.Steady w.spawnFood := by
  unfold spawnFood
  have hdue : Vivarium.Steady (w.config.spawnsFood w.tick w.foodCount) := by
    have hinterval := hvalid.interval_pos w.tick
    -- a food interval of zero would be a remainder by zero
    unfold Config.spawnsFood
    rw [hconfig]
    exact .ite (fun hzero => absurd hzero (Nat.ne_of_gt hinterval)) fun _ => .ok
  refine .bind hdue fun due _ => .ite (fun _ => ?_) fun _ => .ok
  have hplace : (randomPlace w.config.world Pellet.radius).Steady := by
    rw [hconfig]
    exact randomPlace_steady hroomy.width hroomy.height (by decide +kernel) (by decide +kernel)
  refine .bind (draw_steady hplace w) fun (place, w₁) _ => ?_
  refine .bind ?_ fun _ _ => .ok
  unfold spawnPellet
  exact .bind (draw_steady Draw.ident_steady _) fun _ _ => .ok

/-- A fresh creature is put in a place that can be drawn. -/
theorem spawnFresh_steady (hroomy : config.Roomy) (hconfig : w.config = config) : w.spawnFresh.Steady := by
  unfold spawnFresh
  have hplace : (randomPlace w.config.world 0.0).Steady := by
    rw [hconfig]
    exact randomPlace_steady hroomy.width hroomy.height (by decide +kernel) (by decide +kernel)
  refine .bind (.ofFault (draw_steady hplace w)) fun (place, w₁) _ => ?_
  exact .bind (build_steady (Birth.root_steady _ _ _ _) _) fun _ _ => .pure

/-- So are any number of them. -/
theorem spawnMany_steady (hroomy : config.Roomy) (n : Nat) (hconfig : w.config = config) :
    (w.spawnMany n).Steady := by
  induction n generalizing w with
  | zero => exact .pure
  | succ n ih =>
    unfold spawnMany
    refine .bind (spawnFresh_steady hroomy hconfig) fun fresh hfresh => ?_
    have hkept : fresh.2.config = config := (w.spawnFresh_ensures.of_ok hfresh).frame.1.trans hconfig
    exact .bind (ih hkept) fun _ _ => .pure

/-- The turns of a tick can begin, if the clock leaves room for it. -/
theorem openingBy_steady (hvalid : config.Valid) (hroomy : config.Roomy) (hconfig : w.config = config)
    (hsides : w.sides = (config.world.width, config.world.height)) (hclock : w.tick + 1 < twoTo 64)
    (t : TickCall) : (w.openingBy t).Steady := by
  have hopening {w : World Enclosure} (hconfig : w.config = config) (hclock : w.tick + 1 < twoTo 64) :
      w.opening.Steady := by
    -- the clock does not run over
    rw [opening_of_lt hclock]
    exact .bind (.ofFault (spawnFood_steady hvalid hroomy hconfig)) fun _ _ => .pure
  cases t with
  | update => exact hopening hconfig hclock
  | advance dt =>
    have hwalls : w.enclosure.Roomy := by
      change w.enclosure.sides = _ at hsides
      unfold Enclosure.Roomy
      rw [hsides]
      exact ⟨hroomy.width, hroomy.height⟩
    exact .bind (.ofFault (Enclosure.step_steady hwalls dt)) fun enclosure _ => hopening hconfig hclock

/-- **A tick does not break off**, if the clock and the generations of all the living leave room for one
more. -/
theorem tickBy_steady (hvalid : config.Valid) (hroomy : config.Roomy) (hranked : w.Ranked)
    (hconfig : w.config = config) (hsides : w.sides = (config.world.width, config.world.height))
    (hall : w.All (·.lineage.Upto g)) (hg : g + 1 < twoTo 32) (hclock : w.tick + 1 < twoTo 64)
    (t : TickCall) : (w.tickBy t).Steady := by
  rw [tickBy_eq]
  -- the opening, the turns and the closing, each in a world that is paced
  refine .bind (openingBy_steady hvalid hroomy hconfig hsides hclock t) fun start hstart => ?_
  have hpaced := (openingBy_paced (.of_all hall) t).of_ok hstart
  rw [hconfig, hsides] at hpaced
  obtain ⟨opened, rfl, -, hcreatures⟩ := (w.openingBy_ensures t).of_ok hstart
  have hranks : ∀ rank ∈ (Stage.start opened w.pendingEvents).views.map (·.rank), rank.number ≤ w.lastRank := by
    rw [Stage.start_ranks, hcreatures]
    exact fun rank hrank => hranked.le rank (List.mem_append_left _ hrank)
  refine .bind (Stage.turns_steady hroomy hg hranks hpaced) fun stage hturns => ?_
  have hstage := (Stage.turns_paced hranks hpaced).of_ok hturns
  unfold closing
  refine .bind (spawnMany_steady hroomy _ hstage.config_eq) fun _ _ => ?_
  exact .ite (fun _ => .pure) fun _ => .pure

/-- On an accepted configuration a world can be set up. -/
theorem create_steady (hvalid : config.Valid) (hroomy : config.Roomy) (enclosure : Enclosure)
    (entropy : BitVec 256) {failure : Failure} (h : create config enclosure entropy = .error failure) :
    failure = .fault .exhausted := by
  unfold create at h
  rw [hvalid.validate_eq] at h
  have hrefill : (bare config enclosure entropy).refill.Steady := spawnMany_steady hroomy _ rfl
  rcases except_error_inv h with hfilled | ⟨filled, -, hpure⟩
  · exact hrefill.eq_exhausted (refill_ensures _) hfilled
  · cases hpure

end World

/-! ## Runs -/

/-- One of the counters of the world stands at its maximum: the clock, or the generations of one of the
living. -/
def World.Full (w : World Enclosure) : Prop :=
  twoTo 64 ≤ w.tick + 1 ∨ ∃ rank c, w.creatures.get? rank = some c ∧ twoTo 32 ≤ c.lineage.generation + 1

/-- **A run breaks off only** where a draw is given up, or in a state in which a counter stands at its
maximum. -/
theorem History.run_steady (hvalid : config.Valid) (hroomy : config.Roomy) {entropy : BitVec 256}
    {ticks : List TickCall} {failure : Failure}
    (hrun : run config (Enclosure.empty config.world.width config.world.height) entropy (ticks.map .tick) =
      .error failure) :
    failure = .fault .exhausted ∨ ∃ earlier later h, ticks = earlier ++ later ∧
      run config (Enclosure.empty config.world.width config.world.height) entropy (earlier.map .tick) = .ok h ∧
      h.world.Full := by
  -- the induction is on the ticks, and the last of them is the next
  induction ticks using List.reverseRecOn with
  | nil =>
    rcases except_error_inv hrun with hcreate | ⟨w, -, hpure⟩
    · exact .inl (World.create_steady hvalid hroomy _ entropy hcreate)
    · cases hpure
  | append_singleton ticks t ih =>
    rw [List.map_append, List.map_singleton, run_concat] at hrun
    rcases except_error_inv hrun with hbefore | ⟨h, hbefore, hcall⟩
    · rcases ih hbefore with hgiven | ⟨earlier, later, h, rfl, hearlier, hfull⟩
      · exact .inl hgiven
      · exact .inr ⟨earlier, later ++ [t], h, List.append_assoc _ _ _, hearlier, hfull⟩
    · by_cases hfull : h.world.Full
      · exact .inr ⟨ticks, [t], h, rfl, hbefore, hfull⟩
      · rw [World.Full, not_or, Nat.not_le] at hfull
        obtain ⟨hclock, hcounted⟩ := hfull
        obtain ⟨hranked, hall, hsides⟩ := paced_run hbefore
        -- nobody stands at the last generation, and mutations are fewer
        have hbelow : h.world.All (·.lineage.Upto (twoTo 32 - 2)) := by
          intro rank c hc
          have hlt : ¬ twoTo 32 ≤ c.lineage.generation + 1 := fun hle => hcounted ⟨rank, c, hc, hle⟩
          exact ⟨(hall rank c hc).mutations_lt, by omega⟩
        have htick := World.tickBy_steady hvalid hroomy hranked (config_run hbefore) hsides hbelow
          (by decide) hclock t
        rcases except_error_inv hcall with hnext | ⟨next, -, hpure⟩
        · exact .inl (htick.eq_exhausted (h.world.tickBy_ensures t) hnext)
        · cases hpure

/-- **Runs on an accepted configuration do not break off**, unless a draw is given up or a counter stands at
its maximum, whatever they are seeded with and however many ticks are called for. The clock counts the ticks,
and no generation is more than one ahead of it. Nor does any reproduction reach beyond the end of a program:
it is the same with strict operators. Accepted is not enough for that: the sides of the world have to be
spacious, and the weights of the operators have to fit into 32 bits. -/
theorem accepted_runs_are_steady {config : Config} (hvalid : config.Valid) (hroomy : config.Roomy)
    (entropy : BitVec 256) (ticks : List TickCall) :
    (∀ failure, History.run config (Enclosure.empty config.world.width config.world.height) entropy
        (ticks.map .tick) = .error failure →
      failure = .fault .exhausted ∨ ∃ earlier later h, ticks = earlier ++ later ∧
        History.run config (Enclosure.empty config.world.width config.world.height) entropy
          (earlier.map .tick) = .ok h ∧ h.world.Full) ∧
    (∀ h, History.run config (Enclosure.empty config.world.width config.world.height) entropy
        (ticks.map .tick) = .ok h →
      h.world.tick = ticks.length ∧ h.world.All (·.lineage.Upto (h.world.tick + 1))) ∧
    ∀ (parent : Program) (traits : Traits),
      parent.evolveStrictly traits config.evolution = parent.evolve traits config.evolution := by
  exact ⟨fun failure hrun => History.run_steady hvalid hroomy hrun,
    fun h hrun => ⟨History.tick_run hrun, (History.paced_run hrun).2.1⟩,
    fun parent traits => parent.evolveStrictly_eq traits config.evolution⟩

/-- A world of a given width, which is kept at so many creatures. -/
def Config.wide (width : Float) (floor : Nat) : Config :=
  { world := { width, seed := some 1, populationFloor := floor } }

/-- A world of the usual width is roomy, and the first tick of its only creature returns. -/
theorem accepted_runs_are_steady_wide :
    (Config.wide 1280.0 1).Valid ∧ (Config.wide 1280.0 1).Roomy ∧
      ∃ h, History.run (.wide 1280.0 1) (Enclosure.empty 1280.0 720.0) 0
          ([TickCall.advance Run.frameTime].map .tick) = .ok h ∧
        h.world.tick = 1 ∧ h.world.All (·.lineage.Upto 2) := by
  have hvalid : (Config.wide 1280.0 1).Valid := by decide +kernel
  have hroomy : (Config.wide 1280.0 1).Roomy := ⟨by decide +kernel, by decide +kernel, by decide⟩
  have hreturns : (History.run (.wide 1280.0 1) (Enclosure.empty 1280.0 720.0) 0
      ([TickCall.advance Run.frameTime].map .tick)).toOption.any (fun _ => true) = true := by
    decide +kernel
  obtain ⟨h, hrun, -⟩ := except_any_inv hreturns
  obtain ⟨hclock, hall⟩ := (accepted_runs_are_steady hvalid hroomy 0 [.advance Run.frameTime]).2.1 h hrun
  rw [hclock] at hall
  exact ⟨hvalid, hroomy, h, hrun, hclock, hall⟩

/-- Why a computation broke off, if it did. -/
def Outcome.fault? {α : Type} : Outcome α → Option Fault
  | .error (.fault cause) => some cause
  | _                     => none

/-- **Acceptance leaves faults open.** In a world without end, or of nearly the largest width there is, no
place can be drawn for the first creature. In one of three times the smallest width it can be, but the
creature cannot be held back from the walls then, nor can a place be drawn for a pellet. And where the weights
of the operators do not fit into 32 bits together, no operator can be chosen. All of these are accepted. -/
theorem acceptance_leaves_faults_open :
    (∀ width ∈ [Float.ofBits 0x7ff0000000000000, .ofBits 0x7fefffffffffffff, .ofBits 0x7feffffffffffffe],
      (Config.wide width 1).Valid ∧
        (World.create (.wide width 1) (Enclosure.empty width 720.0) 0).fault? = some .unboundedRange) ∧
    (∀ floor ∈ [0, 1], (Config.wide (.ofBits 3) floor).Valid) ∧
    (History.run (.wide (.ofBits 3) 1) (Enclosure.empty (.ofBits 3) 720.0) 0
      [.tick (.advance Run.frameTime)]).fault? = some .crossedBounds ∧
    (History.run (.wide (.ofBits 3) 0) (Enclosure.empty (.ofBits 3) 720.0) 0
      [.tick (.advance Run.frameTime)]).fault? = some .emptyRange ∧
    ({ evolution := { operatorWeights := { memory := 4294967295 } } } : Config).Valid ∧
    ∀ source, (MutationOperator.select 60 { memory := 4294967295 }).run source = .error .overflow := by
  refine ⟨?_, by decide +kernel, by decide +kernel, by decide +kernel, by decide +kernel, fun source => ?_⟩
  · simp only [List.forall_mem_cons, List.not_mem_nil, false_implies, implies_true, and_true]
    decide +kernel
  · unfold MutationOperator.select
    dsimp only
    rw [if_pos (by decide)]
    rfl

end Vivarium
