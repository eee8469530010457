import Vivarium.Proofs.World.Steady

/-!
# What a run makes of its options

A run is let go on until its last tick, and emits a frame at every so many ticks. The last tick is looked for
behind a tick and the frame is taken behind that, so a run of `n` ticks makes all of them, and one of no ticks
makes one. Whatever it makes is what so many calls for a tick make of the world that was set up.

Main results: `runs_keep_to_their_options`, `run_of_no_ticks_makes_one`.
-/

namespace Vivarium

/-- At which of `n` ticks from `first` on a frame is asked for. -/
def RunOptions.frameTicks (options : RunOptions) (first n : Nat) : List Nat :=
  (List.range' first n).filter fun tick => options.snapshotEvery.any fun every => 0 < every && tick % every = 0

/-- The multiples of a number among those from one on. -/
theorem filter_multiples (k n : Nat) :
    (List.range' 1 n).filter (fun tick => tick % k = 0) = (List.range (n / k)).map fun i => k * (i + 1) := by
  induction n with
  | zero =>
    rw [Nat.zero_div]
    rfl
  | succ n ih =>
    rw [List.range'_1_concat, List.filter_append, ih, Nat.add_comm 1 n, List.filter_singleton]
    by_cases hdvd : k ∣ n + 1
    · -- the last one is a multiple, and the next after those before it
      have hquotient : (n + 1) / k = n / k + 1 := by rw [Nat.succ_div, if_pos hdvd]
      have hlast : k * (n / k + 1) = n + 1 := by rw [← hquotient, Nat.mul_div_cancel' hdvd]
      rw [hquotient, List.range_succ, List.map_append, List.map_singleton, hlast,
        decide_eq_true (Nat.mod_eq_zero_of_dvd hdvd), cond_true]
    · have hquotient : (n + 1) / k = n / k := by rw [Nat.succ_div, if_neg hdvd, Nat.add_zero]
      rw [hquotient, decide_eq_false fun h => hdvd (Nat.dvd_of_mod_eq_zero h), cond_false, List.append_nil]

/-- The configuration with the seed that a run is to use. -/
def RunOptions.seeded (options : RunOptions) (config : Config) : Config :=
  { config with world := { config.world with seed := options.seed <|> config.world.seed } }

namespace Run

/-- One more tick of a run, as a call. -/
def tickCall : Call := .tick (.advance frameTime)

variable {r r' : Run} {frame? : Option Frame} {last : Nat}

/-- What a tick of a run leaves: the world is that of an advance, and the run goes on unless this tick was the
last. -/
theorem emit_inv (h : r.emit = .ok (frame?, r')) :
    (∃ events, r.world.advance frameTime = .ok (events, r'.world)) ∧ r'.world.tick = r.world.tick + 1 ∧
      r'.options = r.options ∧ r'.running = (r.running && !reachesEnd r.options r'.world.tick) ∧
      frame? = if r'.frameDue then some r'.world.frame else none := by
  obtain ⟨⟨events, r₁⟩, hstep, hpure⟩ := except_bind_inv h
  cases hpure
  obtain ⟨⟨events', world⟩, hadvance, hpure⟩ := except_bind_inv hstep
  cases hpure
  obtain ⟨es, hcourse, -⟩ := (r.world.tickBy_ensures (.advance frameTime)).of_ok hadvance
  exact ⟨⟨_, hadvance⟩, hcourse.frame.2.1, rfl, rfl, rfl⟩

/-- A run is ended by a tick that fails, and by nothing else. -/
theorem emit_error {failure : Failure} (h : r.emit = .error failure) :
    r.world.advance frameTime = .error failure := by
  rcases except_error_inv h with hstep | ⟨next, -, hpure⟩
  · rcases except_error_inv hstep with hadvance | ⟨next, -, hpure⟩
    · exact hadvance
    · cases hpure
  · cases hpure

theorem goOn_error {failure : Failure} (hrunning : r.running = true) (hemit : r.emit = .error failure)
    (n : Nat) (emitted : Array Frame) : goOn (n + 1) emitted r = (emitted, .error failure) := by
  rw [goOn, if_pos hrunning, hemit]

theorem goOn_ok (hrunning : r.running = true) (hemit : r.emit = .ok (frame?, r')) (n : Nat)
    (emitted : Array Frame) : goOn (n + 1) emitted r = goOn n (emitted ++ frame?.toArray) r' := by
  rw [goOn, if_pos hrunning, hemit]

/-- The calls for `n` ticks of a run, from a history on. -/
def ticksFrom (h : History Enclosure) (n : Nat) : Outcome (History Enclosure) :=
  (List.replicate n tickCall).foldlM History.call h

/-- No ticks leave the history as it is. -/
theorem ticksFrom_zero (h : History Enclosure) : ticksFrom h 0 = .ok h := rfl

/-- The first of the ticks is taken first. -/
theorem ticksFrom_succ {h : History Enclosure} {events : List Event} {world : World Enclosure}
    (hadvance : h.world.advance frameTime = .ok (events, world)) (n : Nat) :
    ticksFrom h (n + 1) = ticksFrom { h with world, log := h.log ++ events } n := by
  unfold ticksFrom
  rw [List.replicate_succ, List.foldlM_cons]
  -- a tick of a run is a call that moves the bodies and then updates
  have hcall : h.call tickCall = .ok { h with world, log := h.log ++ events } := by
    show (h.world.advance frameTime >>= _) = _
    rw [hadvance]
    rfl
  rw [hcall]
  rfl

/-- If it fails, they all do. -/
theorem ticksFrom_error {h : History Enclosure} {failure : Failure}
    (hadvance : h.world.advance frameTime = .error failure) (n : Nat) :
    ticksFrom h (n + 1) = .error failure := by
  unfold ticksFrom
  rw [List.replicate_succ, List.foldlM_cons]
  have hcall : h.call tickCall = .error failure := by
    show (h.world.advance frameTime >>= _) = _
    rw [hadvance]
    rfl
  rw [hcall]
  rfl

/-- What a run, let go on for the `n` ticks that are left, has made of the world of a history. -/
structure Finishes (h : History Enclosure) (r : Run) (n : Nat) (emitted : Array Frame)
    (result : Array Frame × Outcome Run) : Prop where
  /-- It breaks off where the calls for its ticks do. -/
  failure : ∀ failure, result.2 = .error failure → ticksFrom h n = .error failure
  /-- Otherwise it has stopped, with the world that these calls lead to and all frames asked for. -/
  success : ∀ r', result.2 = .ok r' → r'.running = false ∧
    (∃ h', ticksFrom h n = .ok h' ∧ h'.world = r'.world) ∧
    result.1.toList.map (·.tick) = emitted.toList.map (·.tick) ++ r.options.frameTicks (r.world.tick + 1) n
  /-- Every frame shows the world as some of these calls left it. -/
  frames  : ∀ f ∈ result.1, f ∈ emitted ∨ ∃ k h', ticksFrom h k = .ok h' ∧ f = h'.world.frame

/-- Behind the frames so far stands that of the tick, if one is asked for. -/
theorem emit_ticks (hemit : r.emit = .ok (frame?, r')) (emitted : Array Frame) :
    (emitted ++ frame?.toArray).toList.map (·.tick) =
      emitted.toList.map (·.tick) ++ r.options.frameTicks (r.world.tick + 1) 1 := by
  obtain ⟨-, hclock, hoptions, -, hframe⟩ := emit_inv hemit
  -- one tick has its frame just if its number is a multiple
  have hdue : r.options.frameTicks (r.world.tick + 1) 1 = if r'.frameDue then [r'.world.tick] else [] := by
    unfold RunOptions.frameTicks frameDue
    rw [hoptions, hclock, List.range'_one, List.filter_singleton, cond_eq_ite]
  rw [hdue, hframe]
  split
  · simp [World.frame]
  · simp

/-- It shows the world that a call for the tick leads to. -/
theorem emit_shows {h : History Enclosure} (hworld : h.world = r.world) (hemit : r.emit = .ok (frame?, r'))
    {emitted : Array Frame} {f : Frame} (hf : f ∈ emitted ++ frame?.toArray) :
    f ∈ emitted ∨ ∃ k h', ticksFrom h k = .ok h' ∧ f = h'.world.frame := by
  obtain ⟨⟨events, hadvance⟩, -, -, -, hframe⟩ := emit_inv hemit
  rcases Array.mem_append.mp hf with hbefore | hnow
  · exact .inl hbefore
  · refine .inr ⟨1, _, (ticksFrom_succ (hworld ▸ hadvance) 0).trans (ticksFrom_zero _), ?_⟩
    rw [hframe] at hnow
    split at hnow
    · simpa using hnow
    · simp at hnow

/-- A run breaks off in its next tick where the call for this tick does. -/
theorem Finishes.of_error {h : History Enclosure} {failure : Failure} (hworld : h.world = r.world)
    (hemit : r.emit = .error failure) (n : Nat) (emitted : Array Frame) :
    Finishes h r (n + 1) emitted (emitted, .error failure) where
  failure := by
    rintro _ ⟨⟩
    exact ticksFrom_error (hworld ▸ emit_error hemit) n
  success := nofun
  frames f hf := .inl hf

/-- It is over with a tick that stops it. -/
theorem Finishes.of_last {h : History Enclosure} (hworld : h.world = r.world) (hemit : r.emit = .ok (frame?, r'))
    (hstopped : r'.running = false) (emitted : Array Frame) :
    Finishes h r 1 emitted (emitted ++ frame?.toArray, .ok r') where
  failure := nofun
  success := by
    rintro _ ⟨⟩
    obtain ⟨⟨events, hadvance⟩, -⟩ := emit_inv hemit
    exact ⟨hstopped, ⟨_, (ticksFrom_succ (hworld ▸ hadvance) 0).trans (ticksFrom_zero _), rfl⟩,
      emit_ticks hemit emitted⟩
  frames f hf := emit_shows hworld hemit hf

/-- Otherwise what it makes of the other ticks follows this one. -/
theorem Finishes.of_rest {h : History Enclosure} {events : List Event} {n : Nat} {emitted : Array Frame}
    {result : Array Frame × Outcome Run} (hworld : h.world = r.world) (hemit : r.emit = .ok (frame?, r'))
    (hadvance : r.world.advance frameTime = .ok (events, r'.world))
    (hrest : Finishes { h with world := r'.world, log := h.log ++ events } r' n (emitted ++ frame?.toArray)
      result) : Finishes h r (n + 1) emitted result where
  failure failure hfailure := (ticksFrom_succ (hworld ▸ hadvance) n).trans (hrest.failure failure hfailure)
  success := by
    intro r'' hr''
    -- the frame that was emitted is that of the first tick, and the ticks of the others follow
    obtain ⟨-, hclock, hoptions, -, -⟩ := emit_inv hemit
    obtain ⟨hstopped, ⟨h', hh', hworld'⟩, hframes⟩ := hrest.success r'' hr''
    refine ⟨hstopped, ⟨h', (ticksFrom_succ (hworld ▸ hadvance) n).trans hh', hworld'⟩, hframes.trans ?_⟩
    rw [emit_ticks hemit, List.append_assoc, hoptions, hclock]
    unfold RunOptions.frameTicks
    rw [← List.filter_append, Nat.add_comm n 1, ← List.range'_append_1]
  frames := by
    intro f hf
    rcases hrest.frames f hf with hbefore | ⟨k, h', hh', rfl⟩
    · exact emit_shows hworld hemit hbefore
    · exact .inr ⟨k + 1, h', (ticksFrom_succ (hworld ▸ hadvance) k).trans hh', rfl⟩

theorem goOn_finishes {n : Nat} {emitted : Array Frame} {h : History Enclosure} (hworld : h.world = r.world)
    (hrunning : r.running = true) (hlast : r.options.ticks = some last)
    (hn : n = max 1 (last - r.world.tick)) : Finishes h r n emitted (goOn n emitted r) := by
  -- the induction is on the ticks that are left, over the run and the frames so far
  induction n generalizing r h emitted with
  | zero => omega
  | succ n ih =>
    cases hemit : r.emit with
    | error cause =>
      rw [goOn_error hrunning hemit]
      exact .of_error hworld hemit n emitted
    | ok next =>
      obtain ⟨frame?, r₁⟩ := next
      rw [goOn_ok hrunning hemit]
      obtain ⟨⟨events, hadvance⟩, hclock, hoptions, hgoes, -⟩ := emit_inv hemit
      have hreached : reachesEnd r.options r₁.world.tick = decide (last ≤ r₁.world.tick) := by
        unfold reachesEnd
        rw [hlast]
        rfl
      rw [hrunning, Bool.true_and, hreached] at hgoes
      by_cases hend : last ≤ r₁.world.tick
      · -- this tick was the last one
        obtain rfl : n = 0 := by omega
        exact .of_last hworld hemit (by rw [hgoes, decide_eq_true hend]; rfl) emitted
      · have hrunning' : r₁.running = true := by rw [hgoes, decide_eq_false hend]; rfl
        exact .of_rest hworld hemit hadvance (ih rfl hrunning' (hoptions ▸ hlast) (by omega))

theorem start_eq (config : Config) (options : RunOptions) (entropy : BitVec 256) :
    start config options entropy = do
      let world ← World.create (options.seeded config)
        (Enclosure.empty config.world.width config.world.height) entropy
      return { options, world } := rfl

end Run

/-- What is set up with another seed is accepted or not as before, and as roomy. -/
theorem Config.Valid.seeded {config : Config} (h : config.Valid) (options : RunOptions) :
    (options.seeded config).Valid := h

/-- A seed from the command line does not change what there is room for. -/
theorem Config.Roomy.seeded {config : Config} (h : config.Roomy) (options : RunOptions) :
    (options.seeded config).Roomy := ⟨h.width, h.height, h.weights⟩

/-- A counter can only stand at its maximum after so many ticks. -/
theorem History.ticks_of_full {config : Config} {enclosure : Enclosure} {entropy : BitVec 256}
    {ticks : List TickCall} {h : History Enclosure}
    (hrun : run config enclosure entropy (ticks.map .tick) = .ok h) (hfull : h.world.Full) :
    twoTo 32 ≤ ticks.length + 2 := by
  have hwords : twoTo 32 ≤ twoTo 64 := by decide
  have hclock := tick_run hrun
  rcases hfull with hlast | ⟨rank, c, hc, hgeneration⟩
  · omega
  · have hle := ((paced_run hrun).2.1 rank c hc).generation_le
    omega

/-- The multiples of a number among the ticks of a run that emits a frame at each of them. -/
theorem RunOptions.frameTicks_every {options : RunOptions} {every : Nat}
    (hevery : options.snapshotEvery = some every) (hpos : 0 < every) (n : Nat) :
    options.frameTicks 1 n = (List.range (n / every)).map fun i => every * (i + 1) := by
  unfold RunOptions.frameTicks
  rw [hevery, ← filter_multiples]
  refine List.filter_congr fun tick _ => ?_
  rw [Option.any_some, decide_eq_true hpos, Bool.true_and]

theorem RunOptions.frameTicks_none {options : RunOptions}
    (hnone : ∀ every, options.snapshotEvery = some every → every = 0) (first n : Nat) :
    options.frameTicks first n = [] := by
  refine List.filter_eq_nil_iff.mpr fun tick _ => ?_
  cases hevery : options.snapshotEvery with
  | none => exact Bool.false_ne_true
  | some every =>
    obtain rfl := hnone every hevery
    exact Bool.false_ne_true

/-- **Runs keep to their options.** On an accepted configuration, a run with a last tick that could be set up
comes to an end. If it does not break off, it has stopped, and has made just the ticks that it was to make, but
one at least; the world is what so many calls for a tick make of the one that was set up. Where a frame was
asked for at every so many ticks, the frames are those of the multiples of this number up to the last tick, in
order, and otherwise there are none; each shows the world as it was then. With spacious sides a run breaks off
only where a draw is given up, or after more ticks than generations can be counted. -/
theorem runs_keep_to_their_options {config : Config} (hvalid : config.Valid) {options : RunOptions}
    {last : Nat} (hlast : options.ticks = some last) (entropy : BitVec 256) :
    (∀ failure, Run.start config options entropy = .error failure → config.Roomy →
      failure = .fault .exhausted) ∧
    ∀ r, Run.start config options entropy = .ok r → ∃ frames outcome, r.finish? = some (frames, outcome) ∧
      (∀ failure, outcome = .error failure → config.Roomy →
        failure = .fault .exhausted ∨ twoTo 32 ≤ max 1 last + 2) ∧
      (∀ r', outcome = .ok r' → r'.running = false ∧ r'.summary.ticks = max 1 last ∧
        (∃ h, History.run (options.seeded config) (Enclosure.empty config.world.width config.world.height) entropy
          (List.replicate (max 1 last) Run.tickCall) = .ok h ∧ h.world = r'.world) ∧
        (∀ every, options.snapshotEvery = some every → 0 < every →
          frames.toList.map (·.tick) = (List.range (max 1 last / every)).map fun i => every * (i + 1)) ∧
        ((∀ every, options.snapshotEvery = some every → every = 0) → frames = #[])) ∧
      ∀ f ∈ frames, ∃ h, History.run (options.seeded config)
        (Enclosure.empty config.world.width config.world.height) entropy
        (List.replicate f.tick Run.tickCall) = .ok h ∧ f = h.world.frame := by
  refine ⟨fun failure hstart hroomy => ?_, fun r hstart => ?_⟩
  · rcases except_error_inv (Run.start_eq config options entropy ▸ hstart) with hcreate | ⟨w, -, hpure⟩
    · exact World.create_steady (hvalid.seeded options) (hroomy.seeded options) _ entropy hcreate
    · cases hpure
  · obtain ⟨world, hcreate, hpure⟩ := except_bind_inv (Run.start_eq config options entropy ▸ hstart)
    cases hpure
    have hclock : world.tick = 0 := by
      obtain ⟨-, births, w₁, hcourse, rfl⟩ := World.create_inv hcreate
      exact hcourse.frame.2.1
    -- calls for ticks of the world that was set up are calls of a history
    have hreplicate (n : Nat) : (List.replicate n (TickCall.advance Run.frameTime)).map Call.tick =
        List.replicate n Run.tickCall := List.map_replicate
    have hcalls (n : Nat) : Run.ticksFrom { world } n = History.run (options.seeded config)
        (Enclosure.empty config.world.width config.world.height) entropy (List.replicate n Run.tickCall) := by
      unfold History.run
      rw [hcreate]
      rfl
    have hcounts {n : Nat} {h : History Enclosure} (hh : Run.ticksFrom { world } n = .ok h) : h.world.tick = n := by
      rw [hcalls, ← hreplicate] at hh
      rw [History.tick_run hh, List.length_replicate]
    have hfinish : Run.Finishes { world } { options, world } (max 1 last) #[]
        (Run.goOn (max 1 last) #[] { options, world }) :=
      Run.goOn_finishes rfl rfl hlast (by rw [hclock, Nat.sub_zero])
    have hends : ({ options, world } : Run).finish? = some (Run.goOn (max 1 last) #[] { options, world }) := by
      unfold Run.finish? Run.ticksLeft?
      rw [hlast, hclock]
      rfl
    generalize Run.goOn (max 1 last) #[] { options, world } = result at hfinish hends
    refine ⟨result.1, result.2, hends, fun failure hbreaks hroomy => ?_, fun r' hr' => ?_, fun f hf => ?_⟩
    · -- some of its ticks have been made when a counter stands at its maximum
      have hrun := hfinish.failure failure hbreaks
      rw [hcalls, ← hreplicate] at hrun
      refine (History.run_steady (hvalid.seeded options) (hroomy.seeded options) hrun).imp_right ?_
      rintro ⟨earlier, later, h, hsplit, hearlier, hfull⟩
      have hlength := congrArg List.length hsplit
      rw [List.length_replicate, List.length_append] at hlength
      exact (History.ticks_of_full hearlier hfull).trans (by omega)
    · obtain ⟨hstopped, ⟨h, hh, hworld⟩, hframes⟩ := hfinish.success r' hr'
      rw [hclock] at hframes
      refine ⟨hstopped, ?_, ⟨h, (hcalls _).symm.trans hh, hworld⟩, fun every hevery hpos => ?_, fun hnone => ?_⟩
      · show r'.world.tick = max 1 last
        rw [← hworld, hcounts hh]
      · exact hframes.trans (RunOptions.frameTicks_every hevery hpos _)
      · have hnil := hframes.trans (RunOptions.frameTicks_none hnone _ _)
        exact Array.toList_eq_nil_iff.mp (List.map_eq_nil_iff.mp hnil)
    · rcases hfinish.frames f hf with hbefore | ⟨k, h, hh, rfl⟩
      · exact absurd hbefore (Array.not_mem_empty f)
      · refine ⟨h, ?_, rfl⟩
        rw [show h.world.frame.tick = k from hcounts hh, ← hcalls, hh]

/-- Of three ticks with frames at every second one, there is a frame of the second tick. -/
theorem runs_keep_to_their_options_odd :
    Config.deserted.Valid ∧ ∃ r frames r',
      Run.start .deserted { ticks := some 3, snapshotEvery := some 2 } 0 = .ok r ∧
      r.finish? = some (frames, .ok r') ∧ r'.running = false ∧ r'.summary.ticks = 3 ∧
      frames.toList.map (·.tick) = [2] := by
  have hvalid : Config.deserted.Valid := by decide +kernel
  -- that the run ends is computed, and how it ends is taken from the theorem
  have hreturns : (Run.start .deserted { ticks := some 3, snapshotEvery := some 2 } 0).toOption.any
      (fun r => r.finish?.any fun result => result.2.toOption.isSome) = true := by
    decide +kernel
  obtain ⟨r, hstart, hends⟩ := except_any_inv hreturns
  have hlast : ({ ticks := some 3, snapshotEvery := some 2 } : RunOptions).ticks = some 3 := rfl
  obtain ⟨frames, outcome, hfinish, -, hdone, -⟩ := (runs_keep_to_their_options hvalid hlast 0).2 r hstart
  rw [hfinish] at hends
  cases outcome with
  | error failure => cases hends
  | ok r' =>
    obtain ⟨hstopped, hticks, -, hframes, -⟩ := hdone r' rfl
    exact ⟨hvalid, r, frames, r', hstart, hfinish, hstopped, hticks, hframes 2 rfl (by decide)⟩

/-- **A run of no ticks makes one**, and emits its frame. -/
theorem run_of_no_ticks_makes_one :
    Config.deserted.Valid ∧
    ((Run.start .deserted { ticks := some 0, snapshotEvery := some 1 } 0).toOption.bind
      fun r => r.finish?.bind fun result => result.2.toOption.map fun r' =>
        (r'.summary.ticks, result.1.toList.map (·.tick))) = some (1, [1]) := by
  decide +kernel

end Vivarium
