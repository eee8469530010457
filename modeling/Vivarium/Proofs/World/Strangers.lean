import Vivarium.Proofs.World.Kin

/-!
# Kin are never attacked

An attack is told in one place: where the request of a creature is carried out in its turn. What it asked
for it had in view, and within reach, and did not count as kin. Views are current and the memo is right, so
the two are not kin; and since equal genomes are kin, they differ in their genomes.

What the argument needs of a world is collected in `World.Orderly`. Ticks lead to orderly worlds, and a world
stays orderly with any other memo that holds no wrong score.

Main result: `kin_are_never_attacked`.
-/

namespace Vivarium

/-- An attack is told of an attack alone, with the creature that asked for it and the target that it chose. -/
theorem Interaction.Tells.attack_inv {r : Interaction} {actor a b : Ident} {tick n : Nat} {told : List Event}
    (h : r.Tells actor tick told) (hattack : .attack a b n ∈ told) :
    (∃ target, r = .attack target b) ∧ a = actor ∧ n = tick := by
  -- only a request for an attack tells of one, and it tells of the creature that made it
  cases r with
  | attack target targetId =>
    rcases h with rfl | ⟨age, rfl⟩
    · simp only [List.mem_singleton, Event.attack.injEq] at hattack
      obtain ⟨rfl, rfl, rfl⟩ := hattack
      exact ⟨⟨target, rfl⟩, rfl, rfl⟩
    · simp only [List.mem_cons, Event.attack.injEq, reduceCtorEq, List.not_mem_nil, or_false] at hattack
      obtain ⟨rfl, rfl, rfl⟩ := hattack
      exact ⟨⟨target, rfl⟩, rfl, rfl⟩
  | replicate =>
    obtain ⟨child, generation, rfl | ⟨operator, rfl⟩⟩ := h
    · simp at hattack
    · simp at hattack

variable {E : Type} [Physics E]

namespace Stage

variable {s s' : Stage E} {rank : Rank} {a b : Ident} {n : Nat}

/-! ## Where attacks are told -/

theorem attack_mem_prepared (h : .attack a b n ∈ (s.prepared rank).events) : .attack a b n ∈ s.events := by
  have hlaser : (s.prepared rank).events = (s.feed rank).events := by
    unfold prepared
    rcases (s.feed rank).tickLaser_cases rank with hnothing | ⟨own, target, hticked⟩
    · rw [hnothing]
    · rw [hticked]
  rw [hlaser] at h
  rcases s.feed_cases rank with hnothing | ⟨eater, food, pellet, world, -, -, hfed⟩
  · rw [hnothing] at h
    exact h
  · -- a meal is told at most
    rw [hfed] at h
    simpa [log] using h

theorem attack_mem_reap (h : .attack a b n ∈ (s.reap rank).events) : .attack a b n ∈ s.events := by
  rcases reap_events s rank with hspared | ⟨c, -, hreaped⟩
  · rw [hspared] at h
    exact h
  · rw [hreaped] at h
    simpa using h

theorem attack_mem_metabolize (h : .attack a b n ∈ (s.metabolize rank).events) :
    .attack a b n ∈ s.events :=
  attack_mem_reap (s := s.charge rank) h

/-- A creature `c` has in view `d`, whom it may attack: another creature that is not its kin, of another
genome, within its attack range. -/
structure Targets (mode : KinshipMode) (s : Stage E) (c d : Creature) (v : CreatureView) : Prop where
  mem      : v ∈ s.views
  alive    : s.world.creatures.get? v.rank = some d
  other    : c.id ≠ d.id
  stranger : c.isKinTo mode d = false
  near     : (s.world.placeOf c.body).distance v.position ≤ c.traits.attackRange
  genomes  : c.program.geneticString ≠ d.program.geneticString

variable [LawfulPhysics E]

/-- An attack that is told when the requests of a creature are carried out is one of them, on somebody that
was exposed to it when its genes were run. -/
theorem attack_mem_requests {done : Stage E} {c : Creature} {requests : List Interaction}
    (hranked : s.world.Ranked) (hcurrent : s.Current) (hc : s.world.creatures.get? rank = some c)
    (hprogram : c.program.Executable) (hgenes : s.runGenes rank = .ok (requests, s'))
    (hdone : requests.foldlM (interact rank) s' = .ok done) (hattack : .attack a b n ∈ done.events)
    (hnew : .attack a b n ∉ s.events) :
    ∃ v, (s.surroundings c).1.Exposes c (s.world.placeOf c.body) v ∧ a = c.id ∧ b = v.id ∧
      n = s.world.tick := by
  obtain ⟨hasked, haskedCurrent⟩ := (runGenes_steps hgenes).current hranked hcurrent
  have hmodest := runGenes_modest hc hprogram hgenes
  obtain ⟨hviews, hpopulation, hconfig, htick, c', hc', hlives, hoffered⟩ := runGenes_offers hc hgenes
  -- running the genes tells nothing
  have hquietly : .attack a b n ∉ s'.events := by
    obtain ⟨world, rfl, -⟩ := runGenes_quiet hgenes
    exact hnew
  cases requests with
  | nil =>
    cases hdone
    exact absurd hattack hquietly
  | cons r others =>
    obtain rfl : others = [] := List.eq_nil_of_length_eq_zero (by rw [List.length_cons] at hmodest; omega)
    rw [List.foldlM_cons] at hdone
    obtain ⟨done', hone, hpure⟩ := except_bind_inv hdone
    cases hpure
    obtain ⟨hseen, hcounted, hread⟩ := s.surroundings_seen c
    have hoffer := hoffered r List.mem_cons_self
    obtain ⟨told, htells, htold⟩ := (interact_tells hasked haskedCurrent (hseen.trans hviews.symm)
      (hcounted.trans hpopulation.symm) (hread.trans hconfig.symm) hc' hoffer).of_ok hone
    rw [htold, List.mem_append] at hattack
    obtain ⟨⟨target, rfl⟩, ha, hn⟩ := htells.attack_inv (hattack.resolve_left hquietly)
    obtain ⟨v, hv, -, hid⟩ := hoffer
    exact ⟨v, hv.congr hlives.toSame.symm, ha.trans hlives.id_eq, hid.symm, hn.trans htick⟩

/-- **An attack that is told in a turn** is that of the creature whose turn it is, on another that is exposed
to it when it has fed and its laser has been counted down. -/
theorem attack_mem_turn (hranked : s.world.Ranked) (hcurrent : s.Current)
    (hprograms : s.world.All fun c => c.program.Executable) (hturn : s.turn rank = .ok s')
    (hattack : .attack a b n ∈ s'.events) (hnew : .attack a b n ∉ s.events) :
    ∃ c v, (s.prepared rank).world.creatures.get? rank = some c ∧
      ((s.prepared rank).surroundings c).1.Exposes c ((s.prepared rank).world.placeOf c.body) v ∧
      a = c.id ∧ b = v.id ∧ n = (s.prepared rank).world.tick := by
  by_cases hthere : rank ∈ s.world.creatures.keys
  · obtain ⟨requests, ran, done, hgenes, hdone, rfl⟩ := turn_inv hthere hturn
    obtain ⟨c₀, hc₀⟩ := Option.isSome_iff_exists.mp (Table.mem_keys_iff_isSome.mp hthere)
    obtain ⟨c, hc, hlives⟩ := (s.prepared_retains rank).lives rank c₀ hc₀
    have hprogram : c.program.Executable := hlives.program_eq ▸ hprograms rank c₀ hc₀
    obtain ⟨hready, hreadyCurrent⟩ := (s.prepared_steps rank).current hranked hcurrent
    -- nothing but the requests tells of attacks
    obtain ⟨v, hv⟩ := attack_mem_requests hready hreadyCurrent hc hprogram hgenes hdone
      (attack_mem_metabolize hattack) fun h => hnew (attack_mem_prepared h)
    exact ⟨c, v, hc, hv⟩
  · rw [turn_of_gone hthere hturn] at hattack
    exact absurd hattack hnew

omit [LawfulPhysics E] in
/-- What is told in the end was told before, or in one of the turns. -/
theorem mem_events_turns {start stage : Stage E} {ranks : List Rank} {e : Event}
    (hturns : start.turns ranks = .ok stage) (he : e ∈ stage.events) (hnew : e ∉ start.events) :
    ∃ before rank after s s', ranks = before ++ rank :: after ∧ start.turns before = .ok s ∧
      s.turn rank = .ok s' ∧ e ∈ s'.events ∧ e ∉ s.events := by
  -- the induction is on the ranks, over the stage at which the first of them has its turn
  induction ranks generalizing start with
  | nil =>
    cases hturns
    exact absurd he hnew
  | cons first ranks ih =>
    unfold turns at hturns
    rw [List.foldlM_cons] at hturns
    obtain ⟨s₁, hfirst, hothers⟩ := except_bind_inv hturns
    by_cases hearly : e ∈ s₁.events
    · exact ⟨[], first, ranks, start, s₁, rfl, rfl, hfirst, hearly, hnew⟩
    · obtain ⟨before, rank, after, s, s', rfl, hs, hturn, htold, hfresh⟩ := ih hothers hearly
      refine ⟨first :: before, rank, after, s, s', rfl, ?_, hturn, htold, hfresh⟩
      unfold turns at hs ⊢
      rw [List.foldlM_cons, hfirst]
      exact hs

/-! ## Who is attacked -/

omit [LawfulPhysics E] in
/-- Whoever is exposed to a creature is such a target. -/
theorem targets_of_exposes (hranked : s.world.Ranked) (hcurrent : s.Current)
    (hbred : s.world.All Creature.TrueBred) (hmemo : s.world.similarity.Coherent) {c : Creature}
    {v : CreatureView} (hc : s.world.creatures.get? rank = some c)
    (hv : (s.surroundings c).1.Exposes c (s.world.placeOf c.body) v) :
    ∃ d, d.id = v.id ∧ s.Targets s.world.config.kinship.mode c d v := by
  have hmem : v ∈ s.views := (s.surroundings_seen c).1 ▸ hv.mem
  obtain ⟨d, hd, hview⟩ := hcurrent.viewed hranked hmem
  have hid : v.id = d.id := congrArg (·.id) hview
  have hstranger := isKinTo_of_stranger hmemo hmem hv.other hd hview hv.stranger
  refine ⟨d, hid.symm, hmem, hd, fun heq => hv.other (hid.trans heq.symm), hstranger, hv.near, fun heq => ?_⟩
  -- equal genomes would make them kin
  have hkin := Creature.isKinTo_of_geneticString_eq (hbred _ c hc) (hbred _ d hd) heq
    s.world.config.kinship.mode
  rw [hstranger] at hkin
  cases hkin

end Stage

namespace World

variable {w : World E} {a b : Ident} {n : Nat}

/-- In a tick of the world one creature attacks another: after some of the turns, when it has fed and its
laser has been counted down in its own, it has the other in view as a target. -/
inductive Attacks (mode : KinshipMode) (w : World E) (t : TickCall) : Ident → Ident → Nat → Prop
  | intro {start s : Stage E} {before after : List Rank} {rank : Rank} {c d : Creature} {v : CreatureView}
      (hstart : w.openingBy t = .ok start) (hranks : start.views.map (·.rank) = before ++ rank :: after)
      (hturns : start.turns before = .ok s) (hactor : (s.prepared rank).world.creatures.get? rank = some c)
      (htarget : (s.prepared rank).Targets mode c d v) : Attacks mode w t c.id d.id (w.tick + 1)

/-- Ranks are in order, programs can run, creatures are true to their lineages, the memo holds no wrong
score, and nothing but births waits to be told. -/
structure Orderly (w : World E) : Prop where
  ranked     : w.Ranked
  executable : w.All fun c => c.program.Executable
  trueBred   : w.All Creature.TrueBred
  memo       : w.similarity.Coherent
  pending    : ∀ e ∈ w.pendingEvents, e.Census

omit [Physics E] in
theorem Orderly.recalling (h : w.Orderly) (k : Nat) {m : Cache} (hm : m.Coherent) :
    (w.recalling k m).Orderly where
  ranked     := ⟨h.ranked.nodup, h.ranked.le, h.ranked.creatures_ascending, h.ranked.pellets_ascending⟩
  executable := h.executable
  trueBred   := h.trueBred
  memo       := hm
  pending    := h.pending

variable [LawfulPhysics E]

/-- **Every attack that a tick of an orderly world tells of** is made on a target. -/
theorem Orderly.attacks (h : w.Orderly) {t : TickCall} {events : List Event} {w' : World E}
    (htick : w.tickBy t = .ok (events, w')) (hattack : .attack a b n ∈ events) :
    w.Attacks w.config.kinship.mode t a b n := by
  obtain ⟨opened, stage, newborn, rest, hstart, hcreatures, hturns, hclosing, -, -⟩ := tickBy_inv htick
  -- what was pending and what the end of the tick tells are no attacks
  obtain ⟨told, rfl, hcensus⟩ := closing_census hclosing
  have hlate : .attack a b n ∉ told := fun hmem => hcensus _ hmem
  have hpending : .attack a b n ∉ (Stage.start opened w.pendingEvents).events := fun hmem =>
    h.pending _ hmem
  have hstage := (List.mem_append.mp hattack).resolve_right hlate
  obtain ⟨before, rank, after, s, s', hranks, hs, hturn, htold, hnew⟩ :=
    Stage.mem_events_turns hturns hstage hpending
  -- at this turn the world is still in order
  obtain ⟨hranked, hcurrent, early, hcourse, -⟩ := during_tick h.ranked hstart hs
  have hprograms : w.counted.All fun c => c.program.Executable := h.executable
  have hbred : w.counted.All Creature.TrueBred := h.trueBred
  obtain ⟨c, v, hc, hv, rfl, rfl, rfl⟩ := Stage.attack_mem_turn hranked hcurrent
    (hprograms.course executable_vital hcourse) hturn htold hnew
  obtain ⟨hready, hreadyCurrent⟩ := (s.prepared_steps rank).current hranked hcurrent
  obtain ⟨own, hprepared, -⟩ := (s.prepared_steps rank).advances
  have hwhole := hcourse.trans hprepared
  obtain ⟨hconfig, hclock, -⟩ := hwhole.frame
  obtain ⟨d, hid, htarget⟩ := Stage.targets_of_exposes hready hreadyCurrent
    (hbred.course trueBred_vital hwhole) (Stage.memo_prepared (Stage.memo_at_turn h.memo hstart hs) rank)
    hc hv
  rw [hconfig] at htarget
  rw [← hid, hclock]
  have hsplit : (Stage.start opened w.pendingEvents).views.map (·.rank) = before ++ rank :: after := by
    rw [Stage.start_ranks, hcreatures, hranks]
  exact .intro hstart hsplit hs hc htarget

end World

/-! ## Runs -/

namespace History

variable [LawfulPhysics E] {config : Config} {enclosure : E} {entropy : BitVec 256} {ticks : List TickCall}
  {h : History E}

theorem orderly (hrun : run config enclosure entropy (ticks.map .tick) = .ok h) : h.world.Orderly where
  ranked     := ranked_run hrun
  executable := all_run executable_vital hrun
  trueBred   := all_run trueBred_vital hrun
  memo       := memo_coherent hrun
  pending    := census_pending hrun

omit [LawfulPhysics E] in
/-- A run of ticks that told of something told of it in one of its ticks. -/
theorem mem_log_run {e : Event} (hrun : run config enclosure entropy (ticks.map .tick) = .ok h)
    (he : e ∈ h.log) :
    ∃ earlier t later h₀ events w', ticks = earlier ++ t :: later ∧
      run config enclosure entropy (earlier.map .tick) = .ok h₀ ∧
      h₀.world.tickBy t = .ok (events, w') ∧ e ∈ events := by
  -- the induction is on the ticks, the last of which has told of the event, or one of those before
  induction ticks using List.reverseRecOn generalizing h with
  | nil =>
    obtain ⟨w, -, hpure⟩ := except_bind_inv hrun
    cases hpure
    cases he
  | append_singleton ticks t ih =>
    obtain ⟨h₀, events, w', hrun₀, htick, rfl⟩ := run_ticks_inv hrun
    rcases List.mem_append.mp he with hbefore | hnow
    · obtain ⟨earlier, t', later, h', events', w'', rfl, hrun', htick', he'⟩ := ih hrun₀ hbefore
      refine ⟨earlier, t', later ++ [t], h', events', w'', ?_, hrun', htick', he'⟩
      rw [List.append_assoc, List.cons_append]
    · exact ⟨ticks, t, [], h₀, events, w', rfl, hrun₀, htick, hnow⟩

end History

variable [LawfulPhysics E]

/-- **Kin are never attacked.** In every run of ticks, in either mode of kinship, every attack that was told
was made on a target in the turn of the attacker: on another creature, which is not its kin and has another
genome, and which it saw within its attack range. So it is for every attack of a next tick, whatever memo
without a wrong score stands in the place of the one that the run left. -/
theorem kin_are_never_attacked {config : Config} {enclosure : E} {entropy : BitVec 256}
    {ticks : List TickCall} {h : History E}
    (hrun : History.run config enclosure entropy (ticks.map .tick) = .ok h) :
    (∀ a b n, .attack a b n ∈ h.log → ∃ earlier t later h₀, ticks = earlier ++ t :: later ∧
      History.run config enclosure entropy (earlier.map .tick) = .ok h₀ ∧
      h₀.world.Attacks config.kinship.mode t a b n) ∧
    h.world.similarity.Coherent ∧
    ∀ k m t events w', m.Coherent → (h.world.recalling k m).tickBy t = .ok (events, w') →
      ∀ a b n, .attack a b n ∈ events → (h.world.recalling k m).Attacks config.kinship.mode t a b n := by
  refine ⟨fun a b n hattack => ?_, History.memo_coherent hrun,
    fun k m t events w' hm htick a b n hattack => ?_⟩
  · -- the tick that told of the attack was run on a world of this history, in the configuration's mode
    obtain ⟨earlier, t, later, h₀, events, w', hsplit, hrun₀, htick, hmem⟩ := History.mem_log_run hrun hattack
    have hattacks := (History.orderly hrun₀).attacks htick hmem
    rw [History.config_run hrun₀] at hattacks
    exact ⟨earlier, t, later, h₀, hsplit, hrun₀, hattacks⟩
  · -- the same tick with any other memo that holds no wrong score
    have hattacks := ((History.orderly hrun).recalling k hm).attacks htick hattack
    have hmode : (h.world.recalling k m).config.kinship.mode = config.kinship.mode := by
      rw [← History.config_run hrun]
      rfl
    rw [hmode] at hattacks
    exact hattacks

/-- In a small world the first tick tells of an attack, and would with a memo that holds nothing. -/
theorem kin_are_never_attacked_cramped :
    ∃ h h' a b n events w',
      History.run .cramped (Enclosure.empty 20.0 20.0) 0 ([].map .tick) = .ok h ∧
      History.run .cramped (Enclosure.empty 20.0 20.0) 0 ([.update].map .tick) = .ok h' ∧
      .attack a b n ∈ h'.log ∧
      (∃ earlier t later h₀, [.update] = earlier ++ t :: later ∧
        History.run .cramped (Enclosure.empty 20.0 20.0) 0 (earlier.map .tick) = .ok h₀ ∧
        h₀.world.Attacks Config.cramped.kinship.mode t a b n) ∧
      (h.world.recalling 0 (.empty 0)).tickBy .update = .ok (events, w') ∧ .attack a b n ∈ events ∧
      (h.world.recalling 0 (.empty 0)).Attacks Config.cramped.kinship.mode .update a b n := by
  -- that one attacks the other with either memo is computed, and what this says of them is taken from the
  -- theorem
  have hcheck : (History.run .cramped (Enclosure.empty 20.0 20.0) 0 ([].map .tick)).toOption.any (fun h =>
      (History.run .cramped (Enclosure.empty 20.0 20.0) 0 ([.update].map .tick)).toOption.any fun h' =>
        ((h.world.recalling 0 (.empty 0)).tickBy .update).toOption.any fun told =>
          h'.log.any fun
            | .attack a b n => decide (Event.attack a b n ∈ told.1)
            | _             => false) = true := by
    decide +kernel
  obtain ⟨h, hrun, hcheck⟩ := except_any_inv hcheck
  obtain ⟨h', hrun', hcheck⟩ := except_any_inv hcheck
  obtain ⟨⟨events, w'⟩, htick, hcheck⟩ := except_any_inv hcheck
  obtain ⟨e, he, hcheck⟩ := List.any_eq_true.mp hcheck
  cases e with
  | attack a b n =>
    have htold : .attack a b n ∈ events := of_decide_eq_true hcheck
    obtain ⟨hlogged, -, -⟩ := kin_are_never_attacked hrun'
    obtain ⟨-, -, hnext⟩ := kin_are_never_attacked hrun
    exact ⟨h, h', a, b, n, events, w', hrun, hrun', he, hlogged a b n he, htick, htold,
      hnext 0 (.empty 0) .update events w' (.empty 0) htick a b n htold⟩
  | _ => cases hcheck

end Vivarium
