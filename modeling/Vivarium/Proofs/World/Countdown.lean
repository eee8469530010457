import Vivarium.Proofs.World.Aims
import Vivarium.Proofs.World.Strangers

/-!
# How long a laser is held

An attack gives the attacker a laser with the configured number of ticks. At each further turn of its owner one
of them is taken away, and the laser with the last one, so it is held for one tick more than it was given: the
tick of the attack is one of them. The count is exact, since a creature has one turn in a tick and nothing else
touches its laser. A new attack starts it again, and the death of the target ends it at the next turn.

`World.Holds` is where such a laser is in its time, so many ticks after the attack. An attack leads there, and
each tick without one leads on.

Main result: `lasers_follow_and_run_out`.
-/

namespace Vivarium

/-! ## Counting down -/

namespace Creature

variable {c d : Creature} {own target : Option Vec} {l : Laser}

/-- The laser alone decides what becomes of it. -/
theorem tickLaser_congr (h : c.laser = d.laser) (own target : Option Vec) :
    (c.tickLaser own target).laser = (d.tickLaser own target).laser := by
  unfold tickLaser
  rw [h]
  split
  · split
    · rfl
    · rfl
  · rfl

/-- A laser that has time left, and both its bodies, is kept. -/
theorem tickLaser_isSome (hl : c.laser = some l) (hpos : 0 < l.timer) (hown : own.isSome = true)
    (htarget : target.isSome = true) : (c.tickLaser own target).laser.isSome = true := by
  obtain ⟨start, rfl⟩ := Option.isSome_iff_exists.mp hown
  obtain ⟨stop, rfl⟩ := Option.isSome_iff_exists.mp htarget
  unfold tickLaser
  rw [hl]
  dsimp only
  rw [if_pos hpos]
  rfl

theorem tickLaser_of_none (h : c.laser = none) (own target : Option Vec) :
    (c.tickLaser own target).laser = none := by
  unfold tickLaser
  rw [h]

end Creature

variable {E : Type} [Physics E] [LawfulPhysics E]

/-- The body of a living creature has a place. -/
theorem World.Coherent.position?_isSome {w : World E} (h : w.Coherent []) {rank : Rank} {c : Creature}
    (hc : w.creatures.get? rank = some c) : (Physics.position? w.enclosure c.body).isSome = true :=
  Physics.isSome_position?_iff.mpr (h.mem_handles_body hc)

namespace Stage

variable {s s' : Stage E} {rank : Rank}

/-- From the meal on a turn takes steps. -/
theorem steps_turn_of_feed (hthere : rank ∈ s.world.creatures.keys) (hturn : s.turn rank = .ok s') :
    (s.feed rank).Steps s' := by
  obtain ⟨requests, ran, done, hgenes, hdone, rfl⟩ := turn_inv hthere hturn
  have hready := (s.feed rank).tickLaser_steps rank
  have hran : (s.prepared rank).Steps ran := runGenes_steps hgenes
  have hrequests := (requests_ensures rank requests ran).of_ok hdone
  exact ((hready.trans hran).trans hrequests).trans (done.metabolize_steps rank)

/-- When its genes are run, a creature's laser has been counted down. -/
theorem laser_prepared (hle : rank.number ≤ s.world.lastRank) {c p : Creature}
    (hc : s.world.creatures.get? rank = some c) (hp : (s.prepared rank).world.creatures.get? rank = some p) :
    ∃ target, p.laser = (c.tickLaser (Physics.position? (s.feed rank).world.enclosure c.body) target).laser ∧
      ∀ l, c.laser = some l → target = Physics.position? (s.feed rank).world.enclosure l.targetBody := by
  obtain ⟨f, hf, hlives⟩ := (s.feed_retains rank).lives rank c hc
  -- the meal does not touch the laser, so what is counted down is the laser from before the turn
  have hfed : s.world.Leaves (fun _ => True) (s.feed rank).world := s.feed_leaves rank
  obtain ⟨c₀, hc₀, hlaser⟩ := hfed.held trivial hle hf
  rw [hc, Option.some.injEq] at hc₀
  subst hc₀
  unfold prepared tickLaser at hp
  rw [hf] at hp
  dsimp only at hp
  split at hp
  · rename_i hnone
    rw [hf, Option.some.injEq] at hp
    subst hp
    rw [hlaser] at hnone
    refine ⟨none, ?_, fun l hl => ?_⟩
    · rw [hlaser, hnone, Creature.tickLaser_of_none hnone]
    · rw [hnone] at hl
      cases hl
  · rename_i laser hsome
    rw [World.get?_modifyCreature, if_pos rfl, hf, Option.map_some, Option.some.injEq] at hp
    subst hp
    refine ⟨Physics.position? (s.feed rank).world.enclosure laser.targetBody, ?_, fun l hl => ?_⟩
    · rw [hlives.body_eq]
      exact Creature.tickLaser_congr hlaser _ _
    · rw [← hlaser, hsome, Option.some.injEq] at hl
      rw [hl]

/-- What an attack leaves with the attacker, if that is alive at the end of its turn. -/
theorem attack_laser {ran : Stage E} {target : Rank} {attacker victim c' : Creature}
    (hattacker : ran.world.creatures.get? rank = some attacker)
    (hvictim : ran.world.creatures.get? target = some victim) (hle : rank.number ≤ ran.world.lastRank)
    (hc' : ((ran.attack rank target victim.id).metabolize rank).world.creatures.get? rank = some c') :
    ∃ l, c'.laser = some l ∧ l.target = victim.id ∧ l.targetBody = victim.body ∧
      l.timer = ran.world.config.combat.laserTicks := by
  rw [attack_of_alive hattacker hvictim] at hc'
  have hlast := (ran.world.exchanged_quiet rank target attacker victim victim.id).lastRank_eq
  have hlaser {c : Creature} := World.laser_exchanged rank attacker hvictim victim.id (c := c)
  generalize ran.world.exchanged rank target attacker victim victim.id = world at *
  -- neither reaping the target nor the metabolism touches the laser
  have hleaves : world.Leaves (fun _ => True)
      ((({ ran with world }.log (.attack attacker.id victim.id world.tick)).reap target).metabolize
        rank).world :=
    (reap_leaves ({ ran with world }.log (.attack attacker.id victim.id world.tick)) target).trans
      (metabolize_leaves _ rank)
  obtain ⟨c, hc, hsame⟩ := hleaves.held trivial (hlast ▸ hle) hc'
  exact ⟨_, hsame.trans (hlaser hc), rfl, rfl, rfl⟩

/-- An attack is told, and no other is told between it and the end of the turn. -/
theorem attack_told {ran : Stage E} {target : Rank} {attacker victim : Creature}
    (hattacker : ran.world.creatures.get? rank = some attacker)
    (hvictim : ran.world.creatures.get? target = some victim) :
    (∃ n, .attack attacker.id victim.id n ∈ ((ran.attack rank target victim.id).metabolize rank).events) ∧
    ∀ a b n, .attack a b n ∈ ((ran.attack rank target victim.id).metabolize rank).events →
      .attack a b n ∈ ran.events ∨ b = victim.id := by
  obtain ⟨told, htells, htold⟩ := attack_tells hattacker hvictim
  obtain ⟨later, -, hlater⟩ := ((ran.attack rank target victim.id).metabolize_steps rank).advances
  refine ⟨⟨ran.world.tick, ?_⟩, fun a b n hmem => ?_⟩
  · rw [hlater, htold]
    refine List.mem_append_left _ (List.mem_append_right _ ?_)
    rcases htells with rfl | ⟨age, rfl⟩
    · exact List.mem_cons_self
    · exact List.mem_cons_self
  · have hmem := attack_mem_metabolize hmem
    rw [htold, List.mem_append] at hmem
    rcases hmem with hearly | hnow
    · exact .inl hearly
    · -- of what an attack tells, only one event is an attack
      obtain ⟨⟨target', heq⟩, -, -⟩ := htells.attack_inv hnow
      cases heq
      exact .inr rfl

/-- A single request leaves the lasers alone and tells of no attack, or it is an attack that is carried out. -/
theorem lasers_of_modest {ran done : Stage E} {requests : List Interaction} (hmodest : requests.length ≤ 1)
    (hdone : requests.foldlM (interact rank) ran = .ok done) :
    (ran.world.Leaves (fun _ => True) done.world ∧
      ∀ a b n, .attack a b n ∈ done.events → .attack a b n ∈ ran.events) ∨
    ∃ target attacker victim, ran.world.creatures.get? rank = some attacker ∧
      ran.world.creatures.get? target = some victim ∧ done = ran.attack rank target victim.id := by
  cases requests with
  | nil =>
    cases hdone
    exact .inl ⟨.refl _, fun _ _ _ => id⟩
  | cons r others =>
    -- a creature of that modesty asks at most one thing
    obtain rfl : others = [] := List.eq_nil_of_length_eq_zero (by rw [List.length_cons] at hmodest; omega)
    rw [List.foldlM_cons] at hdone
    obtain ⟨done', hone, hpure⟩ := except_bind_inv hdone
    cases hpure
    rcases (interact_lasers rank ran r).of_ok hone with ⟨hleaves, told, htold, hnone⟩ | hattack
    · refine .inl ⟨hleaves, fun a b n hmem => ?_⟩
      rw [htold] at hmem
      exact (List.mem_append.mp hmem).resolve_right (hnone a b n)
    · exact .inr hattack

/-- **What becomes of a creature's laser in its turn**, if it is alive at the end. If it carries out an attack,
this is the only one that is told, and the laser is on the target with all its time; otherwise no attack is
told, and the laser has been counted down. -/
theorem turn_laser (hranked : s.world.Ranked) (hprograms : s.world.All fun c => c.program.Executable)
    {c c' : Creature} (hc : s.world.creatures.get? rank = some c) (hturn : s.turn rank = .ok s')
    (hc' : s'.world.creatures.get? rank = some c') :
    (∃ ran target victim l, s.Steps ran ∧ ran.Steps s' ∧ ran.world.creatures.get? target = some victim ∧
      c'.laser = some l ∧ l.target = victim.id ∧ l.targetBody = victim.body ∧
      l.timer = s.world.config.combat.laserTicks ∧ (∃ n, .attack c.id victim.id n ∈ s'.events) ∧
      ∀ a b n, .attack a b n ∈ s'.events → .attack a b n ∈ s.events ∨ b = victim.id) ∨
    (∃ target, c'.laser = (c.tickLaser (Physics.position? (s.feed rank).world.enclosure c.body) target).laser ∧
      ∀ l, c.laser = some l → target = Physics.position? (s.feed rank).world.enclosure l.targetBody) ∧
    ∀ a b n, .attack a b n ∈ s'.events → .attack a b n ∈ s.events := by
  have hthere := Table.mem_keys_of_get? hc
  have hle : rank.number ≤ s.world.lastRank := hranked.le rank (List.mem_append_left _ hthere)
  obtain ⟨requests, ran, done, hgenes, hdone, rfl⟩ := turn_inv hthere hturn
  obtain ⟨p, hp, hplives⟩ := (s.prepared_retains rank).lives rank c hc
  have hmodest := runGenes_modest hp (hplives.program_eq ▸ hprograms rank c hc) hgenes
  -- running the genes tells nothing
  have hbefore : ∀ a b n, .attack a b n ∈ ran.events → .attack a b n ∈ s.events := by
    obtain ⟨world, rfl, -⟩ := runGenes_quiet hgenes
    exact fun a b n hmem => attack_mem_prepared hmem
  rcases lasers_of_modest hmodest hdone with
    ⟨hleaves, htold⟩ | ⟨target, attacker, victim, hattacker, hvictim, rfl⟩
  · -- without an attack the laser is as it was when the genes were run
    have hsince : (s.prepared rank).world.Leaves (fun _ => True) (done.metabolize rank).world :=
      ((runGenes_leaves hgenes).trans hleaves).trans (metabolize_leaves _ rank)
    obtain ⟨es, hcourse, -⟩ := (s.prepared_steps rank).advances
    obtain ⟨p', hp', hlaser⟩ := hsince.held trivial (Nat.le_trans hle hcourse.lastRank_le) hc'
    refine .inr ⟨?_, fun a b n hmem => hbefore a b n (htold a b n (attack_mem_metabolize hmem))⟩
    rw [hlaser]
    exact laser_prepared hle hc hp'
  · have hran : s.Steps ran := (s.prepared_steps rank).trans (runGenes_steps hgenes)
    obtain ⟨es, hcourse, -⟩ := hran.advances
    obtain ⟨l, hl, htarget, hbody, htimer⟩ :=
      attack_laser hattacker hvictim (Nat.le_trans hle hcourse.lastRank_le) hc'
    obtain ⟨hnow, hothers⟩ := attack_told hattacker hvictim
    have hid : attacker.id = c.id := by
      obtain ⟨-, -, -, -, p', hp', hlives, -⟩ := runGenes_offers hp hgenes
      rw [hattacker, Option.some.injEq] at hp'
      rw [hp', hlives.id_eq, hplives.id_eq]
    have hrest := ((requests_ensures rank requests ran).of_ok hdone).trans (metabolize_steps _ rank)
    exact .inl ⟨ran, target, victim, l, hran, hrest, hvictim, hl, htarget, hbody, hcourse.frame.1 ▸ htimer,
      hid ▸ hnow, fun a b n hmem => (hothers a b n hmem).imp_left (hbefore a b n)⟩

end Stage

/-! ## Ticks -/

namespace World

/-- Whoever is alive later under the identity of a living creature is that creature. -/
theorem Awaits.same_of_id {w w' : World E} {es : List Event} (h : w.Awaits es) (hcourse : w.Course es w')
    {rank rank' : Rank} {c d : Creature} (hc : w.creatures.get? rank = some c)
    (hd : w'.creatures.get? rank' = some d) (hid : d.id = c.id) : rank' = rank ∧ c.Lives d := by
  rcases hcourse.origin hd with ⟨c', hc', hlives⟩ | ⟨hborn, -⟩
  · obtain rfl := rank_eq_of_id_eq h.coherent.living_nodup hc' hc (hlives.id_eq.symm.trans hid)
    rw [hc, Option.some.injEq] at hc'
    subst hc'
    exact ⟨rfl, hlives⟩
  · have hliving : c.id ∈ w.living := List.mem_map_of_mem (Table.mem_values_of_get? hc)
    exact absurd hid.symm ((List.nodup_append.mp h.distinct).2.2 _ hliving _ hborn)

/-- One turn among those of a tick: the turns before it lead to the stage `now`, it leads from there to `next`,
and the others lead on to the last stage. -/
structure TurnAmong (w : World E) (opened : World E) (stage : Stage E) (before : List Rank) (rank : Rank)
    (after : List Rank) (now next : Stage E) : Prop where
  turns_before : (Stage.start opened w.pendingEvents).turns before = .ok now
  turn         : now.turn rank = .ok next
  turns_after  : next.turns after = .ok stage
  not_before   : rank ∉ before
  not_after    : rank ∉ after
  ranked       : now.world.Ranked
  current      : now.Current
  programs     : now.world.All fun c => c.program.Executable

namespace TurnAmong

variable {w opened : World E} {stage now next : Stage E} {before after : List Rank} {rank : Rank}

theorem steps_before (h : w.TurnAmong opened stage before rank after now next) :
    (Stage.start opened w.pendingEvents).Steps now := (Stage.turns_ensures _ _).of_ok h.turns_before

theorem steps (h : w.TurnAmong opened stage before rank after now next) : now.Steps next :=
  (Stage.turn_ensures _ _).of_ok h.turn

theorem steps_after (h : w.TurnAmong opened stage before rank after now next) : next.Steps stage :=
  (Stage.turns_ensures _ _).of_ok h.turns_after

end TurnAmong

namespace Cleared

variable {w opened w' : World E} {t : TickCall} {stage : Stage E} {newborn events : List Event}

theorem course_to (h : w.Cleared t opened stage newborn w' events) {s : Stage E}
    (hsteps : (Stage.start opened w.pendingEvents).Steps s) : ∃ es, w.counted.Course es s.world := by
  obtain ⟨es, hcourse, -⟩ := hsteps.advances
  exact ⟨_, h.course_opened.trans hcourse⟩

/-- Every creature that is alive before a tick has a turn among those of the tick. -/
theorem turn_among (h : w.Cleared t opened stage newborn w' events) (horderly : w.Orderly)
    {before after : List Rank} {rank : Rank} (hsplit : w.creatures.keys = before ++ rank :: after) :
    ∃ now next, w.TurnAmong opened stage before rank after now next := by
  obtain ⟨now, hnow, hlater⟩ := Stage.turns_append_inv (hsplit ▸ h.turns)
  obtain ⟨next, hturn, hafter⟩ : ∃ next, now.turn rank = .ok next ∧ next.turns after = .ok stage := by
    unfold Stage.turns at hlater
    rw [List.foldlM_cons] at hlater
    exact except_bind_inv hlater
  -- every creature has one turn in a tick, so it is neither among those before it nor among those after it
  obtain ⟨-, hfrom, hdisjoint⟩ := List.nodup_append.mp (hsplit ▸ horderly.ranked.creatures_nodup)
  obtain ⟨hranked, hcurrent, -⟩ := during_tick horderly.ranked h.opening hnow
  obtain ⟨es, hcourse⟩ := h.course_to ((Stage.turns_ensures _ before).of_ok hnow)
  have hprograms : w.counted.All fun c => c.program.Executable := horderly.executable
  exact ⟨now, next, hnow, hturn, hafter, fun hmem => hdisjoint _ hmem _ List.mem_cons_self rfl,
    (List.nodup_cons.mp hfrom).1, hranked, hcurrent, hprograms.course executable_vital hcourse⟩

/-- Whoever is no newcomer at the end of a tick was alive before it. -/
theorem before (h : w.Cleared t opened stage newborn w' events) {rank : Rank}
    (hle : rank.number ≤ w.lastRank) {d : Creature} (hd : w'.creatures.get? rank = some d) :
    ∃ c, w.creatures.get? rank = some c ∧ c.Lives d := by
  obtain ⟨es, -, -, hrest⟩ := h.rest (.refl _) h.steps
  have hwhole : w.counted.Course _ w' := h.course_opened.trans hrest
  rcases hwhole.origin hd with hlived | ⟨-, hnew⟩
  · exact hlived
  · exact absurd (show w.lastRank < rank.number from hnew) (Nat.not_lt.mpr hle)

/-- Whoever is alive before a tick and after it is alive at every stage on the way. -/
theorem alive_at (h : w.Cleared t opened stage newborn w' events) (hranked : w.Ranked) {s : Stage E}
    (hsteps : (Stage.start opened w.pendingEvents).Steps s) (hsteps' : s.Steps stage) {rank : Rank}
    {c : Creature} (hc : w.creatures.get? rank = some c)
    (hthere : (w'.creatures.get? rank).isSome = true) :
    ∃ d, s.world.creatures.get? rank = some d ∧ c.Lives d := by
  obtain ⟨d', hd'⟩ := Option.isSome_iff_exists.mp hthere
  obtain ⟨es, hcourse⟩ := h.course_to hsteps
  obtain ⟨fs, -, -, hrest⟩ := h.rest hsteps hsteps'
  have hle : rank.number ≤ w.lastRank := hranked.le rank (List.mem_append_left _ (Table.mem_keys_of_get? hc))
  -- whoever is there in the end was there at this stage, and not as a newcomer
  rcases hrest.origin hd' with ⟨d, hd, -⟩ | ⟨-, hnew⟩
  · rcases hcourse.origin hd with ⟨c₀, hc₀, hlives⟩ | ⟨-, hnew⟩
    · obtain rfl : c = c₀ := Option.some.inj (hc.symm.trans hc₀)
      exact ⟨d, hd, hlives⟩
    · exact absurd (show w.lastRank < rank.number from hnew) (Nat.not_lt.mpr hle)
  · exact absurd hnew (Nat.not_lt.mpr (Nat.le_trans hle hcourse.lastRank_le))

/-- After its owner's turn a laser is left alone. -/
theorem laser_since (h : w.Cleared t opened stage newborn w' events) {before after : List Rank} {rank : Rank}
    {now next : Stage E} (hamong : w.TurnAmong opened stage before rank after now next)
    (hle : rank.number ≤ now.world.lastRank) {c' : Creature} (hc' : w'.creatures.get? rank = some c') :
    ∃ d, next.world.creatures.get? rank = some d ∧ c'.laser = d.laser := by
  obtain ⟨es, hcourse, -⟩ := hamong.steps.advances
  have hturns : next.world.Leaves (· ∉ after) stage.world := (next.turns_leave after).of_ok hamong.turns_after
  exact (hturns.trans ((refill_leaves _).of_ok h.refill)).held hamong.not_after
    (Nat.le_trans hle hcourse.lastRank_le) hc'

/-- **An attack that a tick tells of** leaves its attacker, if that is alive after the tick, with a laser on the
target that has all its time. -/
theorem laser_of_attack (h : w.Cleared t opened stage newborn w' events) (horderly : w.Orderly)
    {owner prey : Rank} {c' d' : Creature} (hc' : w'.creatures.get? owner = some c')
    (hd' : w'.creatures.get? prey = some d') {n : Nat} (hattack : .attack c'.id d'.id n ∈ events) :
    ∃ l, c'.laser = some l ∧ l.target = d'.id ∧ l.targetBody = d'.body ∧
      l.timer = w.config.combat.laserTicks := by
  obtain ⟨told, rfl, hcensus⟩ := h.told
  have hstage := (List.mem_append.mp hattack).resolve_right fun hmem => hcensus _ hmem
  have hpending : .attack c'.id d'.id n ∉ (Stage.start opened w.pendingEvents).events := fun hmem =>
    horderly.pending _ hmem
  obtain ⟨before, rank, after, s, s', hsplit, hs, hturn, htold, hnew⟩ :=
    Stage.mem_events_turns h.turns hstage hpending
  obtain ⟨now, next, hamong⟩ := h.turn_among horderly hsplit
  obtain rfl : s = now := Except.ok.inj (hs.symm.trans hamong.turns_before)
  obtain rfl : s' = next := Except.ok.inj (hturn.symm.trans hamong.turn)
  -- the attacker is the creature whose turn it is
  obtain ⟨p, v, hp, -, hid, -, -⟩ :=
    Stage.attack_mem_turn hamong.ranked hamong.current hamong.programs hturn htold hnew
  have hthere : rank ∈ s.world.creatures.keys := (s.prepared_retains rank).keys_eq ▸ Table.mem_keys_of_get? hp
  obtain ⟨c, hc⟩ := Option.isSome_iff_exists.mp (Table.mem_keys_iff_isSome.mp hthere)
  obtain ⟨p', hp', hplives⟩ := (s.prepared_retains rank).lives rank c hc
  obtain rfl : p = p' := Option.some.inj (hp.symm.trans hp')
  obtain ⟨es, -, hawaits, hcourse⟩ := h.rest hamong.steps_before (hamong.steps.trans hamong.steps_after)
  obtain ⟨rfl, -⟩ := hawaits.same_of_id hcourse hc hc' (hid.trans hplives.id_eq)
  obtain ⟨d, hd, hlaser⟩ := h.laser_since hamong (hamong.ranked.le owner (List.mem_append_left _ hthere)) hc'
  rcases Stage.turn_laser hamong.ranked hamong.programs hc hturn hd with
    ⟨ran, target, victim, l, hran, hran', hvictim, hl, htarget, hbody, htimer, -, honly⟩ | ⟨-, hnone⟩
  · have hvictimId : d'.id = victim.id := (honly _ _ _ htold).resolve_left hnew
    -- who is alive under the identity of the target is the target
    obtain ⟨fs, -, hawaits', hcourse'⟩ :=
      h.rest (hamong.steps_before.trans hran) (hran'.trans hamong.steps_after)
    obtain ⟨-, hvictimLives⟩ := hawaits'.same_of_id hcourse' hvictim hd' hvictimId
    obtain ⟨gs, hbefore⟩ := h.course_to hamong.steps_before
    exact ⟨l, hlaser.trans hl, htarget.trans hvictimId.symm, hbody.trans hvictimLives.body_eq.symm,
      hbefore.frame.1 ▸ htimer⟩
  · exact absurd (hnone _ _ _ htold) hnew

/-- **A tick without an attack** counts the laser of a creature down once, at the places where its bodies are
then, if they are there. -/
theorem laser_counted (h : w.Cleared t opened stage newborn w' events) (horderly : w.Orderly) {owner : Rank}
    {c c' : Creature} (hc : w.creatures.get? owner = some c) (hc' : w'.creatures.get? owner = some c')
    (hquiet : ∀ b n, .attack c.id b n ∉ events) :
    ∃ own target, c'.laser = (c.tickLaser own target).laser ∧ own.isSome = true ∧
      ∀ l, c.laser = some l → ∀ prey d, w.creatures.get? prey = some d → d.body = l.targetBody →
        (w'.creatures.get? prey).isSome = true → target.isSome = true := by
  obtain ⟨told, rfl, -⟩ := h.told
  have hthere := Table.mem_keys_of_get? hc
  have hle : owner.number ≤ w.lastRank := horderly.ranked.le owner (List.mem_append_left _ hthere)
  have hsurvives : (w'.creatures.get? owner).isSome = true := Option.isSome_iff_exists.mpr ⟨c', hc'⟩
  obtain ⟨before, after, hsplit⟩ := List.append_of_mem hthere
  obtain ⟨now, next, hamong⟩ := h.turn_among horderly hsplit
  have hafter := hamong.steps.trans hamong.steps_after
  obtain ⟨es, hcourse⟩ := h.course_to hamong.steps_before
  -- before its turn nothing touches the laser, nor after it
  obtain ⟨c₁, hc₁, hlives⟩ := h.alive_at horderly.ranked hamong.steps_before hafter hc hsurvives
  have hlaser₁ : c₁.laser = c.laser := by
    have hturns : opened.Leaves (· ∉ before) now.world := (Stage.turns_leave _ before).of_ok hamong.turns_before
    obtain ⟨c₀, hc₀, hlaser⟩ := (h.leaves_opened.trans hturns).held hamong.not_before hle hc₁
    obtain rfl : c = c₀ := Option.some.inj (hc.symm.trans hc₀)
    exact hlaser
  obtain ⟨d, hd, hlaser⟩ := h.laser_since hamong (Nat.le_trans hle hcourse.lastRank_le) hc'
  rcases Stage.turn_laser hamong.ranked hamong.programs hc₁ hamong.turn hd with
    ⟨-, -, victim, -, -, -, -, -, -, -, -, ⟨n, hattack⟩, -⟩ | ⟨⟨target, hcounted, htarget⟩, -⟩
  · -- an attack would have been told
    obtain ⟨fs, -, hfs⟩ := hamong.steps_after.advances
    rw [hlives.id_eq] at hattack
    exact absurd (List.mem_append_left _ (hfs ▸ List.mem_append_left _ hattack)) (hquiet _ n)
  · -- whoever survives the tick has a body when the laser is counted down
    have hfed := hamong.steps_before.trans (now.feed_steps owner)
    have hfed' := (Stage.steps_turn_of_feed (Table.mem_keys_of_get? hc₁) hamong.turn).trans hamong.steps_after
    obtain ⟨fs, -, hawaits, -⟩ := h.rest hfed hfed'
    have hplace {rank : Rank} {e : Creature} (he : w.creatures.get? rank = some e)
        (hthere : (w'.creatures.get? rank).isSome = true) :
        (Physics.position? (now.feed owner).world.enclosure e.body).isSome = true := by
      obtain ⟨f, hf, hflives⟩ := h.alive_at horderly.ranked hfed hfed' he hthere
      rw [← hflives.body_eq]
      exact hawaits.coherent.position?_isSome hf
    refine ⟨_, target, hlaser.trans (hcounted.trans (Creature.tickLaser_congr hlaser₁ _ _)), ?_, ?_⟩
    · rw [hlives.body_eq]
      exact hplace hc hsurvives
    · intro l hl prey d₀ hd₀ hbody hpreySurvives
      rw [htarget l (hlaser₁.trans hl), ← hbody]
      exact hplace hd₀ hpreySurvives

end Cleared

/-! ## The time of a laser -/

/-- The creature of rank `owner`, which was `c` then, attacked that of rank `prey`, which was `d`, so many ticks
ago, and has not attacked since. Whatever has become of them, if the first is alive, any laser that it holds is
that of the attack and has as much less time; and as long as that is not over and the other is alive, it does
hold one. -/
structure Holds (limit : Nat) (owner prey : Rank) (c d : Creature) (passed : Nat) (w : World E) : Prop where
  owner_le    : owner.number ≤ w.lastRank
  prey_le     : prey.number ≤ w.lastRank
  owner_lives : ∀ c', w.creatures.get? owner = some c' → c.Lives c'
  prey_lives  : ∀ d', w.creatures.get? prey = some d' → d.Lives d'
  counted     : ∀ c' l, w.creatures.get? owner = some c' → c'.laser = some l →
    l.target = d.id ∧ l.targetBody = d.body ∧ l.timer + passed = limit
  held        : ∀ c', w.creatures.get? owner = some c' → passed ≤ limit →
    (w.creatures.get? prey).isSome = true → c'.laser.isSome = true

variable {w opened w' : World E} {t : TickCall} {stage : Stage E} {newborn events : List Event}
  {limit passed : Nat} {owner prey : Rank} {c d : Creature}

/-- **An attack leads there.** -/
theorem Cleared.holds (h : w.Cleared t opened stage newborn w' events) (horderly : w.Orderly)
    (hranked : w'.Ranked) (hc : w'.creatures.get? owner = some c) (hd : w'.creatures.get? prey = some d)
    {n : Nat} (hattack : .attack c.id d.id n ∈ events) :
    w'.Holds w.config.combat.laserTicks owner prey c d 0 := by
  obtain ⟨l, hl, htarget, hbody, htimer⟩ := h.laser_of_attack horderly hc hd hattack
  have hsame {c' : Creature} (hc' : w'.creatures.get? owner = some c') : c = c' :=
    Option.some.inj (hc.symm.trans hc')
  refine ⟨hranked.le _ (List.mem_append_left _ (Table.mem_keys_of_get? hc)),
    hranked.le _ (List.mem_append_left _ (Table.mem_keys_of_get? hd)), fun c' hc' => ?_, fun d' hd' => ?_,
    -- at the end of the tick of the attack the laser has all of its time, and nobody else stands under
    -- these ranks
    fun c' l' hc' hl' => ?_, fun c' hc' _ _ => ?_⟩
  · obtain rfl := hsame hc'
    exact .refl c
  · obtain rfl : d = d' := Option.some.inj (hd.symm.trans hd')
    exact .refl d
  · obtain rfl := hsame hc'
    obtain rfl : l = l' := Option.some.inj (hl.symm.trans hl')
    exact ⟨htarget, hbody, htimer⟩
  · obtain rfl := hsame hc'
    exact Option.isSome_iff_exists.mpr ⟨l, hl⟩

/-- **A tick without an attack leads on.** -/
theorem Holds.tick (hholds : w.Holds limit owner prey c d passed)
    (h : w.Cleared t opened stage newborn w' events) (horderly : w.Orderly)
    (hquiet : ∀ b n, .attack c.id b n ∉ events) : w'.Holds limit owner prey c d (passed + 1) := by
  obtain ⟨es, -, -, hrest⟩ := h.rest (.refl _) h.steps
  have hlast : w.lastRank ≤ w'.lastRank := (h.course_opened.trans hrest).lastRank_le
  -- whoever is alive after the tick was so before it, and has counted its laser down once
  have hcounting {c' : Creature} (hc' : w'.creatures.get? owner = some c') : ∃ c₁ own target,
      w.creatures.get? owner = some c₁ ∧ c₁.Lives c' ∧ c'.laser = (c₁.tickLaser own target).laser ∧
      own.isSome = true ∧
      ∀ l, c₁.laser = some l → (w'.creatures.get? prey).isSome = true → target.isSome = true := by
    obtain ⟨c₁, hc₁, hlives⟩ := h.before hholds.owner_le hc'
    have hid := (hholds.owner_lives c₁ hc₁).id_eq
    obtain ⟨own, target, hlaser, hown, htarget⟩ :=
      h.laser_counted horderly hc₁ hc' fun b n => hid ▸ hquiet b n
    refine ⟨c₁, own, target, hc₁, hlives, hlaser, hown, fun l hl hthere => ?_⟩
    obtain ⟨d', hd'⟩ := Option.isSome_iff_exists.mp hthere
    obtain ⟨d₁, hd₁, -⟩ := h.before hholds.prey_le hd'
    refine htarget l hl prey d₁ hd₁ ?_ hthere
    rw [(hholds.counted c₁ l hc₁ hl).2.1, (hholds.prey_lives d₁ hd₁).body_eq]
  refine ⟨Nat.le_trans hholds.owner_le hlast, Nat.le_trans hholds.prey_le hlast, fun c' hc' => ?_,
    fun d' hd' => ?_, fun c' l' hc' hl' => ?_, fun c' hc' hpassed hthere => ?_⟩
  · obtain ⟨c₁, hc₁, hlives⟩ := h.before hholds.owner_le hc'
    exact (hholds.owner_lives c₁ hc₁).trans hlives
  · obtain ⟨d₁, hd₁, hlives⟩ := h.before hholds.prey_le hd'
    exact (hholds.prey_lives d₁ hd₁).trans hlives
  · obtain ⟨c₁, own, target, hc₁, -, hlaser, -⟩ := hcounting hc'
    obtain ⟨-, l, hl, htarget, hbody, htimer⟩ := Creature.tickLaser_inv (hlaser.symm.trans hl')
    obtain ⟨htarget', hbody', htimer'⟩ := hholds.counted c₁ l hc₁ hl
    exact ⟨htarget.trans htarget', hbody.trans hbody', by omega⟩
  · obtain ⟨c₁, own, target, hc₁, -, hlaser, hown, htarget⟩ := hcounting hc'
    obtain ⟨d', hd'⟩ := Option.isSome_iff_exists.mp hthere
    obtain ⟨d₁, hd₁, -⟩ := h.before hholds.prey_le hd'
    have hsome := hholds.held c₁ hc₁ (by omega) (Option.isSome_iff_exists.mpr ⟨d₁, hd₁⟩)
    obtain ⟨l, hl⟩ := Option.isSome_iff_exists.mp hsome
    have htimer := (hholds.counted c₁ l hc₁ hl).2.2
    rw [hlaser]
    exact Creature.tickLaser_isSome hl (by omega) hown (htarget l hl hthere)

end World

/-! ## Runs -/

namespace History

variable {config : Config} {enclosure : E} {entropy : BitVec 256} {ticks later : List TickCall} {t : TickCall}
  {h h' h'' : History E} {limit : Nat} {owner prey : Rank} {c d : Creature}

/-- Along ticks without an attack of the owner the time of its laser passes. -/
theorem holds_run (hempty : Physics.handles enclosure = [])
    (hrun : run config enclosure entropy (ticks.map .tick) = .ok h) (hholds : h.world.Holds limit owner prey c d 0)
    (hlater : run config enclosure entropy ((ticks ++ later).map .tick) = .ok h')
    (hdistinct : h'.drawn.Nodup) (hquiet : ∀ b n, .attack c.id b n ∉ h'.log.drop h.log.length) :
    h.log.length ≤ h'.log.length ∧ h'.world.Holds limit owner prey c d later.length := by
  -- the induction is on the later ticks, and the last of them is the next
  induction later using List.reverseRecOn generalizing h' with
  | nil =>
    rw [List.append_nil] at hlater
    obtain rfl : h = h' := Except.ok.inj (hrun.symm.trans hlater)
    exact ⟨Nat.le_refl _, hholds⟩
  | append_singleton later t ih =>
    rw [← List.append_assoc] at hlater
    obtain ⟨h₁, events, w', hrun₁, htick, rfl⟩ := run_ticks_inv hlater
    obtain ⟨hle, hbefore⟩ := ih hrun₁ (distinct_before htick hdistinct) fun b n hmem =>
      hquiet b n (((List.sublist_append_left _ _).drop _).subset hmem)
    obtain ⟨opened, stage, newborn, hcleared⟩ := cleared_tick hempty hrun₁ htick hdistinct
    have hnow : ∀ b n, .attack c.id b n ∉ events := fun b n hmem => by
      refine hquiet b n ?_
      rw [List.drop_append_of_le_length hle]
      exact List.mem_append_right _ hmem
    refine ⟨?_, ?_⟩
    · rw [List.length_append]
      omega
    · have hlength : (later ++ [t]).length = later.length + 1 := List.length_append
      rw [hlength]
      exact hbefore.tick hcleared (orderly hrun₁) hnow

end History

/-- **Lasers follow their targets and run out.** Among distinct identities, after every tick of every run, each
laser of a living creature has at most the configured time left, and it is on a living creature, whose identity
and body it names, or this body is gone for good, and then the same tick has told of the death. If the tick told
of an attack between two creatures that are alive after it, and the run goes on without another attack of the
first, then as long as both are alive it holds its laser for so many further ticks as were configured, each time
with one less left, and after one tick more it holds none. -/
theorem lasers_follow_and_run_out {config : Config} {enclosure : E} {entropy : BitVec 256}
    {ticks : List TickCall} {t : TickCall} {h h' : History E} {events : List Event}
    (hempty : Physics.handles enclosure = [])
    (hrun : History.run config enclosure entropy (ticks.map .tick) = .ok h)
    (htick : h.world.tickBy t = .ok (events, h'.world))
    (hafter : History.run config enclosure entropy ((ticks ++ [t]).map .tick) = .ok h')
    (hdistinct : h'.drawn.Nodup) :
    (∀ rank c l, h'.world.creatures.get? rank = some c → c.laser = some l →
      l.timer ≤ config.combat.laserTicks ∧
      (l.Follows h'.world ∨ l.Lost h'.world.enclosure ∧ ∃ age n, .death l.target age n ∈ events)) ∧
    ∀ owner prey c d n, h'.world.creatures.get? owner = some c → h'.world.creatures.get? prey = some d →
      .attack c.id d.id n ∈ events → ∀ later h'' c'',
        History.run config enclosure entropy ((ticks ++ [t] ++ later).map .tick) = .ok h'' →
        h''.drawn.Nodup → (∀ b m, .attack c.id b m ∉ h''.log.drop h'.log.length) →
        h''.world.creatures.get? owner = some c'' →
        (later.length ≤ config.combat.laserTicks → (h''.world.creatures.get? prey).isSome = true →
          ∃ l, c''.laser = some l ∧ l.target = d.id ∧ l.targetBody = d.body ∧
            l.timer = config.combat.laserTicks - later.length) ∧
        (config.combat.laserTicks < later.length → c''.laser = none) := by
  -- the tick is the last one of the run
  obtain ⟨h₀, events', w', hrun₀, htick₀, rfl⟩ := History.run_ticks_inv hafter
  obtain rfl : h = h₀ := Except.ok.inj (hrun.symm.trans hrun₀)
  obtain rfl : events = events' := congrArg Prod.fst (Except.ok.inj (htick.symm.trans htick₀))
  obtain ⟨opened, stage, newborn, hcleared⟩ := History.cleared_tick hempty hrun htick hdistinct
  have hconfig : h.world.config.combat.laserTicks = config.combat.laserTicks := by rw [History.config_run hrun]
  have haims := History.aiming_run hempty hrun (History.distinct_before htick hdistinct)
  refine ⟨fun rank c l => hcleared.aiming hconfig.le haims rank c l trivial, ?_⟩
  · intro owner prey c d n hc hd hattack later h'' c'' hlater hdistinct' hquiet hc''
    have hholds := hcleared.holds (History.orderly hrun) (History.ranked_run hafter) hc hd hattack
    rw [hconfig] at hholds
    obtain ⟨-, hheld⟩ := History.holds_run hempty hafter hholds hlater hdistinct' hquiet
    refine ⟨fun hwithin hthere => ?_, fun hover => ?_⟩
    · obtain ⟨l, hl⟩ := Option.isSome_iff_exists.mp (hheld.held c'' hc'' hwithin hthere)
      obtain ⟨htarget, hbody, htimer⟩ := hheld.counted c'' l hc'' hl
      exact ⟨l, hl, htarget, hbody, by omega⟩
    · cases hl : c''.laser with
      | none => rfl
      | some l =>
        have htimer := (hheld.counted c'' l hc'' hl).2.2
        omega

/-- A world as small as before, in which a laser has a single tick. -/
def Config.flashing : Config := { Config.cramped with combat := { laserTicks := 1 } }

/-- The first of two creatures attacks the second in the first tick. It holds its laser after that tick and
after the second, and not after the third. -/
theorem lasers_follow_and_run_out_flashing :
    ∃ (h h' h₁ h₂ : History Enclosure) (events : List Event) (c d c₁ c₂ : Creature),
      History.run .flashing (Enclosure.empty 20.0 20.0) 0 ([].map .tick) = .ok h ∧
      h.world.tickBy .update = .ok (events, h'.world) ∧
      History.run .flashing (Enclosure.empty 20.0 20.0) 0 ([.update].map .tick) = .ok h' ∧ h'.drawn.Nodup ∧
      h'.world.creatures.get? ⟨1⟩ = some c ∧ h'.world.creatures.get? ⟨2⟩ = some d ∧
      .attack c.id d.id 1 ∈ events ∧
      (∃ l, c.laser = some l ∧ l.timer ≤ 1 ∧
        (l.Follows h'.world ∨ l.Lost h'.world.enclosure ∧ ∃ age n, .death l.target age n ∈ events)) ∧
      History.run .flashing (Enclosure.empty 20.0 20.0) 0 ([.update, .update].map .tick) = .ok h₁ ∧
      h₁.world.creatures.get? ⟨1⟩ = some c₁ ∧
      (∃ l, c₁.laser = some l ∧ l.target = d.id ∧ l.targetBody = d.body ∧ l.timer = 0) ∧
      History.run .flashing (Enclosure.empty 20.0 20.0) 0 ([.update, .update, .update].map .tick) = .ok h₂ ∧
      h₂.world.creatures.get? ⟨1⟩ = some c₂ ∧ c₂.laser = none := by
  -- what happens in the three ticks is computed, and how the laser fares is taken from the theorem
  have hcheck : (History.run .flashing (Enclosure.empty 20.0 20.0) 0 []).toOption.any (fun h =>
      (h.call (.tick .update)).toOption.any fun h' => (h'.call (.tick .update)).toOption.any fun h₁ =>
        (h₁.call (.tick .update)).toOption.any fun h₂ =>
          (h'.world.creatures.get? ⟨1⟩).any fun c => (h'.world.creatures.get? ⟨2⟩).any fun d =>
            (h₁.world.creatures.get? ⟨1⟩).any fun _ => (h₂.world.creatures.get? ⟨1⟩).any fun _ =>
              c.laser.any fun _ =>
                decide (.attack c.id d.id 1 ∈ h'.log.drop h.log.length ∧
                  h'.drawn.Nodup ∧ h₁.drawn.Nodup ∧ h₂.drawn.Nodup ∧
                  h₁.log.drop h'.log.length = [] ∧ h₂.log.drop h'.log.length = [] ∧
                  (h₁.world.creatures.get? ⟨2⟩).isSome)) = true := by
    decide +kernel
  obtain ⟨h, hrun, hcheck⟩ := except_any_inv hcheck
  obtain ⟨h', hcall, hcheck⟩ := except_any_inv hcheck
  obtain ⟨h₁, hcall₁, hcheck⟩ := except_any_inv hcheck
  obtain ⟨h₂, hcall₂, hcheck⟩ := except_any_inv hcheck
  obtain ⟨c, hc, hcheck⟩ := (Option.any_eq_true _ _).mp hcheck
  obtain ⟨d, hd, hcheck⟩ := (Option.any_eq_true _ _).mp hcheck
  obtain ⟨c₁, hc₁, hcheck⟩ := (Option.any_eq_true _ _).mp hcheck
  obtain ⟨c₂, hc₂, hcheck⟩ := (Option.any_eq_true _ _).mp hcheck
  obtain ⟨l, hl, hcheck⟩ := (Option.any_eq_true _ _).mp hcheck
  obtain ⟨hattack, hdistinct, hdistinct₁, hdistinct₂, hquiet₁, hquiet₂, hprey⟩ := of_decide_eq_true hcheck
  obtain ⟨events, w', htick, rfl⟩ := History.call_tick_inv hcall
  rw [List.drop_left] at hattack
  have hrun' := History.run_call hrun hcall
  have hrun₁ := History.run_call hrun' hcall₁
  have hrun₂ := History.run_call hrun₁ hcall₂
  obtain ⟨haims, hcountdown⟩ := @lasers_follow_and_run_out Enclosure _ _ .flashing _ 0 [] .update h _ events rfl
    hrun htick hrun' hdistinct
  have hpassing := hcountdown ⟨1⟩ ⟨2⟩ c d 1 hc hd hattack
  have hquiet {e : Event} {log : List Event} (h : log = []) : e ∉ log := h ▸ List.not_mem_nil
  obtain ⟨hheld, -⟩ := hpassing [.update] h₁ c₁ hrun₁ hdistinct₁ (fun _ _ => hquiet hquiet₁) hc₁
  obtain ⟨-, hgone⟩ := hpassing [.update, .update] h₂ c₂ hrun₂ hdistinct₂ (fun _ _ => hquiet hquiet₂) hc₂
  obtain ⟨htimer, haim⟩ := haims ⟨1⟩ c l hc hl
  exact ⟨h, _, h₁, h₂, events, c, d, c₁, c₂, hrun, htick, hrun', hdistinct, hc, hd, hattack,
    ⟨l, hl, htimer, haim⟩, hrun₁, hc₁, hheld (by decide) hprey, hrun₂, hc₂, hgone (by decide)⟩

end Vivarium
