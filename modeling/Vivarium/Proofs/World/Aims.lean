import Vivarium.Proofs.World.Lasers

/-!
# What lasers are on

A laser names its target twice, by identity and by body, and keeps both while the target may die. Bodies are
known by handles that are not used again, so a laser can never come to be on somebody else: it is on the living
creature that it was set on, or the body is gone for good. When its owner's turn comes, a laser whose body is
gone is released. So one that is left at the end of a tick lost its target after that turn, or by it, and the
same tick has told of the death.

Main results: `History.aiming_run`, `Cleared.aiming`.
-/

namespace Vivarium

/-- One of the events tells of the death of this creature. -/
def ToldDead (es : List Event) (id : Ident) : Prop := ∃ age tick, Event.death id age tick ∈ es

variable {E : Type} [Physics E] [LawfulPhysics E]

namespace World

/-! ## Births yet to come -/

/-- Tables are in step, and nobody whose birth the events tell is alive yet. -/
structure Awaits (w : World E) (es : List Event) : Prop where
  coherent : w.Coherent []
  distinct : (w.living ++ births es).Nodup

namespace Awaits

variable {w w' : World E} {es fs : List Event}

/-- Who awaits all of the events awaits the first of them. -/
theorem left (h : w.Awaits (es ++ fs)) : w.Awaits es := by
  refine ⟨h.coherent, ?_⟩
  have hdistinct := h.distinct
  rw [births_append, ← List.append_assoc] at hdistinct
  exact (List.nodup_append.mp hdistinct).1

/-- After the first of the events the others are still to come. -/
theorem course (h : w.Awaits (es ++ fs)) (hcourse : w.Course es w') : w'.Awaits fs := by
  refine ⟨h.coherent.course hcourse h.left.distinct, ?_⟩
  have hdistinct := h.distinct
  rw [births_append, ← List.append_assoc] at hdistinct
  rw [hcourse.living_eq h.coherent.toRanked h.left.distinct]
  exact hdistinct.sublist ((replay_sublist es w.living).append_right _)

end Awaits

end World

/-- From one stage to another nobody is born under an identity that is in use. -/
def Stage.Clear (s s' : Stage E) : Prop := ∃ told, s'.events = s.events ++ told ∧ s.world.Awaits told

/-- So it is on both parts of the way. -/
theorem Stage.Clear.split {s s' s'' : Stage E} (h : s.Clear s'') (hsteps : s.Steps s')
    (hsteps' : s'.Steps s'') : s.Clear s' ∧ s'.Clear s'' := by
  obtain ⟨told, htold, hawaits⟩ := h
  obtain ⟨es, hcourse, hes⟩ := hsteps.advances
  obtain ⟨fs, -, hfs⟩ := hsteps'.advances
  obtain rfl : told = es ++ fs := by
    rw [hfs, hes, List.append_assoc] at htold
    exact (List.append_cancel_left htold).symm
  exact ⟨⟨es, hes, hawaits.left⟩, ⟨fs, hfs, hawaits.course hcourse⟩⟩

/-- The body of a living creature is there. -/
theorem World.Coherent.mem_handles_body {w : World E} (h : w.Coherent []) {rank : Rank} {c : Creature}
    (hc : w.creatures.get? rank = some c) : c.body ∈ Physics.handles w.enclosure := by
  have hvalue : c.body ∈ w.creatures.values.map (·.body) := List.mem_map_of_mem (Table.mem_values_of_get? hc)
  rw [h.handles_perm.mem_iff, List.nil_append]
  exact List.mem_append_left _ hvalue

/-! ## Targets -/

namespace Laser

variable {l : Laser} {told told' : Ident → Prop} {w w' : World E} {es : List Event}

/-- The laser is on a living creature: its target, in its body. -/
def Follows (l : Laser) (w : World E) : Prop :=
  ∃ rank c, w.creatures.get? rank = some c ∧ c.id = l.target ∧ c.body = l.targetBody

/-- The body that the laser was on is gone, and its handle will not be given out again. -/
structure Lost (l : Laser) (e : E) : Prop where
  gone  : l.targetBody ∉ Physics.handles e
  spent : Physics.Spent e l.targetBody

/-- The laser is on its target, or has lost it, and then this was told. -/
def Tracks (l : Laser) (told : Ident → Prop) (w : World E) : Prop :=
  l.Follows w ∨ l.Lost w.enclosure ∧ told l.target

/-- A laser that tracks its target does so whatever else is told. -/
theorem Tracks.mono (h : l.Tracks told w) (himp : ∀ id, told id → told' id) : l.Tracks told' w :=
  h.imp_right fun hlost => ⟨hlost.1, himp _ hlost.2⟩

/-- Whoever lives on keeps identity and body. -/
theorem Follows.quiet (h : l.Follows w) (hquiet : w.Quiet w') : l.Follows w' := by
  obtain ⟨rank, c, hc, hid, hbody⟩ := h
  obtain ⟨d, hd, hlives⟩ := hquiet.lives rank c hc
  exact ⟨rank, d, hd, hlives.id_eq.trans hid, hlives.body_eq.trans hbody⟩

/-- The body of the target is there. -/
theorem Follows.mem (h : l.Follows w) (hcoherent : w.Coherent []) :
    l.targetBody ∈ Physics.handles w.enclosure := by
  obtain ⟨rank, c, hc, -, hbody⟩ := h
  rw [← hbody]
  exact hcoherent.mem_handles_body hc

namespace Lost

variable {e e' : E}

/-- As long as the same bodies are there, what is lost stays lost. -/
theorem of_sameBodies (h : l.Lost e) (hsame : Physics.SameBodies e e') : l.Lost e' :=
  ⟨hsame.handles_eq ▸ h.gone, (hsame.spent_iff _).mpr h.spent⟩

/-- A new body gets a handle of its own. -/
theorem addBody (h : l.Lost e) {radius : Float} {position : Vec} {layer : Layer}
    (hfresh : (Physics.addBody e radius position layer).1 ∉ Physics.handles e) :
    l.Lost (Physics.addBody e radius position layer).2 := by
  refine ⟨?_, (Physics.spent_addBody hfresh).mpr (.inr h.spent)⟩
  rw [Physics.handles_addBody hfresh, List.mem_append, List.mem_singleton]
  rintro (hmem | heq)
  · exact h.gone hmem
  · exact Physics.not_spent_addBody e radius position layer (heq ▸ h.spent)

/-- And to take out some body brings none back. -/
theorem removeBody (h : l.Lost e) (body : Handle) : l.Lost (Physics.removeBody e body) := by
  refine ⟨fun hmem => h.gone ?_, (Physics.spent_removeBody e _ _).mpr h.spent⟩
  rw [Physics.handles_removeBody] at hmem
  exact List.mem_of_mem_filter hmem

/-- **What is lost stays lost.** -/
theorem change (h : l.Lost w.enclosure) (hcoherent : w.Coherent []) (hchange : w.Change es w') :
    l.Lost w'.enclosure := by
  -- a lost body is never given out again, and whatever is added gets one of its own
  cases hchange with
  | quiet hquiet => exact h.of_sameBodies hquiet.sameBodies
  | struck _ _ hquiet => exact h.of_sameBodies hquiet.sameBodies
  | pellet hspawn =>
    obtain ⟨source, -, -, rfl⟩ := World.spawnPellet_inv hspawn
    exact h.addBody (hcoherent.fresh_body Pellet.radius _ .food)
  | eaten _ hremoved hquiet =>
    obtain ⟨-, rfl⟩ := World.removePellet_inv hremoved
    exact (h.removeBody _).of_sameBodies hquiet.sameBodies
  | died _ hremoved =>
    obtain ⟨-, rfl⟩ := World.removeCreature_inv hremoved
    exact h.removeBody _
  | @born seed c _ w₁ _ hquiet =>
    exact (h.addBody (hcoherent.fresh_body seed.mass.sqrt seed.position .creature)).of_sameBodies hquiet.sameBodies

end Lost

/-- **A laser stays on its target** until the death of the target is told. -/
theorem Follows.change (h : l.Follows w) (hcoherent : w.Coherent []) (hchange : w.Change es w') :
    l.Tracks (ToldDead es) w' := by
  obtain ⟨rank, c, hc, hid, hbody⟩ := h
  have hmem := Follows.mem ⟨rank, c, hc, hid, hbody⟩ hcoherent
  cases hchange.fate hcoherent.toRanked hcoherent.living_nodup hc with
  | alive hd hlives _ => exact .inl ⟨rank, _, hd, hlives.id_eq.trans hid, hlives.body_eq.trans hbody⟩
  | @dead age tick _ _ htold =>
    refine .inr ⟨?_, age, tick, hid ▸ htold⟩
    -- only one kind of change tells of deaths
    cases hchange with
    | quiet _ => cases htold
    | struck _ _ _ => simp at htold
    | pellet _ => cases htold
    | eaten _ _ _ => simp at htold
    | @died rank' c' _ _ hremoved =>
      obtain ⟨hc', rfl⟩ := World.removeCreature_inv hremoved
      rw [List.mem_singleton, Event.death.injEq] at htold
      obtain rfl := World.rank_eq_of_id_eq hcoherent.living_nodup hc hc' htold.1
      rw [hc, Option.some.injEq] at hc'
      subst hc'
      refine ⟨?_, (Physics.spent_removeBody _ _ _).mpr (hcoherent.handles_spent _ hmem)⟩
      show l.targetBody ∉ Physics.handles (Physics.removeBody w.enclosure c.body)
      rw [Physics.handles_removeBody, hbody]
      simp
    | born harrives _ => exact absurd (harrives.census _ htold) id

/-- Along a course of changes a laser stays on its target, or loses it, and the death is told. -/
theorem Tracks.course (h : l.Tracks told w) (hawaits : w.Awaits es) (hcourse : w.Course es w') :
    l.Tracks (fun id => told id ∨ ToldDead es id) w' := by
  induction hcourse with
  | refl => exact h.mono fun _ => .inl
  -- while the target lives the laser follows it, and the change in which it dies tells of its death
  | @step w' w'' es fs hcourse hchange ih =>
    have hcoherent := (hawaits.course hcourse).coherent
    rcases ih hawaits.left with hfollows | ⟨hlost, htold⟩
    · refine (hfollows.change hcoherent hchange).mono fun id htold => .inr ?_
      obtain ⟨age, tick, hmem⟩ := htold
      exact ⟨age, tick, List.mem_append_right _ hmem⟩
    · refine .inr ⟨hlost.change hcoherent hchange, htold.imp_right ?_⟩
      rintro ⟨age, tick, hmem⟩
      exact ⟨age, tick, List.mem_append_left _ hmem⟩

end Laser

/-! ## Lasers in a world -/

/-- The lasers of these ranks have at most so many ticks left, and each is on its target, or has lost it, and
then this was told. -/
def World.Aiming (limit : Nat) (told : Ident → Prop) (who : Rank → Prop) (w : World E) : Prop :=
  ∀ rank c l, who rank → w.creatures.get? rank = some c → c.laser = some l →
    l.timer ≤ limit ∧ l.Tracks told w

namespace World.Aiming

variable {limit : Nat} {told told' : Ident → Prop} {who who' : Rank → Prop} {w w' : World E} {es : List Event}

/-- What holds of more creatures holds of fewer. -/
theorem mono (h : w.Aiming limit told who) (hwho : ∀ rank, who' rank → who rank)
    (htold : ∀ id, told id → told' id) : w.Aiming limit told' who' := by
  intro rank c l hrank hc hl
  obtain ⟨htimer, htracks⟩ := h rank c l (hwho rank hrank) hc hl
  exact ⟨htimer, htracks.mono htold⟩

/-- Along a course that leaves them alone, lasers stay on their targets until the deaths of these are told. -/
theorem course (h : w.Aiming limit told who) (hawaits : w.Awaits es) (hcourse : w.Course es w')
    (hleaves : w.Leaves who w') : w'.Aiming limit (fun id => told id ∨ ToldDead es id) who := by
  intro rank d l hrank hd hl
  rcases hleaves.lasers rank d hrank hd with ⟨c, hc, hsame⟩ | ⟨-, hnone⟩
  · obtain ⟨htimer, htracks⟩ := h rank c l hrank hc (hsame ▸ hl)
    exact ⟨htimer, htracks.course hawaits hcourse⟩
  · rw [hnone] at hl
    cases hl

/-- So it is on the way from one stage to another, with what the stages have been told. -/
theorem moved {s s' : Stage E} (h : s.world.Aiming limit told who) (hclear : s.Clear s') (hsteps : s.Steps s')
    (hleaves : s.world.Leaves who s'.world) (htold : ∀ id, told id → told' id)
    (hdeaths : ∀ id, ToldDead s'.events id → told' id) : s'.world.Aiming limit told' who := by
  obtain ⟨es, hes, hawaits⟩ := hclear
  obtain ⟨es', hcourse, hes'⟩ := hsteps.advances
  obtain rfl : es' = es := List.append_cancel_left (hes'.symm.trans hes)
  refine (h.course hawaits hcourse hleaves).mono (fun _ => id) fun id hid => ?_
  rcases hid with hbefore | ⟨age, tick, hmem⟩
  · exact htold id hbefore
  · exact hdeaths id ⟨age, tick, hes ▸ List.mem_append_right _ hmem⟩

end World.Aiming

/-- What was told stays told. -/
theorem ToldDead.of_steps {s s' : Stage E} (hsteps : s.Steps s') {id : Ident} (h : ToldDead s.events id) :
    ToldDead s'.events id := by
  obtain ⟨es, -, hes⟩ := hsteps.advances
  obtain ⟨age, tick, hmem⟩ := h
  exact ⟨age, tick, hes ▸ List.mem_append_left _ hmem⟩

/-! ## The owner's turn -/

/-- A laser is left after it has been counted down only if it had time left and both its bodies are there. -/
theorem Creature.tickLaser_inv {c : Creature} {own target : Option Vec} {l : Laser}
    (h : (c.tickLaser own target).laser = some l) :
    target.isSome = true ∧ ∃ l₀, c.laser = some l₀ ∧ l.target = l₀.target ∧ l.targetBody = l₀.targetBody ∧
      l.timer + 1 = l₀.timer := by
  unfold tickLaser at h
  -- a laser is kept while both bodies are there and some of its time is left
  split at h
  · rename_i laser start stop hlaser
    split at h
    · cases h
      exact ⟨rfl, laser, hlaser, rfl, rfl, Nat.sub_add_cancel ‹_›⟩
    · cases h
  · cases h

namespace Stage

variable {limit : Nat} {s s' : Stage E} {rank : Rank}

/-- A laser that has been counted down is on its target. -/
theorem tickLaser_aims (h : s.world.Aiming limit (fun _ => True) (· = rank)) :
    (s.tickLaser rank).world.Aiming limit (fun _ => False) (· = rank) := by
  rintro _ c l rfl hc hl
  unfold tickLaser at hc ⊢
  split at hc
  · rename_i hnone
    rw [hnone] at hc
    cases hc
  · rename_i c₀ hc₀
    split at hc
    · rename_i hnone
      rw [hc₀] at hc
      cases hc
      rw [hnone] at hl
      cases hl
    · rename_i laser hlaser
      dsimp only at hc ⊢
      rw [World.get?_modifyCreature, if_pos rfl, hc₀] at hc
      cases hc
      obtain ⟨hthere, l₀, hl₀, htarget, hbody, htimer⟩ := Creature.tickLaser_inv hl
      rw [hlaser, Option.some.injEq] at hl₀
      subst hl₀
      obtain ⟨hlimit, htracks⟩ := h _ c₀ laser rfl hc₀ hlaser
      refine ⟨by omega, .inl ?_⟩
      have hfollows : laser.Follows s.world := by
        rcases htracks with hfollows | ⟨hlost, -⟩
        · exact hfollows
        · -- the body would be gone
          exact absurd (Physics.isSome_position?_iff.mp hthere) hlost.gone
      obtain ⟨other, d, hd, hid, hdbody⟩ := hfollows.quiet (.modify fun c _ => c.tickLaser_lives _ _)
      exact ⟨other, d, hd, hid.trans htarget.symm, hdbody.trans hbody.symm⟩

/-- A creature that attacks holds a laser on its target. -/
theorem interact_aims {r : Interaction} (hclear : s.Clear s') (hdone : interact rank s r = .ok s')
    (hlimit : s.world.config.combat.laserTicks ≤ limit)
    (h : s.world.Aiming limit (ToldDead s.events) (· = rank)) :
    s'.world.Aiming limit (ToldDead s'.events) (· = rank) := by
  have hsteps := (interact_ensures rank s r).of_ok hdone
  rcases (interact_lasers rank s r).of_ok hdone with
    ⟨hleaves, -⟩ | ⟨target, attacker, victim, hattacker, hvictim, rfl⟩
  · exact h.moved hclear hsteps (hleaves.mono fun _ _ => trivial) (fun _ => .of_steps hsteps) fun _ => id
  · -- the new laser is on its target until that has been looked at for the last time
    rw [attack_of_alive hattacker hvictim] at hclear ⊢
    have hquiet := s.world.exchanged_quiet rank target attacker victim victim.id
    have hlaser {c : Creature} := World.laser_exchanged rank attacker hvictim victim.id (c := c)
    generalize hworld : s.world.exchanged rank target attacker victim victim.id = world at *
    have hhit : s.Steps ({ s with world }.log (.attack attacker.id victim.id world.tick)) :=
      .single (.struck hattacker hvictim hquiet)
    have hreap := ({ s with world }.log (.attack attacker.id victim.id world.tick)).reap_moves target
    obtain ⟨-, hclear⟩ := hclear.split hhit hreap.steps
    have haims : world.Aiming limit (fun _ => False) (· = rank) := by
      rintro _ c l rfl hc hl
      rw [hlaser hc] at hl
      cases hl
      exact ⟨hlimit, .inl (Laser.Follows.quiet ⟨target, victim, hvictim, rfl, rfl⟩ hquiet)⟩
    exact World.Aiming.moved haims hclear hreap.steps (reap_leaves _ target) (fun _ => False.elim) fun _ => id

/-- The requests of a turn leave the lasers of their creature on target. The induction is on the requests. -/
theorem requests_aim {requests : List Interaction} (hclear : s.Clear s')
    (hdone : requests.foldlM (interact rank) s = .ok s')
    (hlimit : s.world.config.combat.laserTicks ≤ limit)
    (h : s.world.Aiming limit (ToldDead s.events) (· = rank)) :
    s'.world.Aiming limit (ToldDead s'.events) (· = rank) := by
  -- the induction is on the requests, over the stage at which the first of them is carried out
  induction requests generalizing s with
  | nil =>
    cases hdone
    exact h
  | cons r requests ih =>
    rw [List.foldlM_cons] at hdone
    obtain ⟨s₁, hfirst, hothers⟩ := except_bind_inv hdone
    have hsteps := (interact_ensures rank s r).of_ok hfirst
    have hsteps' := (requests_ensures rank requests s₁).of_ok hothers
    obtain ⟨hclear₁, hclear₂⟩ := hclear.split hsteps hsteps'
    obtain ⟨es, hcourse, -⟩ := hsteps.advances
    exact ih hclear₂ hothers (hcourse.frame.1 ▸ hlimit) (interact_aims hclear₁ hfirst hlimit h)

/-- **After its owner's turn** a laser is on its target, or the death of the target has been told. -/
theorem turn_aims (hclear : s.Clear s') (hturn : s.turn rank = .ok s')
    (hlimit : s.world.config.combat.laserTicks ≤ limit)
    (h : s.world.Aiming limit (fun _ => True) (· = rank)) :
    s'.world.Aiming limit (ToldDead s'.events) (· = rank) := by
  by_cases hthere : rank ∈ s.world.creatures.keys
  · obtain ⟨requests, ran, done, hgenes, hdone, rfl⟩ := turn_inv hthere hturn
    -- the parts of the turn, one after the other
    have hfed := s.feed_steps rank
    have hready := (s.feed rank).tickLaser_steps rank
    have hran : (s.prepared rank).Steps ran := runGenes_steps hgenes
    have hrequests := (requests_ensures rank requests ran).of_ok hdone
    have hlast := done.metabolize_steps rank
    obtain ⟨hclear₁, hclear⟩ := hclear.split hfed (((hready.trans hran).trans hrequests).trans hlast)
    obtain ⟨-, hclear⟩ := hclear.split hready ((hran.trans hrequests).trans hlast)
    obtain ⟨hclear₃, hclear⟩ := hclear.split hran (hrequests.trans hlast)
    obtain ⟨hclear₄, hclear₅⟩ := hclear.split hrequests hlast
    obtain ⟨es, hcourse, -⟩ := ((hfed.trans hready).trans hran).advances
    have haims := tickLaser_aims (h.moved hclear₁ hfed (s.feed_leaves rank) (fun _ => id) fun _ _ => trivial)
    have haims : ran.world.Aiming limit (ToldDead ran.events) (· = rank) :=
      haims.moved hclear₃ hran (runGenes_leaves hgenes) (fun _ => False.elim) fun _ => id
    have haims := requests_aim hclear₄ hdone (hcourse.frame.1 ▸ hlimit) haims
    exact haims.moved hclear₅ hlast (metabolize_leaves _ rank) (fun _ => .of_steps hlast) fun _ => id
  · rw [turn_of_gone hthere hturn]
    rintro _ c l rfl hc
    exact absurd (Table.mem_keys_of_get? hc) hthere

/-- **After the turns of a tick** this holds of all lasers, if it held before of those whose owners have no
turn. -/
theorem turns_aim {ranks : List Rank} (hclear : s.Clear s') (hturns : s.turns ranks = .ok s')
    (hlimit : s.world.config.combat.laserTicks ≤ limit)
    (hall : s.world.Aiming limit (fun _ => True) fun _ => True)
    (hdone : s.world.Aiming limit (ToldDead s.events) (· ∉ ranks)) :
    s'.world.Aiming limit (ToldDead s'.events) fun _ => True := by
  -- the induction is on the turns to come, whose owners may have lost their targets before
  induction ranks generalizing s with
  | nil =>
    cases hturns
    exact hdone.mono (fun _ _ => List.not_mem_nil) fun _ => id
  | cons rank ranks ih =>
    unfold turns at hturns
    rw [List.foldlM_cons] at hturns
    obtain ⟨s₁, hturn, hothers⟩ := except_bind_inv hturns
    have hsteps := (s.turn_ensures rank).of_ok hturn
    have hleaves := (s.turn_leaves rank).of_ok hturn
    obtain ⟨hclear₁, hclear₂⟩ := hclear.split hsteps ((s₁.turns_ensures ranks).of_ok hothers)
    have hown := turn_aims hclear₁ hturn hlimit (hall.mono (fun _ _ => trivial) fun _ => id)
    obtain ⟨es, hcourse, -⟩ := hsteps.advances
    refine ih hclear₂ hothers (hcourse.frame.1 ▸ hlimit) ?_ ?_
    · have hrest : s₁.world.Aiming limit (fun _ => True) (· ≠ rank) :=
        (hall.mono (fun _ _ => trivial) fun _ => id).moved hclear₁ hsteps hleaves (fun _ => id)
          fun _ _ => trivial
      intro other c l _ hc hl
      by_cases heq : other = rank
      · exact (hown.mono (fun _ => id) fun _ _ => trivial) other c l heq hc hl
      · exact hrest other c l heq hc hl
    · have hrest : s₁.world.Aiming limit (ToldDead s₁.events) (· ∉ rank :: ranks) :=
        hdone.moved hclear₁ hsteps (hleaves.mono fun other hother heq => hother (heq ▸ List.mem_cons_self))
          (fun _ => .of_steps hsteps) fun _ => id
      intro other c l hother hc hl
      by_cases heq : other = rank
      · exact hown other c l heq hc hl
      · exact hrest other c l (List.not_mem_cons_of_ne_of_not_mem heq hother) hc hl

end Stage

/-! ## Ticks -/

/-- A tick that returned, in its parts: it opens, takes the turns of all that are alive and fills the population
up, and in none of them anybody is born under an identity that is in use. -/
structure World.Cleared (w : World E) (t : TickCall) (opened : World E) (stage : Stage E) (newborn : List Event)
    (w' : World E) (events : List Event) : Prop where
  opening        : w.openingBy t = .ok (Stage.start opened w.pendingEvents)
  creatures_eq   : opened.creatures = w.creatures
  turns          : (Stage.start opened w.pendingEvents).turns w.creatures.keys = .ok stage
  refill         : stage.world.refill = .ok (newborn, w')
  told           : ∃ rest, events = stage.events ++ rest ∧ ∀ e ∈ rest, e.Census
  course_opened  : w.counted.Course [] opened
  awaits_counted : w.counted.Awaits []
  awaits         : ∃ told, stage.events = w.pendingEvents ++ told ∧ opened.Awaits (told ++ newborn)

namespace World.Cleared

variable {w opened w' : World E} {t : TickCall} {stage : Stage E} {newborn events : List Event}

/-- From every stage on the way the world goes on in this manner to the end of the tick. -/
theorem rest (h : w.Cleared t opened stage newborn w' events) {s : Stage E}
    (hsteps : (Stage.start opened w.pendingEvents).Steps s) (hsteps' : s.Steps stage) :
    ∃ es, stage.events = s.events ++ es ∧ s.world.Awaits (es ++ newborn) ∧
      s.world.Course (es ++ newborn) w' := by
  obtain ⟨told, htold, hawaits⟩ := h.awaits
  obtain ⟨es, hcourse, hes⟩ := hsteps.advances
  obtain ⟨fs, hcourse', hfs⟩ := hsteps'.advances
  -- what is told after the stage is what the whole tick tells less what has been told by then
  obtain rfl : told = es ++ fs := by
    rw [hfs, hes, List.append_assoc] at htold
    exact (List.append_cancel_left htold).symm
  rw [List.append_assoc] at hawaits
  exact ⟨fs, hfs, hawaits.course hcourse, hcourse'.trans ((refill_ensures _).of_ok h.refill)⟩

/-- The turns of the tick take steps. -/
theorem steps (h : w.Cleared t opened stage newborn w' events) :
    (Stage.start opened w.pendingEvents).Steps stage := (Stage.turns_ensures _ _).of_ok h.turns

/-- The opening touches nobody's laser. -/
theorem leaves_opened {who : Rank → Prop} (h : w.Cleared t opened stage newborn w' events) :
    w.counted.Leaves who opened :=
  .of_creatures_eq h.creatures_eq h.course_opened.lastRank_le

/-- **A tick leaves every laser on its target**, or it tells of the death of the target. -/
theorem aiming (h : w.Cleared t opened stage newborn w' events) {limit : Nat}
    (hlimit : w.config.combat.laserTicks ≤ limit) (hall : w.Aiming limit (fun _ => True) fun _ => True) :
    w'.Aiming limit (ToldDead events) fun _ => True := by
  have hcounted : w.counted.Aiming limit (fun _ => True) fun _ => True := hall
  have hopened : opened.Aiming limit (fun _ => True) fun _ => True :=
    (hcounted.course h.awaits_counted h.course_opened h.leaves_opened).mono (fun _ => id) fun _ _ => trivial
  obtain ⟨es, hes, hawaits, -⟩ := h.rest (.refl _) h.steps
  obtain ⟨fs, hfs, hrefilling, -⟩ := h.rest h.steps (.refl _)
  obtain rfl : fs = [] := List.append_cancel_left (hfs.symm.trans (List.append_nil _).symm)
  have hturned : stage.world.Aiming limit (ToldDead stage.events) fun _ => True := by
    refine Stage.turns_aim ⟨es, hes, hawaits.left⟩ h.turns (h.course_opened.frame.1 ▸ hlimit) hopened ?_
    intro rank c l hother hc
    change opened.creatures.get? rank = some c at hc
    rw [h.creatures_eq] at hc
    exact absurd (Table.mem_keys_of_get? hc) hother
  have hrefilled := hturned.course hrefilling ((refill_ensures _).of_ok h.refill)
    ((refill_leaves _).of_ok h.refill)
  refine hrefilled.mono (fun _ => id) fun id hid => ?_
  obtain ⟨rest, rfl, -⟩ := h.told
  rcases hid with ⟨age, tick, hmem⟩ | ⟨age, tick, hmem⟩
  · exact ⟨age, tick, List.mem_append_left _ hmem⟩
  · -- filling up tells of births
    exact absurd ((spawnMany_census _ _).of_ok h.refill _ hmem) not_false

end World.Cleared

namespace History

variable {config : Config} {enclosure : E} {entropy : BitVec 256} {h : History E} {t : TickCall}
  {events : List Event} {w' : World E}

/-- Among distinct identities every tick is clear. -/
theorem cleared_tick (hempty : Physics.handles enclosure = []) {calls : List Call}
    (hrun : run config enclosure entropy calls = .ok h) (htick : h.world.tickBy t = .ok (events, w'))
    (hdistinct : (drawn { h with world := w', log := h.log ++ events }).Nodup) :
    ∃ opened stage newborn, h.world.Cleared t opened stage newborn w' events := by
  obtain ⟨opened, stage, -, -, hstart, hcreatures, hturns, hclosing, -, -⟩ := World.tickBy_inv htick
  obtain ⟨opened', hopened, hcourse, -⟩ := (h.world.openingBy_ensures t).of_ok hstart
  obtain rfl : opened = opened' := congrArg (·.world) hopened
  obtain ⟨told, -, htold⟩ := ((Stage.turns_ensures _ _).of_ok hturns).advances
  -- behind the turns there are the births of those that are missing, and an extinction at most
  obtain ⟨⟨newborn, w₁⟩, hrefill, hpure⟩ := except_bind_inv hclosing
  obtain ⟨last, hlast, hevents, rfl⟩ : ∃ last : List Event, (∀ e ∈ last, e.Census) ∧
      events = stage.events ++ newborn ++ last ∧ w₁ = w' := by
    dsimp only at hpure
    split at hpure
    · cases hpure
      exact ⟨[.extinction w'.tick], by simp [Event.Census], rfl, rfl⟩
    · cases hpure
      exact ⟨[], by simp, (List.append_nil _).symm, rfl⟩
  rw [hevents, htold, List.append_assoc (Stage.start opened h.world.pendingEvents).events] at hdistinct
  obtain ⟨hcoherent, hborn⟩ := coherent_born hempty hrun hdistinct
  have hcounted : h.world.counted.Awaits ([] ++ (told ++ newborn)) := ⟨hcoherent.retold _ _, hborn⟩
  have hawaits : opened.Awaits (told ++ newborn) := hcounted.course hcourse
  have hcensus : ∀ e ∈ newborn ++ last, e.Census := fun e he =>
    (List.mem_append.mp he).elim ((World.spawnMany_census _ _).of_ok hrefill e) (hlast e)
  exact ⟨opened, stage, newborn, hstart, hcreatures, hturns, hrefill,
    ⟨newborn ++ last, hevents.trans (List.append_assoc _ _ _), hcensus⟩, hcourse,
    hcounted.left, told, htold, hawaits⟩

/-- What was drawn before a tick was drawn after it. -/
theorem distinct_before (htick : h.world.tickBy t = .ok (events, w'))
    (hdistinct : (drawn { h with world := w', log := h.log ++ events }).Nodup) : h.drawn.Nodup := by
  obtain ⟨es, hcourse, hevents⟩ := (h.world.tickBy_ensures t).of_ok htick
  rw [drawn_tick hcourse hevents] at hdistinct
  exact (List.nodup_append.mp hdistinct).1

/-- **Between ticks** no laser has more time left than an attack gives it, and each is on its target or has lost
it for good. -/
theorem aiming_run (hempty : Physics.handles enclosure = []) {ticks : List TickCall}
    (hrun : run config enclosure entropy (ticks.map .tick) = .ok h) (hdistinct : h.drawn.Nodup) :
    h.world.Aiming config.combat.laserTicks (fun _ => True) fun _ => True := by
  induction ticks using List.reverseRecOn generalizing h with
  | nil =>
    obtain ⟨w, hcreate, hpure⟩ := except_bind_inv hrun
    cases hpure
    obtain ⟨-, births, w₁, hrefill, rfl⟩ := World.create_refill hcreate
    have hleaves : World.Leaves (fun _ => True) _ w₁ := (World.refill_leaves _).of_ok hrefill
    -- whoever comes into the world holds no laser
    intro rank c l hrank hc hl
    rcases hleaves.lasers rank c hrank hc with ⟨d, hd, -⟩ | ⟨-, hnone⟩
    · cases hd
    · rw [hnone] at hl
      cases hl
  | append_singleton ticks t ih =>
    obtain ⟨h₀, events, w', hrun₀, htick, rfl⟩ := run_ticks_inv hrun
    obtain ⟨opened, stage, newborn, hcleared⟩ := cleared_tick hempty hrun₀ htick hdistinct
    have hbefore := ih hrun₀ (distinct_before htick hdistinct)
    have hconfig : h₀.world.config.combat.laserTicks ≤ config.combat.laserTicks := by rw [config_run hrun₀]
    exact (hcleared.aiming hconfig hbefore).mono (fun _ => id) fun _ _ => trivial

end History

end Vivarium
