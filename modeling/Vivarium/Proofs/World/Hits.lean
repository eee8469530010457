import Vivarium.Proofs.World.Bodies
import Vivarium.Proofs.World.Combat
import Vivarium.Proofs.World.TurnOrder

/-!
# An attack is all or nothing

Whether an attack is carried out is decided once, before anything is done: both creatures have to be alive, and
the target has to be the one that was chosen. Otherwise nothing changes at all. If it is carried out, it has
two sides and an end, and each touches what belongs to it: the attacker and its body, the target and its body,
and for a target that starves by it also its entries in the indices and its view.

Main result: `attacks_are_all_or_nothing`.
-/

namespace Vivarium

namespace World

variable {w : World Enclosure} {actor target : Rank} {attacker victim : Creature}

/-! ## Both sides -/

/-- The laser of a hit. -/
def laserOn (w : World Enclosure) (attacker victim : Creature) : Laser :=
  { target     := victim.id
    targetBody := victim.body
    timer      := w.config.combat.laserTicks
    start      := w.placeOf attacker.body
    stop       := w.placeOf victim.body }

/-- The attacker after a hit: it holds a laser on the target, and has gained hunger and mass. -/
def attackerAfter (w : World Enclosure) (attacker victim : Creature) : Creature :=
  { attacker with
    laser  := some (w.laserOn attacker victim)
    hunger := clampTo 0.0 1.0 (attacker.hunger + w.config.combat.attackerHungerGain)
    mass   := attacker.mass + w.config.combat.massTransfer }

/-- The target after a hit: it has lost hunger, and mass down to the minimum. -/
def victimAfter (w : World Enclosure) (victim : Creature) : Creature :=
  { victim with
    hunger := clampTo 0.0 1.0 (victim.hunger + -w.config.combat.targetHungerLoss)
    mass   := greater (victim.mass - w.config.combat.massTransfer) w.config.metabolism.minMass }

/-- The attacker's side changes a creature and a body. -/
theorem restates_rewarded (w : World Enclosure) (actor : Rank) (attacker : Creature) (laser : Laser) :
    w.Restates (w.rewarded actor attacker laser) := (Restates.modify w actor _).trans (.setMass _ _ _)

/-- So does the target's. -/
theorem restates_bitten (w : World Enclosure) (combat : CombatConfig) (target : Rank) (victim : Creature) :
    w.Restates (w.bitten combat target victim) := (Restates.modify w target _).trans (.setMass _ _ _)

/-- The attacker's body is scaled to its new mass, and no other. -/
theorem get?_body_rewarded (hattacker : w.creatures.get? actor = some attacker) (laser : Laser)
    (body : Handle) :
    (w.rewarded actor attacker laser).enclosure.bodies.get? body =
      if body = attacker.body then (w.enclosure.bodies.get? body).map
        (Body.resized attacker.mass (attacker.mass + w.config.combat.massTransfer))
      else w.enclosure.bodies.get? body := by
  refine get?_body_setMass (c := { attacker with laser := some laser }.adjustHunger
    w.config.combat.attackerHungerGain) ?_ _ body
  rw [get?_modifyCreature, if_pos rfl, hattacker]
  rfl

/-- The target's body is scaled to its new mass, and no other. -/
theorem get?_body_bitten (hvictim : w.creatures.get? target = some victim) (combat : CombatConfig)
    (body : Handle) :
    (w.bitten combat target victim).enclosure.bodies.get? body =
      if body = victim.body then (w.enclosure.bodies.get? body).map
        (Body.resized victim.mass (greater (victim.mass - combat.massTransfer) w.config.metabolism.minMass))
      else w.enclosure.bodies.get? body := by
  -- the hunger is lost before the body is resized
  have hmodified : (w.modifyCreature target fun c =>
      c.adjustHunger (-combat.targetHungerLoss)).creatures.get? target =
        some (victim.adjustHunger (-combat.targetHungerLoss)) := by
    rw [get?_modifyCreature, if_pos rfl, hvictim]
    rfl
  unfold bitten
  dsimp only
  rw [get?_body_setMass hmodified, hmodified]
  rfl

/-- What an exchange does to the world: both creatures and their bodies are changed, and nothing else. -/
structure Exchange (w : World Enclosure) (actor target : Rank) (attacker victim : Creature)
    (w' : World Enclosure) : Prop where
  restates  : w.Restates w'
  keys_eq   : w'.creatures.keys = w.creatures.keys
  creatures : ∀ rank, w'.creatures.get? rank =
    if rank = actor then some (w.attackerAfter attacker victim)
    else if rank = target then some (w.victimAfter victim) else w.creatures.get? rank
  bodies    : ∀ body, w'.enclosure.bodies.get? body =
    if body = attacker.body then
      (w.enclosure.bodies.get? body).map
        (Body.resized attacker.mass (w.attackerAfter attacker victim).mass)
    else if body = victim.body then
      (w.enclosure.bodies.get? body).map (Body.resized victim.mass (w.victimAfter victim).mass)
    else w.enclosure.bodies.get? body

/-- Two different creatures that are alive, in a world in which nobody shares a body. -/
structure Engaged (w : World Enclosure) (actor target : Rank) (attacker victim : Creature) : Prop where
  embodied     : w.Embodied
  attacker_get : w.creatures.get? actor = some attacker
  victim_get   : w.creatures.get? target = some victim
  other        : actor ≠ target

namespace Engaged

/-- The attacker has its body. -/
theorem attackerBody (h : w.Engaged actor target attacker victim) :
    w.bodyOf? (.creature actor) = some attacker.body := congrArg (Option.map _) h.attacker_get

/-- The target has its own. -/
theorem victimBody (h : w.Engaged actor target attacker victim) :
    w.bodyOf? (.creature target) = some victim.body := congrArg (Option.map _) h.victim_get

/-- The two bodies are different ones. -/
theorem bodies_ne (h : w.Engaged actor target attacker victim) : attacker.body ≠ victim.body :=
  h.embodied.ne h.attackerBody h.victimBody fun heq => h.other (Owner.creature.inj heq)

end Engaged

/-- **An exchange changes two creatures and their bodies**, each once. -/
theorem exchanged_exchange (hengaged : w.Engaged actor target attacker victim) :
    w.Exchange actor target attacker victim (w.exchanged actor target attacker victim victim.id) := by
  have hattacker := hengaged.attacker_get
  have hvictim := hengaged.victim_get
  have hother := hengaged.other
  have hquiet := w.exchanged_quiet actor target attacker victim victim.id
  have hsides : w.exchanged actor target attacker victim victim.id =
      (w.rewarded actor attacker (w.laserOn attacker victim)).bitten w.config.combat target victim := rfl
  rw [hsides] at hquiet ⊢
  have hconfig := (w.rewarded_quiet actor attacker (w.laserOn attacker victim)).config_eq
  -- the target is as it was when its turn comes to be bitten
  have hstill : (w.rewarded actor attacker (w.laserOn attacker victim)).creatures.get? target = some victim := by
    rw [get?_rewarded, if_neg hother.symm]
    exact hvictim
  refine ⟨(w.restates_rewarded actor attacker _).trans (restates_bitten _ _ _ _), hquiet.keys_eq,
    fun rank => ?_, fun body => ?_⟩
  · rw [get?_bitten hstill, get?_rewarded, hconfig]
    by_cases hactor : rank = actor
    · rw [if_neg (hactor ▸ hother), if_pos hactor, if_pos hactor, hactor, hattacker]
      rfl
    · rw [if_neg hactor, if_neg hactor]
      rfl
  · rw [get?_body_bitten hstill, get?_body_rewarded hattacker, hconfig]
    by_cases hbody : body = attacker.body
    · rw [if_neg (hbody ▸ hengaged.bodies_ne), if_pos hbody, if_pos hbody]
      rfl
    · rw [if_neg hbody, if_neg hbody]
      rfl

namespace Exchange

variable {w' : World Enclosure}

/-- The attacker comes out with its laser and its gains. -/
theorem get?_actor (h : w.Exchange actor target attacker victim w') :
    w'.creatures.get? actor = some (w.attackerAfter attacker victim) := (h.creatures actor).trans (if_pos rfl)

/-- The target comes out with its losses. -/
theorem get?_target (h : w.Exchange actor target attacker victim w')
    (hengaged : w.Engaged actor target attacker victim) :
    w'.creatures.get? target = some (w.victimAfter victim) := by
  rw [h.creatures, if_neg hengaged.other.symm, if_pos rfl]

/-- Nobody else is changed. -/
theorem get?_other (h : w.Exchange actor target attacker victim w') {rank : Rank} (hactor : rank ≠ actor)
    (htarget : rank ≠ target) : w'.creatures.get? rank = w.creatures.get? rank := by
  rw [h.creatures, if_neg hactor, if_neg htarget]

/-- The attacker's body follows its mass. -/
theorem attackerBody (h : w.Exchange actor target attacker victim w') :
    w'.enclosure.bodies.get? attacker.body = (w.enclosure.bodies.get? attacker.body).map
      (Body.resized attacker.mass (w.attackerAfter attacker victim).mass) :=
  (h.bodies attacker.body).trans (if_pos rfl)

/-- And so does the target's. -/
theorem victimBody (h : w.Exchange actor target attacker victim w')
    (hengaged : w.Engaged actor target attacker victim) :
    w'.enclosure.bodies.get? victim.body = (w.enclosure.bodies.get? victim.body).map
      (Body.resized victim.mass (w.victimAfter victim).mass) := by
  rw [h.bodies, if_neg hengaged.bodies_ne.symm, if_pos rfl]

/-- Nobody else has one of the two bodies. -/
theorem otherBody (h : w.Exchange actor target attacker victim w')
    (hengaged : w.Engaged actor target attacker victim) {o : Owner} (hactor : o ≠ .creature actor)
    (htarget : o ≠ .creature target) {body : Handle} (hbody : w.bodyOf? o = some body) :
    body ≠ victim.body ∧ w'.enclosure.bodies.get? body = w.enclosure.bodies.get? body := by
  have hneActor := hengaged.embodied.ne hbody hengaged.attackerBody hactor
  have hneTarget := hengaged.embodied.ne hbody hengaged.victimBody htarget
  rw [h.bodies, if_neg hneActor, if_neg hneTarget]
  exact ⟨hneTarget, rfl⟩

end Exchange

/-- Whether a hit starves its target. -/
def kills (w : World Enclosure) (victim : Creature) : Bool := (w.victimAfter victim).isStarved

end World

namespace Stage

variable {s : Stage Enclosure} {actor target : Rank} {attacker victim : Creature}

/-! ## The end -/

/-- A creature that has starved is taken out of everything that knows of it, and its death is told. -/
theorem reap_eq {rank : Rank} {c : Creature} (hc : s.world.creatures.get? rank = some c) :
    s.reap rank = if c.isStarved then
        { s with
          world  := { s.world with
            creatures      := s.world.creatures.erase rank
            creatureOfBody := s.world.creatureOfBody.erase c.body
            creatureOfId   := s.world.creatureOfId.erase c.id
            enclosure      := s.world.enclosure.removeBody c.body }
          views  := s.views.filter fun v => v.rank ≠ rank
          events := s.events ++ [.death c.id (c.age s.world.tick) s.world.tick] }
      else s := by
  -- a kill is written out field by field, as the statement has it
  have hkill : s.kill rank = { s with
      world  := { s.world with
        creatures      := s.world.creatures.erase rank
        creatureOfBody := s.world.creatureOfBody.erase c.body
        creatureOfId   := s.world.creatureOfId.erase c.id
        enclosure      := s.world.enclosure.removeBody c.body }
      views  := s.views.filter fun v => v.rank ≠ rank
      events := s.events ++ [.death c.id (c.age s.world.tick) s.world.tick] } := by
    unfold kill World.removeCreature
    rw [hc]
    rfl
  unfold reap
  rw [hc, Option.any_some, hkill]

/-- All that an attack changes when it is carried out. -/
structure Hit (s : Stage Enclosure) (actor target : Rank) (attacker victim : Creature)
    (s' : Stage Enclosure) : Prop where
  /-- Of the attacker, hunger, mass and laser are changed. -/
  attacker_eq       : s'.world.creatures.get? actor = some (s.world.attackerAfter attacker victim)
  /-- Of the target, hunger and mass are, and it is gone if that starves it. -/
  target_eq         : s'.world.creatures.get? target =
    if s.world.kills victim then none else some (s.world.victimAfter victim)
  others_eq         : ∀ rank, rank ≠ actor → rank ≠ target →
    s'.world.creatures.get? rank = s.world.creatures.get? rank
  keys_eq           : s'.world.creatures.keys =
    if s.world.kills victim then s.world.creatures.keys.filter (· ≠ target) else s.world.creatures.keys
  creatureOfBody_eq : s'.world.creatureOfBody =
    if s.world.kills victim then s.world.creatureOfBody.erase victim.body else s.world.creatureOfBody
  creatureOfId_eq   : s'.world.creatureOfId =
    if s.world.kills victim then s.world.creatureOfId.erase victim.id else s.world.creatureOfId
  /-- Their bodies follow their masses, and that of a target that starves is gone. -/
  attackerBody_eq   : s'.world.enclosure.bodies.get? attacker.body =
    (s.world.enclosure.bodies.get? attacker.body).map
      (Body.resized attacker.mass (s.world.attackerAfter attacker victim).mass)
  targetBody_eq     : s'.world.enclosure.bodies.get? victim.body =
    if s.world.kills victim then none
    else (s.world.enclosure.bodies.get? victim.body).map
      (Body.resized victim.mass (s.world.victimAfter victim).mass)
  /-- All others, pellets among them, keep their bodies as they are. -/
  otherBodies_eq    : ∀ o, o ≠ .creature actor → o ≠ .creature target →
    s'.world.bodyOf? o = s.world.bodyOf? o ∧ ∀ body ∈ s.world.bodyOf? o,
      s'.world.enclosure.bodies.get? body = s.world.enclosure.bodies.get? body
  views_eq          : s'.views =
    if s.world.kills victim then s.views.filter (·.rank ≠ target) else s.views
  pelletViews_eq    : s'.pelletViews = s.pelletViews
  events_eq         : s'.events = s.events ++ .attack attacker.id victim.id s.world.tick ::
    if s.world.kills victim then [.death victim.id (victim.age s.world.tick) s.world.tick] else []
  /-- Pellets, ranks, the clock, the source and all the rest are left alone. -/
  frame             : ∃ creatures creatureOfBody creatureOfId bodies, s'.world =
    { s.world with
      creatures, creatureOfBody, creatureOfId, enclosure := { s.world.enclosure with bodies } }

/-- A hit that does not starve the target ends with the exchange. -/
theorem hit_of_spared {world : World Enclosure} (hengaged : s.world.Engaged actor target attacker victim)
    (h : s.world.Exchange actor target attacker victim world) (hkills : s.world.kills victim = false) :
    s.Hit actor target attacker victim
      { s with world, events := s.events ++ [.attack attacker.id victim.id s.world.tick] } := by
  -- every change is one of the exchange, since nobody is taken out
  obtain ⟨creatures, bodies, rfl⟩ := h.restates
  exact
    { attacker_eq       := h.get?_actor
      target_eq         := by
        rw [hkills]
        exact h.get?_target hengaged
      others_eq         := fun rank => h.get?_other
      keys_eq           := by
        rw [hkills]
        exact h.keys_eq
      creatureOfBody_eq := by
        rw [hkills]
        rfl
      creatureOfId_eq   := by
        rw [hkills]
        rfl
      attackerBody_eq   := h.attackerBody
      targetBody_eq     := by
        rw [hkills]
        exact h.victimBody hengaged
      otherBodies_eq    := by
        intro o hactor htarget
        refine ⟨World.bodyOf?_congr rfl fun rank hrank => ?_, fun body hbody => ?_⟩
        · exact h.get?_other (fun heq => hactor (heq ▸ hrank)) fun heq => htarget (heq ▸ hrank)
        · exact (h.otherBody hengaged hactor htarget hbody).2
      views_eq          := by
        rw [hkills]
        rfl
      pelletViews_eq    := rfl
      events_eq         := by
        rw [hkills]
        rfl
      frame             := ⟨creatures, _, _, bodies, rfl⟩ }

/-- After a hit that starves it, the target is taken out of everything that knows of it. -/
theorem hit_of_killed {world : World Enclosure} (hengaged : s.world.Engaged actor target attacker victim)
    (h : s.world.Exchange actor target attacker victim world) (hkills : s.world.kills victim = true) :
    s.Hit actor target attacker victim
      { s with
        world  := { world with
          creatures      := world.creatures.erase target
          creatureOfBody := world.creatureOfBody.erase victim.body
          creatureOfId   := world.creatureOfId.erase victim.id
          enclosure      := world.enclosure.removeBody victim.body }
        views  := s.views.filter fun v => v.rank ≠ target
        events := s.events ++ [.attack attacker.id victim.id s.world.tick] ++
          [.death victim.id (victim.age s.world.tick) s.world.tick] } := by
  obtain ⟨creatures, bodies, rfl⟩ := h.restates
  -- whoever and whatever is not erased is as the exchange has left it
  have herased (rank : Rank) (hrank : rank ≠ target) :
      (creatures.erase target).get? rank = creatures.get? rank := by
    rw [Table.get?_erase, if_neg hrank]
  have hremoved (body : Handle) (hbody : body ≠ victim.body) :
      (bodies.erase victim.body).get? body = bodies.get? body := by
    rw [Table.get?_erase, if_neg hbody]
  exact
    { attacker_eq       := (herased actor hengaged.other).trans h.get?_actor
      target_eq         := by
        rw [hkills]
        exact (Table.get?_erase creatures target target).trans (if_pos rfl)
      others_eq         := fun rank hactor htarget => (herased rank htarget).trans (h.get?_other hactor htarget)
      keys_eq           := by
        rw [hkills, ← h.keys_eq]
        exact Table.keys_erase
      creatureOfBody_eq := by
        rw [hkills]
        rfl
      creatureOfId_eq   := by
        rw [hkills]
        rfl
      attackerBody_eq   := (hremoved _ hengaged.bodies_ne).trans h.attackerBody
      targetBody_eq     := by
        rw [hkills]
        exact (Table.get?_erase bodies victim.body victim.body).trans (if_pos rfl)
      otherBodies_eq    := by
        intro o hactor htarget
        refine ⟨World.bodyOf?_congr rfl fun rank hrank => ?_, fun body hbody => ?_⟩
        · have hneTarget : rank ≠ target := fun heq => htarget (heq ▸ hrank)
          exact (herased rank hneTarget).trans (h.get?_other (fun heq => hactor (heq ▸ hrank)) hneTarget)
        · obtain ⟨hne, hkept⟩ := h.otherBody hengaged hactor htarget hbody
          exact (hremoved body hne).trans hkept
      views_eq          := by
        rw [hkills]
        rfl
      pelletViews_eq    := rfl
      events_eq         := by
        rw [hkills]
        exact List.append_assoc _ _ _
      frame             := ⟨_, _, _, _, rfl⟩ }

/-- An attack on a target that is alive is a hit. -/
theorem attack_hit (hengaged : s.world.Engaged actor target attacker victim) :
    s.Hit actor target attacker victim (s.attack actor target victim.id) := by
  have hexchange := World.exchanged_exchange hengaged
  have htarget := hexchange.get?_target hengaged
  rw [attack_of_alive hengaged.attacker_get hengaged.victim_get, reap_eq htarget]
  -- from here on, of the world after the exchange only that is known
  generalize s.world.exchanged actor target attacker victim victim.id = w at *
  have htick : w.tick = s.world.tick := by
    obtain ⟨_, _, rfl⟩ := hexchange.restates
    rfl
  change s.Hit actor target attacker victim (if s.world.kills victim = true then _ else _)
  cases hkills : s.world.kills victim with
  | false => exact htick ▸ hit_of_spared hengaged hexchange hkills
  | true => exact htick ▸ hit_of_killed hengaged hexchange hkills

end Stage

/-- **An attack is all or nothing.** At every moment of every run, in the middle of ticks too, and whatever is in
view and has been told: where the attacker is not alive, or nobody is alive under the target's rank or it has
another identity than the one that was chosen, an attack leaves everything as it is. Otherwise one attack is
told; of the attacker hunger, mass and laser are changed and of the target hunger and mass, their bodies are
scaled, and just where that starves the target it is taken out with its body and its view and its death is
told. All other creatures, all pellets, the clock and the source are left alone. -/
theorem attacks_are_all_or_nothing {config : Config} {width height : Float} {entropy : BitVec 256}
    {calls : List Call} {s : Stage Enclosure} {actor target : Rank}
    (hs : s.world ∈ History.timeline config (Enclosure.empty width height) entropy calls) (hother : actor ≠ target)
    (targetId : Ident) :
    ((s.world.creatures.get? actor = none ∨
        ∀ victim, s.world.creatures.get? target = some victim → victim.id ≠ targetId) →
      s.attack actor target targetId = s) ∧
    ∀ attacker victim, s.world.creatures.get? actor = some attacker →
      s.world.creatures.get? target = some victim → victim.id = targetId →
      s.Hit actor target attacker victim (s.attack actor target targetId) := by
  constructor
  · rw [Stage.attack_eq]
    -- refused: one of the two is not there, or somebody else stands under the rank
    rintro (hnobody | hstranger)
    · rw [hnobody]
    · cases s.world.creatures.get? actor with
      | none => rfl
      | some attacker =>
        cases hvictim : s.world.creatures.get? target with
        | none => rfl
        | some victim => exact if_pos (hstranger victim hvictim)
  · -- carried out: at every moment of a run each creature has a body of its own
    rintro attacker victim hattacker hvictim rfl
    exact Stage.attack_hit ⟨History.embodied_timeline rfl _ hs, hattacker, hvictim, hother⟩

/-- An attack in a deadly world, right after it was set up, kills its target; one on an identity that its target
has not changes nothing. -/
theorem attacks_are_all_or_nothing_deadly :
    ∃ h attacker victim, History.run .deadly (Enclosure.empty 20.0 20.0) 0 [] = .ok h ∧
      (Stage.start h.world []).world ∈ History.timeline .deadly (Enclosure.empty 20.0 20.0) 0 [] ∧
      (⟨1⟩ : Rank) ≠ ⟨2⟩ ∧ h.world.creatures.get? ⟨1⟩ = some attacker ∧
      h.world.creatures.get? ⟨2⟩ = some victim ∧ h.world.kills victim = true ∧
      (Stage.start h.world []).Hit ⟨1⟩ ⟨2⟩ attacker victim
        ((Stage.start h.world []).attack ⟨1⟩ ⟨2⟩ victim.id) ∧
      attacker.id ≠ victim.id ∧
      (Stage.start h.world []).attack ⟨1⟩ ⟨2⟩ attacker.id = Stage.start h.world [] := by
  -- that the blow kills is computed, and what it does is taken from the theorem
  have hcheck : (History.run .deadly (Enclosure.empty 20.0 20.0) 0 []).toOption.any (fun h =>
      (h.world.creatures.get? ⟨1⟩).any fun attacker => (h.world.creatures.get? ⟨2⟩).any fun victim =>
        decide (h.world.kills victim = true ∧ attacker.id ≠ victim.id)) = true := by
    decide +kernel
  obtain ⟨h, hrun, hcheck⟩ := except_any_inv hcheck
  obtain ⟨attacker, hattacker, hcheck⟩ := (Option.any_eq_true _ _).mp hcheck
  obtain ⟨victim, hvictim, hcheck⟩ := (Option.any_eq_true _ _).mp hcheck
  obtain ⟨hkills, hids⟩ := of_decide_eq_true hcheck
  have hmoment : (Stage.start h.world []).world ∈ History.timeline .deadly (Enclosure.empty 20.0 20.0) 0 [] :=
    History.world_mem_timeline hrun []
  have hother : (⟨1⟩ : Rank) ≠ ⟨2⟩ := by decide
  refine ⟨h, attacker, victim, hrun, hmoment, hother, hattacker, hvictim, hkills, ?_, hids, ?_⟩
  · exact (attacks_are_all_or_nothing hmoment hother victim.id).2 attacker victim hattacker hvictim rfl
  · refine (attacks_are_all_or_nothing hmoment hother attacker.id).1 (.inr fun victim' hvictim' => ?_)
    cases hvictim.symm.trans hvictim'
    exact hids.symm

end Vivarium
