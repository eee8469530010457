import Vivarium.Proofs.Turn.Search
import Vivarium.Proofs.World.Views

/-!
# What a creature asks for is granted

A request is judged twice. The creature asks only for what it sees: a stranger in view to attack, or a
world with room for the child of a creature of its mass. The world looks again when it carries the request
out. In between, the creature has finished its turn; its views are kept up, its mass has not changed, and
nobody has come or gone, so the second look finds what the first one found.

A gene that asks for something leaves the delay of its rule behind, which is never zero, so the turn ends
with it and there is no second request.

Main result: `requests_are_granted`.
-/

namespace Vivarium

variable {E : Type} [Physics E]

/-! ## Sensing -/

/-- A creature at a position finds `v` to attack: another creature in view, which it does not count as
kin, within its attack range. -/
structure Surroundings.Exposes (s : Surroundings) (c : Creature) (position : Vec) (v : CreatureView) :
    Prop where
  mem      : v ∈ s.creatures
  other    : v.id ≠ c.id
  stranger : s.isKin c v = false
  near     : position.distance v.position ≤ c.traits.attackRange

/-- What a creature at a position asks for is there, as far as it can see. -/
def Surroundings.Offers (s : Surroundings) (c : Creature) (position : Vec) : Interaction → Prop
  | .attack target targetId => ∃ v, s.Exposes c position v ∧ v.rank = target ∧ v.id = targetId
  | .replicate =>
    s.config.metabolism.replicateMass ≤ c.mass ∧ s.population < s.config.world.populationCap

/-- Only what a creature keeps through life matters. -/
theorem Surroundings.Exposes.congr {s : Surroundings} {c d : Creature} {position : Vec} {v : CreatureView}
    (h : s.Exposes c position v) (hsame : c.Same d) : s.Exposes d position v where
  mem      := h.mem
  other    := by
    rw [hsame.id_eq]
    exact h.other
  -- what kinship and range depend on is the same for both
  stranger := by
    have hstranger := h.stranger
    unfold isKin at hstranger ⊢
    rw [hsame.hue_eq, hsame.traits_eq]
    exact hstranger
  near     := by
    rw [hsame.traits_eq]
    exact h.near

/-- Only that matters, and its mass. -/
theorem Surroundings.Offers.congr {s : Surroundings} {c d : Creature} {position : Vec} {r : Interaction}
    (h : s.Offers c position r) (hsame : c.Same d) (hmass : d.mass = c.mass) :
    s.Offers d position r := by
  cases r with
  | attack target targetId =>
    obtain ⟨v, hv, hrank, hid⟩ := h
    exact ⟨v, hv.congr hsame, hrank, hid⟩
  | replicate => exact ⟨hmass ▸ h.1, h.2⟩

/-- A stranger is who is no kin. -/
theorem companyOf_eq_stranger_iff {s : Surroundings} {c : Creature} {v : CreatureView} :
    s.companyOf c v = .stranger ↔ s.isKin c v = false := by
  unfold Surroundings.companyOf
  cases s.isKin c v <;> decide

/-- Whom a creature finds to attack are those in view that pass the test of its search and are in range. -/
theorem exposes_iff {s : Surroundings} {c : Creature} {position : Vec} {v : CreatureView}
    (hv : v ∈ s.creatures) :
    s.Exposes c position v ↔
      (v.id ≠ c.id && s.companyOf c v = .stranger) = true ∧
        InRange position c.traits.attackRange (·.position) v := by
  rw [Bool.and_eq_true, decide_eq_true_eq, decide_eq_true_eq, companyOf_eq_stranger_iff]
  exact ⟨fun h => ⟨⟨h.other, h.stranger⟩, h.near⟩, fun ⟨⟨hother, hstranger⟩, hnear⟩ =>
    ⟨hv, hother, hstranger, hnear⟩⟩

/-- The nearest stranger in range is exposed. -/
theorem nearestCreature_exposes {s : Surroundings} {c : Creature} {position : Vec} {v : CreatureView}
    (h : s.nearestCreature c position c.traits.attackRange .stranger = some v) :
    s.Exposes c position v := by
  have hnearest := nearestInRange_isNearest h
  obtain ⟨hmem, htest⟩ := List.mem_filter.mp hnearest.mem
  exact (exposes_iff hmem).mpr ⟨htest, hnearest.1⟩

/-! ## Turns -/

/-- A gene that agrees with the catalog takes time. -/
theorem Gene.Catalogued.timeCost_pos {g : Gene} (h : g.Catalogued) : 0 < g.timeCost := by
  have hrules : ∀ rule ∈ Catalog.rules, 0 < rule.timeCost := by decide
  obtain ⟨rule, hrule, hcost⟩ := Option.map_eq_some_iff.mp h.cost_eq
  rw [← hcost]
  exact hrules rule (List.mem_of_getElem? hrule)

/-- An instruction leaves the mass alone, and one that asks for something leaves all of its creature alone
and is offered what it asks for. -/
theorem Creature.execute_offers (c : Creature) (position : Vec) (s : Surroundings) (i : Instruction) :
    (c.execute position s i).Ensures fun effect => effect.creature.mass = c.mass ∧
      ∀ r, effect.request = some r → effect.creature = c ∧ s.Offers c position r := by
  -- an instruction that asks for nothing
  have quiet {d : Creature} {push : Option Vec} (hmass : d.mass = c.mass) :
      ({ creature := d, push } : Effect).creature.mass = c.mass ∧
        ∀ r, ({ creature := d, push } : Effect).request = some r → d = c ∧ s.Offers c position r :=
    ⟨hmass, fun r hr => by cases hr⟩
  unfold execute
  cases i with
  | move power => exact .pure (quiet rfl)
  | turn facing => exact .bind .any fun direction _ => .pure (quiet rfl)
  | jump condition goal => exact .ite (fun _ => .pure (quiet rfl)) fun _ => .pure (quiet rfl)
  | attack =>
    dsimp only
    split
    · rename_i target hnearest
      refine .pure ⟨rfl, fun r hr => ?_⟩
      cases hr
      exact ⟨rfl, target, nearestCreature_exposes hnearest, rfl, rfl⟩
    · exact .pure (quiet rfl)
  | replicate =>
    refine .ite (fun hguard => .pure ⟨rfl, fun r hr => ?_⟩) fun _ => .pure (quiet rfl)
    cases hr
    exact ⟨rfl, hguard⟩
  | wait => exact .pure (quiet rfl)

namespace Turn

/-- A gene adds at most one request, which is offered; one that adds a request leaves its cost as delay. -/
theorem executeGene_offers (position : Vec) (s : Surroundings) (t : Turn) :
    (executeGene position s t).Ensures fun t' => t'.creature.mass = t.creature.mass ∧
      (t'.requests = t.requests ∨ ∃ r, t'.requests = t.requests ++ [r] ∧ s.Offers t.creature position r ∧
        ∃ g ∈ t.creature.program.genes, t'.creature.moveDelay = g.timeCost) := by
  unfold executeGene
  refine .bind (Creature.execute_offers _ _ _ _) fun effect heffect => ?_
  refine .bind .any fun next _ => .pure ⟨heffect.1, ?_⟩
  dsimp only
  cases hrequest : effect.request with
  | none => exact .inl (List.append_nil _)
  | some r =>
    -- the request was offered to the creature as it was before the gene, and its cursor has only moved
    -- since
    obtain ⟨hcreature, hoffers⟩ := heffect.2 r hrequest
    refine .inr ⟨r, rfl, hoffers.congr ⟨rfl, rfl, rfl, rfl, rfl, rfl, rfl⟩ rfl,
      t.creature.program.gene (t.creature.program.wrap t.creature.cursor), List.get_mem _ _, ?_⟩
    rw [hcreature]

/-- All that was asked for in the turn was offered to the creature that began it. -/
structure Fair (s : Surroundings) (c : Creature) (position : Vec) (t : Turn) : Prop where
  lives   : c.Lives t.creature
  mass_eq : t.creature.mass = c.mass
  offered : ∀ r ∈ t.requests, s.Offers c position r

/-- At most one thing was asked for, and whoever asked is busy. -/
def Modest (t : Turn) : Prop :=
  t.requests = [] ∨ t.requests.length = 1 ∧ 0 < t.creature.moveDelay

/-- A gene asks for what was offered at most. -/
theorem executeGene_fair {position : Vec} {s : Surroundings} {c : Creature} {t : Turn}
    (ht : t.Fair s c position) : (executeGene position s t).Ensures (·.Fair s c position) := by
  intro source t' source' hrun
  have hlives := Creature.executeGene_ensures position s t source t' source' hrun
  obtain ⟨hmass, hrequests⟩ := executeGene_offers position s t source t' source' hrun
  refine ⟨ht.lives.trans hlives, hmass.trans ht.mass_eq, fun r hr => ?_⟩
  -- the gene adds one request at most, and those from before were fair already
  rcases hrequests with hsame | ⟨r', hadded, hoffers, -⟩
  · rw [hsame] at hr
    exact ht.offered r hr
  · rw [hadded, List.mem_append, List.mem_singleton] at hr
    rcases hr with hr | rfl
    · exact ht.offered r hr
    · exact hoffers.congr ht.lives.toSame.symm ht.mass_eq.symm

/-- So do all genes of a turn. The induction is on the genes that may still be executed. -/
theorem executeGenes_fair {position : Vec} {s : Surroundings} {c : Creature} :
    ∀ (budget : Nat) {t : Turn}, t.Fair s c position →
      (executeGenes position s budget t).Ensures (·.Fair s c position)
  | 0, _, ht => .pure ht
  | budget + 1, _, ht => by
    unfold executeGenes
    refine .ite (fun _ => ?_) fun _ => .pure ht
    exact .bind (executeGene_fair ht) fun t' ht' => executeGenes_fair budget ht'

/-- A creature that is not busy has asked for nothing yet, and asks for one thing at most. -/
theorem executeGene_modest {position : Vec} {s : Surroundings} {t : Turn}
    (hprogram : t.creature.program.Executable) (ht : t.requests = []) :
    (executeGene position s t).Ensures fun t' => t'.creature.program.Executable ∧ t'.Modest := by
  intro source t' source' hrun
  have hlives := Creature.executeGene_ensures position s t source t' source' hrun
  obtain ⟨-, hrequests⟩ := executeGene_offers position s t source t' source' hrun
  refine ⟨hlives.program_eq ▸ hprogram, ?_⟩
  -- whatever asks for something takes time, and with time to wait out the turn is over
  rcases hrequests with hsame | ⟨r, hadded, -, g, hg, hdelay⟩
  · exact .inl (hsame.trans ht)
  · refine .inr ⟨?_, ?_⟩
    · rw [hadded, ht]
      rfl
    · rw [hdelay]
      exact (hprogram g hg).timeCost_pos

/-- No gene is executed after a request, so there is one at most. -/
theorem executeGenes_modest {position : Vec} {s : Surroundings} :
    ∀ (budget : Nat) {t : Turn}, t.creature.program.Executable → t.Modest →
      (executeGenes position s budget t).Ensures (·.Modest)
  | 0, _, _, ht => .pure ht
  | budget + 1, t, hprogram, ht => by
    unfold executeGenes
    refine .ite (fun hidle => ?_) fun _ => .pure ht
    -- the turn goes on only without delay, so nothing was asked for
    have hnothing : t.requests = [] := by
      rcases ht with hnothing | ⟨-, hbusy⟩
      · exact hnothing
      · omega
    exact .bind (executeGene_modest hprogram hnothing) fun t' ht' =>
      executeGenes_modest budget ht'.1 ht'.2

end Turn

namespace Creature

variable {c : Creature} {position : Vec} {s : Surroundings}

/-- Whatever a creature asks for in its turn was offered to it. -/
theorem takeTurn_fair : (c.takeTurn position s).Ensures (·.Fair s c position) := by
  unfold takeTurn
  refine .ite (fun _ => .pure ⟨?_, rfl, fun r hr => by cases hr⟩) fun _ => Turn.executeGenes_fair _ ?_
  · exact ⟨⟨rfl, rfl, rfl, rfl, rfl, rfl, rfl⟩, fun h => ⟨h.cursor_lt, h.pending_none⟩⟩
  · exact ⟨.refl c, rfl, fun r hr => by cases hr⟩

/-- A creature whose genes agree with the catalog asks for one thing at most. -/
theorem takeTurn_modest (hprogram : c.program.Executable) :
    (c.takeTurn position s).Ensures fun turn => turn.requests.length ≤ 1 := by
  have hturn : (c.takeTurn position s).Ensures (·.Modest) := by
    unfold takeTurn
    exact .ite (fun _ => .pure (.inl rfl)) fun _ =>
      Turn.executeGenes_modest _ hprogram (.inl rfl)
  refine hturn.mono fun turn hmodest => ?_
  rcases hmodest with hnothing | ⟨hone, -⟩
  · simp [hnothing]
  · exact hone.le

end Creature

/-- Life keeps a program, and programs that arrive are executable. -/
theorem executable_vital [LawfulPhysics E] : World.Vital E fun c => c.program.Executable where
  lives   := fun c d hlives h => by
    rw [hlives.program_eq]
    exact h
  arrives := fun w seed c es harrives hall => harrives.executable hall

/-- What is told when the request of a creature is carried out: an attack, which may kill its target, or
the birth of a child, which may be mutated. -/
def Interaction.Tells (actor : Ident) (tick : Nat) (told : List Event) : Interaction → Prop
  | .attack _ target => told = [.attack actor target tick] ∨
    ∃ age, told = [.attack actor target tick, .death target age tick]
  | .replicate => ∃ child generation, told = [.birth child (some actor) generation tick] ∨
    ∃ operator, told = [.birth child (some actor) generation tick, .mutation child operator tick]

/-! ## The stage of a turn -/

namespace Stage

variable {s s' : Stage E}

/-- Before its genes are run, a creature has fed and its laser has been counted down. -/
def prepared (s : Stage E) (rank : Rank) : Stage E := (s.feed rank).tickLaser rank

/-- A turn of a creature that is alive is its four parts. -/
theorem turn_inv {s s' : Stage E} {rank : Rank} (hthere : rank ∈ s.world.creatures.keys)
    (h : s.turn rank = .ok s') :
    ∃ requests ran done, (s.prepared rank).runGenes rank = .ok (requests, ran) ∧
      requests.foldlM (interact rank) ran = .ok done ∧ s' = done.metabolize rank := by
  unfold turn at h
  rw [if_pos (Table.contains_iff_mem_keys.mpr hthere)] at h
  obtain ⟨⟨requests, ran⟩, hgenes, h⟩ := except_bind_inv h
  obtain ⟨done, hdone, hpure⟩ := except_bind_inv h
  cases hpure
  exact ⟨requests, ran, done, Outcome.ofFault_inv hgenes, hdone, rfl⟩

/-- Nobody's turn is taken where nobody is. -/
theorem turn_of_gone {s s' : Stage E} {rank : Rank} (hgone : rank ∉ s.world.creatures.keys)
    (h : s.turn rank = .ok s') : s' = s := by
  unfold turn at h
  rw [if_neg fun hthere => hgone (Table.contains_iff_mem_keys.mp hthere)] at h
  cases h
  rfl

omit [Physics E] in
/-- A creature sees what is in view, and counts the population. -/
theorem surroundings_seen (s : Stage E) (c : Creature) :
    (s.surroundings c).1.creatures = s.views ∧
      (s.surroundings c).1.population = s.world.population ∧
      (s.surroundings c).1.config = s.world.config := by
  unfold surroundings
  dsimp only
  split
  · exact ⟨rfl, rfl, rfl⟩
  · exact ⟨rfl, rfl, rfl⟩

/-- Whoever is in view is alive, and shows what it is. -/
theorem Current.viewed (h : s.Current) (hranked : s.world.Ranked) {v : CreatureView} (hv : v ∈ s.views) :
    ∃ c, s.world.creatures.get? v.rank = some c ∧ v.unplaced = World.unplacedView v.rank c := by
  have hmem : v.unplaced ∈ s.views.map (·.unplaced) := List.mem_map_of_mem hv
  rw [h.creatures, World.unplaced_creatureViews, List.mem_map] at hmem
  obtain ⟨⟨rank, c⟩, hentry, heq⟩ := hmem
  have hrank : rank = v.rank := congrArg (·.rank) heq
  subst hrank
  exact ⟨c, (Table.get?_eq_some_iff hranked.creatures_nodup).mpr hentry, heq.symm⟩

/-- Whoever is in view is alive under the identity that is seen. -/
theorem Current.mem_views (h : s.Current) (hranked : s.world.Ranked) {v : CreatureView}
    (hv : v ∈ s.views) : ∃ c, s.world.creatures.get? v.rank = some c ∧ c.id = v.id := by
  obtain ⟨c, hc, hview⟩ := h.viewed hranked hv
  exact ⟨c, hc, (congrArg (·.id) hview).symm⟩

variable [LawfulPhysics E]

/-- Food aside, feeding changes the state of living creatures only. -/
theorem feed_retains (s : Stage E) (rank : Rank) : s.world.Retains (s.feed rank).world := by
  rcases s.feed_cases rank with hnothing | ⟨eater, food, pellet, world, -, hremoved, hfed⟩
  · rw [hnothing]
    exact .refl _
  · rw [hfed]
    -- the meal changes the eater alone, and takes a pellet out
    have hretains := (world.fed_quiet rank eater).retains
    obtain ⟨-, rfl⟩ := World.removePellet_inv hremoved
    exact ⟨hretains.keys_eq, hretains.lives⟩

/-- To count down a laser leaves everybody alive. -/
theorem tickLaser_retains (s : Stage E) (rank : Rank) : s.world.Retains (s.tickLaser rank).world := by
  rcases s.tickLaser_cases rank with hnothing | ⟨own, target, hticked⟩
  · rw [hnothing]
    exact .refl _
  · rw [hticked]
    exact World.Quiet.retains (.modify fun c _ => c.tickLaser_lives _ _)

/-- Before its genes are run, a creature's turn leaves everybody alive. -/
theorem prepared_retains (s : Stage E) (rank : Rank) : s.world.Retains (s.prepared rank).world :=
  (s.feed_retains rank).trans (tickLaser_retains _ rank)

/-- And it has taken steps only. -/
theorem prepared_steps (s : Stage E) (rank : Rank) : s.Steps (s.prepared rank) :=
  (s.feed_steps rank).trans (tickLaser_steps _ rank)

/-! ## Granting -/

/-- An attack on a target that is alive under the identity that was chosen is carried out. -/
theorem attack_tells {actor target : Rank} {attacker victim : Creature}
    (hattacker : s.world.creatures.get? actor = some attacker)
    (hvictim : s.world.creatures.get? target = some victim) :
    ∃ told, (Interaction.attack target victim.id).Tells attacker.id s.world.tick told ∧
      (s.attack actor target victim.id).events = s.events ++ told := by
  have hquiet := s.world.exchanged_quiet actor target attacker victim victim.id
  rw [attack_eq, hattacker, hvictim]
  dsimp only
  rw [if_neg (not_not_intro rfl)]
  -- the target is still who it was when it is looked at for the last time
  obtain ⟨bitten, hbitten, hlives⟩ := hquiet.lives target victim hvictim
  generalize s.world.exchanged actor target attacker victim victim.id = world at *
  rcases reap_events ({ s with world }.log (.attack attacker.id victim.id world.tick)) target with
    hspared | ⟨c, hc, hkilled⟩
  · refine ⟨_, .inl rfl, ?_⟩
    rw [hspared, ← hquiet.tick_eq]
    rfl
  · change world.creatures.get? target = some c at hc
    rw [hbitten, Option.some.injEq] at hc
    subst hc
    refine ⟨_, .inr ⟨bitten.age world.tick, rfl⟩, ?_⟩
    rw [hkilled, hlives.id_eq, ← hquiet.tick_eq]
    simp [log]

/-- A parent that is heavy enough in a world that is not full has its child. -/
theorem replicate_tells {rank : Rank} {parent : Creature}
    (hparent : s.world.creatures.get? rank = some parent)
    (hheavy : s.world.config.metabolism.replicateMass ≤ parent.mass)
    (hroom : s.world.population < s.world.config.world.populationCap) :
    Outcome.Ensures (s.replicate rank) fun s' => ∃ told,
      Interaction.replicate.Tells parent.id s.world.tick told ∧ s'.events = s.events ++ told := by
  have hguard : ¬ (parent.mass < s.world.config.metabolism.replicateMass ∨
      s.world.config.world.populationCap ≤ s.world.population) := by
    rintro (hlight | hfull)
    · exact Double.not_lt_of_le hheavy hlight
    · omega
  rw [replicate_eq, hparent]
  dsimp only
  rw [if_neg hguard]
  refine .bind (World.build_ensures (Birth.child_ensures _ _ _ _ _) s.world) ?_
  rintro ⟨⟨birth, enclosure⟩, world⟩ ⟨-, source, rfl⟩
  have htick := (World.Quiet.setMass { s.world with source, enclosure } rank
    (parent.mass - birth.creature.mass)).tick_eq
  refine .pure ⟨_, ?_, deliver_events _ _ _ _⟩
  unfold birthEvents
  rw [htick]
  refine ⟨birth.creature.id, birth.creature.lineage.generation, ?_⟩
  -- a mutation is told where an operator was selected
  cases birth.operator with
  | none => exact .inl rfl
  | some operator => exact .inr ⟨operator.name, rfl⟩

/-- What was offered to a creature when it asked is granted when its turn comes to that. -/
theorem interact_tells (hranked : s.world.Ranked) (hcurrent : s.Current) {seen : Surroundings}
    (hviews : seen.creatures = s.views) (hpopulation : seen.population = s.world.population)
    (hconfig : seen.config = s.world.config) {rank : Rank} {c : Creature}
    (hc : s.world.creatures.get? rank = some c) {position : Vec} {r : Interaction}
    (hoffers : seen.Offers c position r) :
    Outcome.Ensures (interact rank s r) fun s' =>
      ∃ told, r.Tells c.id s.world.tick told ∧ s'.events = s.events ++ told := by
  cases r with
  | attack target targetId =>
    obtain ⟨v, hv, rfl, rfl⟩ := hoffers
    -- the view is of a creature that is still there, since views are kept up to date
    obtain ⟨victim, hvictim, hid⟩ := hcurrent.mem_views hranked (hviews ▸ hv.mem)
    rw [← hid]
    exact .pure (attack_tells hc hvictim)
  | replicate =>
    obtain ⟨hheavy, hroom⟩ := hoffers
    rw [hconfig] at hheavy hroom
    rw [hpopulation] at hroom
    exact replicate_tells hc hheavy hroom

/-- Running the genes of a creature yields what was offered to it; afterwards it is there with the mass
that it had. -/
theorem runGenes_offers {rank : Rank} {c : Creature} {requests : List Interaction}
    (hc : s.world.creatures.get? rank = some c) (hgenes : s.runGenes rank = .ok (requests, s')) :
    s'.views = s.views ∧ s'.world.population = s.world.population ∧
      s'.world.config = s.world.config ∧ s'.world.tick = s.world.tick ∧
      ∃ c', s'.world.creatures.get? rank = some c' ∧ c.Lives c' ∧
        ∀ r ∈ requests, (s.surroundings c).1.Offers c' (s.world.placeOf c.body) r := by
  obtain ⟨turn, source, source', world, hturn, rfl, rfl, hquiet, hcreatures⟩ :=
    runGenes_inv hc hgenes
  have hfair := Creature.takeTurn_fair source turn source' hturn
  refine ⟨rfl, hquiet.retains.population_eq, hquiet.config_eq, hquiet.tick_eq, turn.creature, ?_,
    hfair.lives, fun r hr => ?_⟩
  · rw [hcreatures, Table.get?_modify, if_pos rfl, hc]
    rfl
  · exact (hfair.offered r hr).congr hfair.lives.toSame hfair.mass_eq

/-- It yields one request at most, where the program is executable. -/
theorem runGenes_modest {rank : Rank} {c : Creature} {requests : List Interaction}
    (hc : s.world.creatures.get? rank = some c) (hprogram : c.program.Executable)
    (hgenes : s.runGenes rank = .ok (requests, s')) : requests.length ≤ 1 := by
  obtain ⟨turn, source, source', world, hturn, rfl, -, -, -⟩ := runGenes_inv hc hgenes
  exact Creature.takeTurn_modest hprogram source turn source' hturn

end Stage

variable [LawfulPhysics E]

/-- Whichever turns of a tick have been taken, ranks are in order and views are current, and the world has
gone through a course of changes since the tick began, which was told. -/
theorem World.during_tick {w : World E} {t : TickCall} {start now : Stage E} {before : List Rank}
    (hranked : w.Ranked) (hstart : w.openingBy t = .ok start) (hturns : start.turns before = .ok now) :
    now.world.Ranked ∧ now.Current ∧
      ∃ told, w.counted.Course told now.world ∧ now.events = start.events ++ told := by
  obtain ⟨opened, rfl, hopened, -⟩ := (w.openingBy_ensures t).of_ok hstart
  have hcounted : w.counted.Ranked := hranked.retold _ _ _
  have hsteps : (Stage.start opened w.pendingEvents).Steps now :=
    (Stage.turns_ensures _ before).of_ok hturns
  obtain ⟨hlater, hcurrent⟩ := hsteps.current (hcounted.course hopened) (.start opened _)
  obtain ⟨told, hcourse, htold⟩ := hsteps.advances
  exact ⟨hlater, hcurrent, told, hopened.trans hcourse, htold⟩

/-- So it is in every tick of every run. -/
theorem History.during_tick {config : Config} {enclosure : E} {entropy : BitVec 256} {calls : List Call}
    {h : History E} {t : TickCall} {start now : Stage E} {before : List Rank}
    (hrun : run config enclosure entropy calls = .ok h) (hstart : h.world.openingBy t = .ok start)
    (hturns : start.turns before = .ok now) :
    now.world.Ranked ∧ now.Current ∧
      ∃ told, h.world.counted.Course told now.world ∧ now.events = start.events ++ told :=
  World.during_tick (ranked_run hrun) hstart hturns

/-- **No request is dropped.** In every tick of every run, a creature whose turn has come asks for one
thing at most, and this is carried out: an attack is told with the creature and the target that it chose,
and a replication is told by the birth of one child of the creature. Nothing else is told in between but
the target's death or the child's mutation. -/
theorem requests_are_granted {config : Config} {enclosure : E} {entropy : BitVec 256}
    {ticks : List TickCall} {h : History E} {t : TickCall} {start s s' : Stage E}
    {before after : List Rank} {rank : Rank} {c : Creature} {requests : List Interaction}
    (hrun : History.run config enclosure entropy (ticks.map .tick) = .ok h)
    (hstart : h.world.openingBy t = .ok start)
    (hranks : start.views.map (·.rank) = before ++ rank :: after)
    (hturns : start.turns before = .ok s) (hc : s.world.creatures.get? rank = some c)
    (hgenes : (s.prepared rank).runGenes rank = .ok (requests, s')) :
    h.world.tickBy t = (do
      let stage ← s.turns (rank :: after)
      World.closing (start.views.map (·.rank)) stage) ∧
    s.turn rank = (do return (← requests.foldlM (Stage.interact rank) s').metabolize rank) ∧
    (requests = [] ∨ ∃ r, requests = [r] ∧ Outcome.Ensures (requests.foldlM (Stage.interact rank) s')
      fun s'' => ∃ told, r.Tells c.id s'.world.tick told ∧ s''.events = s'.events ++ told) := by
  -- at the creature's turn its program is executable and the views are current
  obtain ⟨hranked, hcurrent, told, hcourse, -⟩ := History.during_tick hrun hstart hturns
  have hprograms : h.world.counted.All fun c => c.program.Executable :=
    History.all_run executable_vital hrun
  have hexecutable : c.program.Executable := hprograms.course executable_vital hcourse rank c hc
  obtain ⟨hready, hreadyCurrent⟩ := (s.prepared_steps rank).current hranked hcurrent
  obtain ⟨hasked, haskedCurrent⟩ := (Stage.runGenes_steps hgenes).current hready hreadyCurrent
  -- it is still there when its genes are run, and these yield one request at most
  obtain ⟨d, hd, hlives⟩ := (s.prepared_retains rank).lives rank c hc
  have hmodest := Stage.runGenes_modest hd (hlives.program_eq ▸ hexecutable) hgenes
  obtain ⟨hviews, hpopulation, hconfig, -, d', hd', hlives', hoffered⟩ := Stage.runGenes_offers hd hgenes
  refine ⟨World.tickBy_after hstart hranks hturns, ?_, ?_⟩
  · unfold Stage.turn
    rw [if_pos (Table.contains_iff_mem_keys.mpr (Table.mem_keys_of_get? hc))]
    change (Outcome.ofFault ((s.prepared rank).runGenes rank) >>= _) = _
    rw [hgenes]
    rfl
  · match requests, hmodest, hoffered with
    | [], _, _ => exact .inl rfl
    | [r], _, hoffered =>
      refine .inr ⟨r, rfl, ?_⟩
      obtain ⟨hseen, hcounted, hread⟩ := (s.prepared rank).surroundings_seen d
      have hgranted := Stage.interact_tells hasked haskedCurrent (hseen.trans hviews.symm)
        (hcounted.trans hpopulation.symm) (hread.trans hconfig.symm) hd'
        (hoffered r List.mem_cons_self)
      rw [hlives'.id_eq, hlives.id_eq] at hgranted
      rw [List.foldlM_cons]
      exact .bind hgranted fun s'' hs'' => .pure hs''

/-- Two creatures without food in a world so small that they are in reach of each other. Neither needs
anything to live. -/
def Config.cramped : Config :=
  { world      :=
      { width := 20.0, height := 20.0, seed := some 43, populationFloor := 2, freshSpawnMass := 100.0 }
    food       := { maxFood := 0.0, maxFoodEarly := 0.0 }
    metabolism := { starvationRate := 0.0, starvationRateEarly := 0.0 } }

/-- In the first tick, the first of the two attacks the other. -/
theorem requests_are_granted_cramped :
    ∃ h start s' c victim,
      History.run .cramped (Enclosure.empty 20.0 20.0) 0 ([].map .tick) = .ok h ∧
      h.world.openingBy .update = .ok start ∧
      start.views.map (·.rank) = [] ++ ⟨1⟩ :: [⟨2⟩] ∧ start.turns [] = .ok start ∧
      start.world.creatures.get? ⟨1⟩ = some c ∧ start.world.creatures.get? ⟨2⟩ = some victim ∧
      (start.prepared ⟨1⟩).runGenes ⟨1⟩ = .ok ([.attack ⟨2⟩ victim.id], s') ∧
      Outcome.Ensures ([.attack ⟨2⟩ victim.id].foldlM (Stage.interact ⟨1⟩) s') fun s'' =>
        ∃ told, (Interaction.attack ⟨2⟩ victim.id).Tells c.id s'.world.tick told ∧
          s''.events = s'.events ++ told := by
  -- that the first creature attacks the second is computed, and that this is granted is taken from the
  -- theorem
  have hcheck : (History.run .cramped (Enclosure.empty 20.0 20.0) 0 ([].map .tick)).toOption.any (fun h =>
      (h.world.openingBy .update).toOption.any fun start =>
        ((start.prepared ⟨1⟩).runGenes ⟨1⟩).toOption.any fun ran =>
          (start.world.creatures.get? ⟨1⟩).isSome &&
            (start.world.creatures.get? ⟨2⟩).any fun victim =>
              decide (start.views.map (·.rank) = [] ++ ⟨1⟩ :: [⟨2⟩] ∧
                ran.1 = [.attack ⟨2⟩ victim.id])) = true := by
    decide +kernel
  obtain ⟨h, hrun, hcheck⟩ := except_any_inv hcheck
  obtain ⟨start, hstart, hcheck⟩ := except_any_inv hcheck
  obtain ⟨⟨requests, s'⟩, hgenes, hcheck⟩ := except_any_inv hcheck
  obtain ⟨hactor, hcheck⟩ := Bool.and_eq_true_iff.mp hcheck
  obtain ⟨c, hc⟩ := Option.isSome_iff_exists.mp hactor
  obtain ⟨victim, hvictim, hcheck⟩ := (Option.any_eq_true _ _).mp hcheck
  obtain ⟨hranks, rfl⟩ := of_decide_eq_true hcheck
  have hturns : start.turns [] = .ok start := rfl
  obtain ⟨-, -, hnone | ⟨r, hone, hgranted⟩⟩ :=
    requests_are_granted hrun hstart hranks hturns hc hgenes
  · cases hnone
  · cases hone
    exact ⟨h, start, s', c, victim, hrun, hstart, hranks, hturns, hc, hvictim, hgenes, hgranted⟩

end Vivarium
