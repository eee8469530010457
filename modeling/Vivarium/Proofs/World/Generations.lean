import Vivarium.Proofs.World.Ledger
import Vivarium.Proofs.World.Walls

/-!
# Generations keep pace with the clock

A child is of the generation after its parent's, and whoever is born in a tick has no turn in it. So among
those who are alive the generations go up by one in a tick at most, and nobody's generation is more than one
ahead of the clock. Mutations are counted in the same line and are always fewer. On the way through a tick
this holds as long as those who have turns, whose ranks were given out before, are told apart from the others
(`World.Paced`). The sides of the enclosure, which a tick leaves alone too, are carried along.

Main result: `History.paced_run`.
-/

namespace Vivarium

/-- At most `g` generations are counted, and fewer mutations than generations. -/
structure Lineage.Upto (g : Nat) (l : Lineage) : Prop where
  mutations_lt  : l.mutations < l.generation
  generation_le : l.generation ≤ g

/-- What counts up to some number counts up to a larger one. -/
theorem Lineage.Upto.mono {g k : Nat} {l : Lineage} (h : l.Upto g) (hle : g ≤ k) : l.Upto k :=
  ⟨h.mutations_lt, h.generation_le.trans hle⟩

/-- A child counts one generation more than its parent, and one mutation more at most. -/
theorem Birth.childLineage_upto {parent : Creature} {g : Nat} (hparent : parent.lineage.Upto g)
    {mutated : Bool} {lineage : Lineage} (h : childLineage parent mutated = .ok lineage) :
    lineage.Upto (g + 1) := by
  obtain rfl := childLineage_inv h
  have hlt := hparent.mutations_lt
  have hle := hparent.generation_le
  have hone : mutated.toNat ≤ 1 := Bool.toNat_le mutated
  refine ⟨?_, Nat.succ_le_succ hle⟩
  show parent.lineage.mutations + mutated.toNat < parent.lineage.generation + 1
  omega

/-- A world on a configuration, in an enclosure with given sides, in which whoever holds one of the ranks up
to `last` is of generation `g` at most, and whoever holds a later one is of the next at most. -/
structure World.Paced (config : Config) (sides : Float × Float) (last g : Nat) (w : World Enclosure) : Prop where
  config_eq : w.config = config
  sides_eq  : w.sides = sides
  last_le   : last ≤ w.lastRank
  lineages  : ∀ rank c, w.creatures.get? rank = some c →
    c.lineage.Upto (if rank.number ≤ last then g else g + 1)

variable {config : Config} {sides : Float × Float} {last g : Nat}

namespace World.Paced

variable {w w' : World Enclosure}

/-- Where nobody is of a later generation than `g`, the ranks given out so far are the first. -/
theorem of_all (hall : w.All (·.lineage.Upto g)) : w.Paced w.config w.sides w.lastRank g where
  config_eq := rfl
  sides_eq  := rfl
  last_le   := Nat.le_refl _
  lineages  := by
    intro rank c hc
    refine (hall rank c hc).mono ?_
    split
    · exact Nat.le_refl g
    · exact Nat.le_succ g

/-- In any case nobody is of a later generation than the next. -/
theorem all (h : w.Paced config sides last g) : w.All (·.lineage.Upto (g + 1)) := by
  intro rank c hc
  refine (h.lineages rank c hc).mono ?_
  split
  · exact Nat.le_succ g
  · exact Nat.le_refl _

/-- Life does not change a lineage. -/
theorem quiet (h : w.Paced config sides last g) (hquiet : w.Quiet w') (hsides : w'.sides = w.sides) :
    w'.Paced config sides last g where
  config_eq := hquiet.config_eq.trans h.config_eq
  sides_eq  := hsides.trans h.sides_eq
  last_le   := hquiet.lastRank_eq ▸ h.last_le
  lineages  := by
    intro rank d hd
    obtain ⟨c, hc, hlives⟩ := hquiet.lived hd
    rw [hlives.lineage_eq]
    exact h.lineages rank c hc

/-- A newcomer holds a later rank than the first, so it may be of the next generation. -/
theorem spawnCreature (h : w.Paced config sides last g) {c : Creature} (hc : c.lineage.Upto (g + 1)) :
    (w.spawnCreature c).Paced config sides last g where
  config_eq := h.config_eq
  sides_eq  := h.sides_eq
  last_le   := Nat.le_succ_of_le h.last_le
  lineages  := by
    intro rank d hd
    change (w.creatures.insert ⟨w.lastRank + 1⟩ c).get? rank = some d at hd
    rw [Table.get?_insert] at hd
    split at hd
    · -- the newcomer is one generation further, and has a rank that the earlier ones do not reach
      rename_i heq
      cases hd
      have hlast := h.last_le
      rw [heq, if_neg (by show ¬ w.lastRank + 1 ≤ last; omega)]
      exact hc
    · exact h.lineages rank d hd

/-- Who is taken out counts no more. -/
theorem removeCreature (h : w.Paced config sides last g) {rank : Rank} {c : Creature}
    (hremoved : w.removeCreature rank = some (c, w')) : w'.Paced config sides last g := by
  obtain ⟨-, rfl⟩ := removeCreature_inv hremoved
  refine ⟨h.config_eq, h.sides_eq, h.last_le, fun rank' d hd => ?_⟩
  change (w.creatures.erase rank).get? rank' = some d at hd
  rw [Table.get?_erase] at hd
  split at hd
  · cases hd
  · exact h.lineages rank' d hd

/-- Pellets have no lineage. -/
theorem removePellet (h : w.Paced config sides last g) {rank : Rank} {p : Pellet}
    (hremoved : w.removePellet rank = some (p, w')) : w'.Paced config sides last g := by
  obtain ⟨-, rfl⟩ := removePellet_inv hremoved
  exact ⟨h.config_eq, h.sides_eq, h.last_le, h.lineages⟩

/-- A pellet takes a rank that is yet to come. -/
theorem spawnPellet (h : w.Paced config sides last g) {place : Vec} {p : Pellet}
    (hspawn : w.spawnPellet place = .ok (p, w')) : w'.Paced config sides last g := by
  obtain ⟨source, -, -, rfl⟩ := spawnPellet_inv hspawn
  exact ⟨h.config_eq, h.sides_eq, Nat.le_succ_of_le h.last_le, h.lineages⟩

end World.Paced

/-! ## Turns -/

namespace Stage

variable {s s' : Stage Enclosure} {rank : Rank}

/-- The dead leave the lineages of the others as they are. -/
theorem reap_paced (h : s.world.Paced config sides last g) (rank : Rank) :
    (s.reap rank).world.Paced config sides last g := by
  rcases s.reap_cases rank with hspared | ⟨c, world, -, hremoved, hreaped⟩
  · rw [hspared]
    exact h
  · rw [hreaped]
    exact h.removeCreature hremoved

/-- To eat does not change a lineage. -/
theorem feed_paced (h : s.world.Paced config sides last g) (rank : Rank) :
    (s.feed rank).world.Paced config sides last g := by
  rcases s.feed_cases rank with hnothing | ⟨eater, food, pellet, world, -, hremoved, hfed⟩
  · rw [hnothing]
    exact h
  · rw [hfed]
    -- a meal takes a pellet out and moves nobody
    exact (h.removePellet hremoved).quiet (world.fed_quiet rank eater) (world.sides_fed rank eater)

/-- To hold a laser does not either. -/
theorem tickLaser_paced (h : s.world.Paced config sides last g) (rank : Rank) :
    (s.tickLaser rank).world.Paced config sides last g := by
  rcases s.tickLaser_cases rank with hnothing | ⟨own, target, hticked⟩
  · rw [hnothing]
    exact h
  · rw [hticked]
    exact h.quiet (.modify fun c _ => c.tickLaser_lives _ _) rfl

/-- Whatever a creature's genes do, they leave the sides alone. -/
theorem sides_runGenes {requests : List Interaction} (h : s.runGenes rank = .ok (requests, s')) :
    s'.world.sides = s.world.sides := by
  rcases runGenes_cases h with ⟨-, -, rfl⟩ | ⟨c, turn, source, similarity, -, -, -, rfl⟩
  · rfl
  · -- a turn pushes its creature, and a push does not move the walls
    exact Enclosure.sides_pushes _ _ _

/-- Nor does running the genes, and pushes leave the sides. -/
theorem runGenes_paced (h : s.world.Paced config sides last g) {requests : List Interaction}
    (hgenes : s.runGenes rank = .ok (requests, s')) : s'.world.Paced config sides last g := by
  have hsides := sides_runGenes hgenes
  obtain ⟨world, rfl, hquiet⟩ := runGenes_quiet hgenes
  exact h.quiet hquiet hsides

/-- An attack changes masses, hungers and a laser. -/
theorem attack_paced (h : s.world.Paced config sides last g) (actor target : Rank) (targetId : Ident) :
    (s.attack actor target targetId).world.Paced config sides last g := by
  rcases s.attack_cases actor target targetId with hnothing | ⟨attacker, victim, -, -, -, hattack⟩
  · rw [hnothing]
    exact h
  · rw [hattack]
    exact reap_paced (h.quiet (World.exchanged_quiet _ _ _ _ _ _) (World.sides_exchanged _ _ _ _ _ _)) target

/-- The child of one of the first ranks is of the next generation at most. -/
theorem replicate_paced (h : s.world.Paced config sides last g) (hrank : rank.number ≤ last) :
    Outcome.Ensures (s.replicate rank) (·.world.Paced config sides last g) := by
  refine (s.replicate_cases rank).mono fun s' hreplicated => ?_
  cases hreplicated with
  | refused => exact h
  | @delivered parent birth o _ lineage source hparent _ _ _ hchild hnewborn =>
    have hlineage := h.lineages rank parent hparent
    rw [if_pos hrank] at hlineage
    rw [deliver_world]
    have hborn : birth.creature.lineage.Upto (g + 1) := by
      rw [hnewborn.lineage_eq]
      exact Birth.childLineage_upto hlineage hchild
    refine World.Paced.spawnCreature ?_ hborn
    -- the parent pays when the child's body is there and the child is not yet
    have hbodied (place : Vec) : World.Paced config sides last g { s.world with
        source, enclosure := (Birth.childSeed place s.world.config o lineage).bodied s.world.enclosure } :=
      ⟨h.config_eq, h.sides_eq, h.last_le, h.lineages⟩
    exact (hbodied _).quiet (.setMass _ _ _) (World.sides_setMass _ _ _)

/-- A request brings a child at most, whose rank is yet to come. -/
theorem interact_paced {actor : Rank} (hactor : actor.number ≤ last) (s : Stage Enclosure) (r : Interaction)
    (h : s.world.Paced config sides last g) :
    Outcome.Ensures (interact actor s r) (·.world.Paced config sides last g) := by
  cases r with
  | attack target targetId => exact .pure (attack_paced h actor target targetId)
  | replicate => exact replicate_paced h hactor

/-- Metabolism does not change a lineage. -/
theorem metabolize_paced (h : s.world.Paced config sides last g) (rank : Rank) :
    (s.metabolize rank).world.Paced config sides last g := by
  rw [metabolize_eq]
  refine reap_paced ?_ rank
  exact h.quiet (.modify fun c _ => c.starve_lives _) rfl

/-- The turn of one of the first ranks keeps the pace. -/
theorem turn_paced (hrank : rank.number ≤ last) (s : Stage Enclosure) (h : s.world.Paced config sides last g) :
    Outcome.Ensures (s.turn rank) (·.world.Paced config sides last g) := by
  unfold turn
  refine .ite (fun _ => ?_) fun _ => .pure h
  refine .bind (.ofFault fun _ hgenes => hgenes) ?_
  rintro ⟨requests, ran⟩ hgenes
  have hran := runGenes_paced (tickLaser_paced (feed_paced h rank) rank) hgenes
  refine .bind (.foldlM_invariant (interact_paced hrank) requests ran hran) fun done hdone => ?_
  exact .pure (metabolize_paced hdone rank)

/-- The induction is on the creatures whose turns are taken, all of whose ranks were given out before. -/
theorem turns_paced {ranks : List Rank} (hranks : ∀ rank ∈ ranks, rank.number ≤ last)
    (h : s.world.Paced config sides last g) :
    Outcome.Ensures (s.turns ranks) (·.world.Paced config sides last g) := by
  unfold turns
  exact .foldlM_of_mem (fun rank hrank s => turn_paced (hranks rank hrank) s) s h

end Stage

/-! ## Ticks -/

namespace World

variable {w : World Enclosure}

/-- Food has no lineage. -/
theorem spawnFood_paced (h : w.Paced config sides last g) {w' : World Enclosure} (hfood : w.spawnFood = .ok w') :
    w'.Paced config sides last g := by
  rcases spawnFood_cases hfood with ⟨-, rfl⟩ | ⟨place, source, pellet, -, -, hpellet⟩
  · exact h
  · -- the place of the pellet is drawn, which changes the source alone
    have hdrawn : World.Paced config sides last g { w with source } := h.quiet (.memory w source _) rfl
    exact hdrawn.spawnPellet hpellet

/-- Whoever has no parent is of the first generation. -/
theorem spawnFresh_paced (h : w.Paced config sides last g) :
    Outcome.Ensures w.spawnFresh fun (_, w') => w'.Paced config sides last g := by
  refine (w.spawnFresh_newborn (P := fun _ => True) fun _ => .any).mono ?_
  rintro ⟨e, w'⟩ ⟨place, program, c, source, -, hnewborn, -, -, rfl⟩
  have hborn : c.lineage.Upto (g + 1) := by
    rw [hnewborn.lineage_eq]
    exact ⟨Nat.zero_lt_one, Nat.le_add_left 1 g⟩
  refine Paced.spawnCreature ?_ hborn
  exact ⟨h.config_eq, (Creature.sides_setMass _ _ _).trans h.sides_eq, h.last_le, h.lineages⟩

/-- Fresh creatures are of the first generation. -/
theorem spawnMany_paced (n : Nat) (h : w.Paced config sides last g) :
    Outcome.Ensures (w.spawnMany n) fun (_, w') => w'.Paced config sides last g :=
  spawnMany_invariant (fun _ => spawnFresh_paced) n w h

/-- The turns of a tick begin at the pace at which the tick does. -/
theorem openingBy_paced (h : w.Paced config sides last g) (t : TickCall) :
    Outcome.Ensures (w.openingBy t) (·.world.Paced config sides last g) := by
  have hopening {w : World Enclosure} (h : w.Paced config sides last g) :
      Outcome.Ensures w.opening (·.world.Paced config sides last g) := by
    unfold opening
    -- the clock has gone on, but no creature has
    refine .bind (.ofFault (P := fun w' => w'.Paced config sides last g) fun w' hcount => ?_) fun w₁ h₁ => ?_
    · obtain ⟨-, rfl⟩ := countTick_inv hcount
      exact ⟨h.config_eq, h.sides_eq, h.last_le, h.lineages⟩
    · have hreported : World.Paced config sides last g { w₁ with pendingEvents := [] } :=
        ⟨h₁.config_eq, h₁.sides_eq, h₁.last_le, h₁.lineages⟩
      exact .bind (.ofFault fun _ hfood => spawnFood_paced hreported hfood) fun w₂ h₂ => .pure h₂
  cases t with
  | update => exact hopening h
  | advance dt =>
    refine .bind (.ofFault fun _ hstep => hstep) fun enclosure hstep => hopening ?_
    exact ⟨h.config_eq, (Enclosure.sides_step hstep).trans h.sides_eq, h.last_le, h.lineages⟩

/-- **In a tick generations go up by one** at most, and the sides are left alone. -/
theorem tickBy_paced (hranked : w.Ranked) (hall : w.All (·.lineage.Upto g)) {t : TickCall}
    {events : List Event} {w' : World Enclosure} (h : w.tickBy t = .ok (events, w')) :
    w'.All (·.lineage.Upto (g + 1)) ∧ w'.sides = w.sides := by
  obtain ⟨opened, stage, newborn, rest, hstart, -, hturns, -, hrefill, -⟩ := tickBy_inv h
  have hopened := (openingBy_paced (.of_all hall) t).of_ok hstart
  have hranks : ∀ rank ∈ w.creatures.keys, rank.number ≤ w.lastRank := fun rank hrank =>
    hranked.le rank (List.mem_append_left _ hrank)
  have hstage := (Stage.turns_paced hranks hopened).of_ok hturns
  have hfilled := (spawnMany_paced _ hstage).of_ok hrefill
  exact ⟨hfilled.all, hfilled.sides_eq⟩

end World

/-- **Nobody's generation is more than one ahead of the clock**, whatever ticks were called for, and the
enclosure keeps its sides. -/
theorem History.paced_run {enclosure : Enclosure} {entropy : BitVec 256} {ticks : List TickCall}
    {h : History Enclosure} (hrun : run config enclosure entropy (ticks.map .tick) = .ok h) :
    h.world.Ranked ∧ h.world.All (·.lineage.Upto (h.world.tick + 1)) ∧ h.world.sides = enclosure.sides := by
  refine run_induction hrun (P := fun h => h.world.Ranked ∧
    h.world.All (·.lineage.Upto (h.world.tick + 1)) ∧ h.world.sides = enclosure.sides) (fun w hw => ?_) ?_
  · -- whoever is spawned when a world is set up has no parent
    obtain ⟨-, births, w₁, hrefill, rfl⟩ := World.create_refill hw
    have hbare : (World.bare config enclosure entropy).Paced config enclosure.sides 0 0 :=
      ⟨rfl, rfl, Nat.zero_le _, fun _ _ hc => by cases hc⟩
    have hfilled := (World.spawnMany_paced _ hbare).of_ok hrefill
    have hcourse := (World.refill_ensures _).of_ok hrefill
    have htick : w₁.tick = 0 := hcourse.frame.2.1
    have hranked := (World.Ranked.bare config enclosure entropy).course hcourse
    refine ⟨hranked.retold _ _ _, ?_, hfilled.sides_eq⟩
    show w₁.All (·.lineage.Upto (w₁.tick + 1))
    rw [htick]
    exact hfilled.all
  · rintro h c h' hc ⟨hranked, hall, hsides⟩ hcall
    have hranked' := ranked_call hranked hcall
    obtain ⟨t, -, rfl⟩ := List.mem_map.mp hc
    obtain ⟨⟨events, w'⟩, htick, hpure⟩ := except_bind_inv hcall
    cases hpure
    obtain ⟨es, hcourse, -⟩ := (h.world.tickBy_ensures t).of_ok htick
    -- the clock goes on by one tick, and a child is one generation ahead of its parent
    have hclock : w'.tick = h.world.tick + 1 := hcourse.frame.2.1
    obtain ⟨hall', hsides'⟩ := World.tickBy_paced hranked hall htick
    refine ⟨hranked', ?_, hsides'.trans hsides⟩
    show w'.All (·.lineage.Upto (w'.tick + 1))
    rw [hclock]
    exact hall'

end Vivarium
