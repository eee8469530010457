import Vivarium.Proofs.World.TurnOrder

/-!
# The ledger of pellets

Three views of the pellets have to agree when a creature feeds: the list that was taken when the turns
began and is shortened with every meal, the engine, which tells what the creature's body overlaps, and
the index that finds a pellet by its body. They do, so that the creature eats the pellet that appeared
first among those that are still there and overlap it, and nothing else. Nobody but the creature whose turn
it is eats, and no other part of a tick takes pellets away. So the pellets after a tick are those before
it, and the one that may have appeared, without those that the tick tells to have been eaten.

Main result: `food_ledger`.
-/

namespace Vivarium

variable {E : Type} [Physics E]

/-! ## What overlaps -/

namespace World

variable [LawfulPhysics E]

/-- The pellet that a creature would eat: among those that its body overlaps, the one that appeared first. -/
def mealOf (w : World E) (c : Creature) : Option (Rank × Pellet) :=
  w.pellets.entries.find? fun e => LawfulPhysics.overlaps w.enclosure c.body e.2.body

/-- The engine and the index together find that pellet. -/
theorem Coherent.find_meal {w : World E} (h : w.Coherent []) {rank : Rank} {c : Creature}
    (hc : w.creatures.get? rank = some c) :
    (Physics.overlapping w.enclosure c.body (w.pelletViews.map (·.body))).head?.bind w.pelletOfBody.get? =
      (w.mealOf c).map (·.1) := by
  have hbodies : w.pelletViews.map (·.body) = w.pellets.entries.map fun e => e.2.body := by
    unfold pelletViews
    rw [List.map_map]
    rfl
  -- no pellet has the body of the creature
  have hapart : (w.pellets.entries.map fun e => e.2.body).filter (· ≠ c.body) =
      w.pellets.entries.map fun e => e.2.body := by
    refine Coherent.filter_ne_eq_self fun hmem => ?_
    obtain ⟨e, he, hbody⟩ := List.mem_map.mp hmem
    have hcreature : c.body ∈ w.creatures.values.map (·.body) :=
      List.mem_map_of_mem (Table.mem_values_of_get? hc)
    have hpellet : e.2.body ∈ w.pellets.values.map (·.body) :=
      List.mem_map_of_mem (List.mem_map_of_mem he)
    exact (List.nodup_append.mp h.distinct).2.2 _ hcreature _ hpellet hbody.symm
  rw [LawfulPhysics.overlapping_eq, hbodies, hapart, List.head?_filter, List.find?_map]
  unfold mealOf
  show (Option.map (fun e => e.2.body)
    (w.pellets.entries.find? fun e => LawfulPhysics.overlaps w.enclosure c.body e.2.body)).bind _ = _
  cases hfound : w.pellets.entries.find? fun e => LawfulPhysics.overlaps w.enclosure c.body e.2.body with
  | none => rfl
  | some e =>
    have hget : w.pellets.get? e.1 = some e.2 :=
      (Table.get?_eq_some_iff h.pellets_nodup).mpr (List.mem_of_find?_eq_some hfound)
    exact (h.pelletOfBody.get?_eq_some_iff h.pellets_nodup h.pelletBodies_nodup).mpr ⟨e.2, hget, rfl⟩

end World

/-! ## What is told of meals -/

/-- Who ate what, as events tell it. -/
def meals (es : List Event) : List (Ident × Ident) :=
  es.filterMap fun
    | .foodEaten creature food _ => some (creature, food)
    | _                          => none

@[simp] theorem meals_append (es fs : List Event) : meals (es ++ fs) = meals es ++ meals fs :=
  List.filterMap_append ..

/-- Births, mutations and extinctions are no meals. -/
theorem meals_of_census {es : List Event} (h : ∀ e ∈ es, e.Census) : meals es = [] := by
  refine List.filterMap_eq_nil_iff.mpr fun e he => ?_
  have hcensus := h e he
  cases e with
  | foodEaten => cases hcensus
  | _ => rfl

namespace Stage

variable [LawfulPhysics E] {s s' s'' : Stage E}

/-- The meal of a creature at its feeding pass, as it is told; none if it is not there or overlaps nothing. -/
def mealsOf (s : Stage E) (rank : Rank) : List (Ident × Ident) :=
  ((s.world.creatures.get? rank).bind fun c =>
    (s.world.mealOf c).map fun e => (c.id, e.2.id)).toList

/-- **A creature eats its meal and nothing else.** -/
theorem feed_meals (hcoherent : s.world.Coherent []) (hcurrent : s.Current)
    (hids : (s.world.pellets.values.map (·.id)).Nodup) (rank : Rank) :
    meals (s.feed rank).events = meals s.events ++ s.mealsOf rank ∧
      (s.feed rank).world.pellets.values =
        s.world.pellets.values.filter fun p => p.id ∉ (s.mealsOf rank).map (·.2) := by
  unfold mealsOf
  rw [feed_eq]
  cases hc : s.world.creatures.get? rank with
  | none => simp
  | some c =>
    dsimp only
    -- the pellet that is found by its body is the meal
    rw [hcurrent.pellets, hcoherent.find_meal hc]
    cases hmeal : s.world.mealOf c with
    | none => simp [hmeal]
    | some e =>
      have hget : s.world.pellets.get? e.1 = some e.2 :=
        (Table.get?_eq_some_iff hcoherent.pellets_nodup).mpr (List.mem_of_find?_eq_some hmeal)
      cases hremoved : s.world.removePellet e.1 with
      | none => simp [World.removePellet, hget] at hremoved
      | some removed =>
        obtain ⟨pellet, w₁⟩ := removed
        have hquiet := w₁.fed_quiet rank c
        obtain ⟨hpellet, hw₁⟩ := World.removePellet_inv hremoved
        rw [hget, Option.some.injEq] at hpellet
        subst hpellet
        simp only [Option.map_some, hremoved]
        refine ⟨?_, ?_⟩
        · simp [log, meals, hmeal]
        · show (w₁.fed rank c).pellets.values = _
          rw [hquiet.pellets_eq, hw₁]
          unfold Table.values at *
          rw [Table.entries_erase hcoherent.pellets_nodup hids hget, List.filter_map]
          simp [hmeal, Function.comp_def]

/-! ## Nobody else eats -/

/-- From one stage to another no pellet was touched and no meal was told. -/
structure Abstains (s s' : Stage E) : Prop where
  meals_eq   : meals s'.events = meals s.events
  pellets_eq : s'.world.pellets = s.world.pellets

namespace Abstains

omit [Physics E] [LawfulPhysics E] in
theorem refl (s : Stage E) : s.Abstains s := ⟨rfl, rfl⟩

omit [Physics E] [LawfulPhysics E] in
theorem trans (h : s.Abstains s') (h' : s'.Abstains s'') : s.Abstains s'' :=
  ⟨h'.meals_eq.trans h.meals_eq, h'.pellets_eq.trans h.pellets_eq⟩

/-- A quiet change touches no pellet and tells nothing. -/
theorem quiet {world : World E} (h : s.world.Quiet world) : s.Abstains { s with world } := ⟨rfl, h.pellets_eq⟩

omit [Physics E] [LawfulPhysics E] in
/-- Whatever is told here is not a meal. -/
theorem told {es : List Event} (hworld : s'.world.pellets = s.world.pellets)
    (hevents : s'.events = s.events ++ es) (hes : meals es = []) : s.Abstains s' := by
  refine ⟨?_, hworld⟩
  rw [hevents, meals_append, hes, List.append_nil]

end Abstains

omit [LawfulPhysics E] in
/-- The dead are not eaten. -/
theorem reap_abstains (s : Stage E) (rank : Rank) : s.Abstains (s.reap rank) := by
  rcases s.reap_cases rank with hspared | ⟨c, world, -, hremoved, hreaped⟩
  · rw [hspared]
    exact .refl s
  · rw [hreaped]
    obtain ⟨-, rfl⟩ := World.removeCreature_inv hremoved
    exact .told rfl rfl rfl

/-- Nobody eats when a laser is counted down. -/
theorem tickLaser_abstains (s : Stage E) (rank : Rank) : s.Abstains (s.tickLaser rank) := by
  rcases s.tickLaser_cases rank with hnothing | ⟨own, target, hticked⟩
  · rw [hnothing]
    exact .refl s
  · rw [hticked]
    exact .quiet (.modify fun c _ => c.tickLaser_lives _ _)

/-- Nor when genes are run. -/
theorem runGenes_abstains {rank : Rank} {requests : List Interaction}
    (hgenes : s.runGenes rank = .ok (requests, s')) : s.Abstains s' := by
  obtain ⟨world, rfl, hquiet⟩ := runGenes_quiet hgenes
  exact .quiet hquiet

/-- An attack is no meal. -/
theorem attack_abstains (s : Stage E) (actor target : Rank) (targetId : Ident) :
    s.Abstains (s.attack actor target targetId) := by
  rcases s.attack_cases actor target targetId with hnothing | ⟨attacker, victim, -, -, -, hattack⟩
  · rw [hnothing]
    exact .refl s
  · rw [hattack]
    -- neither the exchange nor a death touches a pellet
    have hquiet := s.world.exchanged_quiet actor target attacker victim targetId
    refine .trans ?_ (reap_abstains _ target)
    exact .told hquiet.pellets_eq rfl rfl

/-- Nor is a birth. -/
theorem replicate_abstains (s : Stage E) (rank : Rank) :
    Outcome.Ensures (s.replicate rank) s.Abstains := by
  refine (s.replicate_cases rank).mono fun s' h => ?_
  cases h with
  | refused => exact .refl s
  | @delivered _ birth =>
    refine .told ?_ (deliver_events _ _ _ _) ?_
    · -- to replicate costs mass, and no pellet
      rw [deliver_world]
      exact (World.Quiet.setMass _ _ _).pellets_eq
    · unfold birthEvents
      cases birth.operator <;> rfl

/-- So carrying out requests is no meal. -/
theorem interact_abstains (actor : Rank) (s : Stage E) (r : Interaction) :
    Outcome.Ensures (interact actor s r) s.Abstains := by
  cases r with
  | attack target targetId => exact .pure (s.attack_abstains actor target targetId)
  | replicate => exact s.replicate_abstains actor

/-- And metabolism is none. -/
theorem metabolize_abstains (s : Stage E) (rank : Rank) : s.Abstains (s.metabolize rank) := by
  rw [metabolize_eq]
  exact .trans (.quiet (.modify fun c _ => c.starve_lives _)) (reap_abstains _ rank)

/-! ## Turns -/

/-- **In its turn a creature eats its meal**, and nobody eats anything else. -/
theorem turn_meals (hcoherent : s.world.Coherent []) (hcurrent : s.Current)
    (hids : (s.world.pellets.values.map (·.id)).Nodup) {rank : Rank} (hturn : s.turn rank = .ok s') :
    meals s'.events = meals s.events ++ s.mealsOf rank ∧
      s'.world.pellets.values =
        s.world.pellets.values.filter fun p => p.id ∉ (s.mealsOf rank).map (·.2) := by
  by_cases hthere : rank ∈ s.world.creatures.keys
  · obtain ⟨requests, ran, done, hgenes, hdone, rfl⟩ := turn_inv hthere hturn
    obtain ⟨htold, hleft⟩ := feed_meals hcoherent hcurrent hids rank
    have hasked : (s.feed rank).Abstains ran :=
      .trans (tickLaser_abstains _ rank) (runGenes_abstains hgenes)
    have hanswered : ran.Abstains done :=
      (Outcome.Ensures.foldlM Abstains.refl Abstains.trans (interact_abstains rank) requests ran).of_ok
        hdone
    -- after the meal nobody eats any more in this turn
    have hrest := (hasked.trans hanswered).trans (done.metabolize_abstains rank)
    rw [hrest.meals_eq, hrest.pellets_eq]
    exact ⟨htold, hleft⟩
  · rw [turn_of_gone hthere hturn]
    simp [mealsOf, Table.get?_eq_none_iff.mpr hthere]

/-- The meal of a creature names it and the pellet that it would eat. -/
theorem mem_mealsOf {rank : Rank} {meal : Ident × Ident} :
    meal ∈ s.mealsOf rank ↔ ∃ c r p, s.world.creatures.get? rank = some c ∧
      s.world.mealOf c = some (r, p) ∧ meal = (c.id, p.id) := by
  unfold mealsOf
  simp only [Option.mem_toList, Option.bind_eq_some_iff, Option.map_eq_some_iff, Prod.exists]
  constructor
  · rintro ⟨c, hc, r, p, hmeal, rfl⟩
    exact ⟨c, r, p, hc, hmeal, rfl⟩
  · rintro ⟨c, r, p, hc, hmeal, rfl⟩
    exact ⟨c, hc, r, p, hmeal, rfl⟩

/-- What is eaten was there. -/
theorem mem_pellets_of_mem_mealsOf {rank : Rank} {meal : Ident × Ident} (h : meal ∈ s.mealsOf rank) :
    meal.2 ∈ s.world.pellets.values.map (·.id) := by
  obtain ⟨c, r, p, -, hmeal, rfl⟩ := mem_mealsOf.mp h
  exact List.mem_map_of_mem (List.mem_map_of_mem (List.mem_of_find?_eq_some hmeal))

/-- One meal at most, and it is the creature's whose turn it is. -/
theorem mealsOf_cases (s : Stage E) (rank : Rank) : s.mealsOf rank = [] ∨
    ∃ c id, s.world.creatures.get? rank = some c ∧ s.mealsOf rank = [(c.id, id)] := by
  unfold mealsOf
  cases hc : s.world.creatures.get? rank with
  | none => exact .inl rfl
  | some c =>
    cases hmeal : s.world.mealOf c with
    | none =>
      -- the pellet is found by the body it overlaps with, so there is at most one
      rw [Option.bind_some, hmeal]
      exact .inl rfl
    | some e =>
      rw [Option.bind_some, hmeal]
      exact .inr ⟨c, e.2.id, rfl, rfl⟩

/-- At a feeding pass one pellet is eaten at most. -/
theorem mealsOf_pellets_nodup (s : Stage E) (rank : Rank) : ((s.mealsOf rank).map (·.2)).Nodup := by
  rcases s.mealsOf_cases rank with hnone | ⟨c, id, -, hone⟩
  · rw [hnone]
    exact List.nodup_nil
  · rw [hone]
    exact List.nodup_singleton _

/-- And the creature whose pass it is eats it. -/
theorem mealsOf_eaters_sublist {idOf : Rank → Option Ident} {rank : Rank}
    (hid : ∀ c, s.world.creatures.get? rank = some c → some c.id = idOf rank) :
    ((s.mealsOf rank).map fun meal => some meal.1).Sublist [idOf rank] := by
  rcases s.mealsOf_cases rank with hnone | ⟨c, id, hc, hone⟩
  · rw [hnone]
    exact List.nil_sublist _
  · rw [hone, List.map_singleton, hid c hc]

/-- What was eaten in the turns of the given ranks: each pellet once, by the creature whose turn it was,
and the others are left. No rank eats twice. -/
structure Eaten (idOf : Rank → Option Ident) (start : Stage E) (ranks : List Rank) (stage : Stage E)
    (eaten : List (Ident × Ident)) : Prop where
  meals_eq       : meals stage.events = meals start.events ++ eaten
  pellets_eq     : stage.world.pellets.values =
    start.world.pellets.values.filter fun p => p.id ∉ eaten.map (·.2)
  pellets_nodup  : (eaten.map (·.2)).Nodup
  pellets_mem    : ∀ id ∈ eaten.map (·.2), id ∈ start.world.pellets.values.map (·.id)
  eaters_sublist : (eaten.map fun meal => some meal.1).Sublist (ranks.map idOf)
  at_turn        : ∀ meal ∈ eaten, ∃ before rank after s, ranks = before ++ rank :: after ∧
    start.turns before = .ok s ∧ meal ∈ s.mealsOf rank

/-- Where ranks stand for distinct identities, no creature eats twice. -/
theorem Eaten.eaters_nodup {idOf : Rank → Option Ident} {start stage : Stage E} {ranks : List Rank}
    {eaten : List (Ident × Ident)} (h : Eaten idOf start ranks stage eaten) {ids : List Ident}
    (hids : ranks.map idOf = ids.map some) (hnodup : ids.Nodup) : (eaten.map (·.1)).Nodup := by
  have hsublist : ((eaten.map (·.1)).map some).Sublist (ids.map some) := by
    rw [← hids, List.map_map]
    exact h.eaters_sublist
  exact ((hnodup.map (Option.some_injective _)).sublist hsublist).of_map _

/-- What is eaten from a stage on is a pellet that the turn before it has left. -/
theorem Eaten.left_over {idOf : Rank → Option Ident} {start stage : Stage E} {rank : Rank} {ranks : List Rank}
    {eaten : List (Ident × Ident)} (h : Eaten idOf s ranks stage eaten)
    (hleft : s.world.pellets.values =
      start.world.pellets.values.filter fun p => p.id ∉ (start.mealsOf rank).map (·.2))
    {id : Ident} (hid : id ∈ eaten.map (·.2)) :
    id ∈ start.world.pellets.values.map (·.id) ∧ id ∉ (start.mealsOf rank).map (·.2) := by
  obtain ⟨p, hp, rfl⟩ := List.mem_map.mp (h.pellets_mem id hid)
  rw [hleft, List.mem_filter, decide_eq_true_eq] at hp
  exact ⟨List.mem_map_of_mem hp.1, hp.2⟩

/-- The first turn, and then the others. -/
theorem Eaten.cons {idOf : Rank → Option Ident} {start stage : Stage E} {rank : Rank} {ranks : List Rank}
    {eaten : List (Ident × Ident)} (hturn : start.turn rank = .ok s)
    (htold : meals s.events = meals start.events ++ start.mealsOf rank)
    (hleft : s.world.pellets.values =
      start.world.pellets.values.filter fun p => p.id ∉ (start.mealsOf rank).map (·.2))
    (hid : ∀ c, start.world.creatures.get? rank = some c → some c.id = idOf rank)
    (h : Eaten idOf s ranks stage eaten) :
    Eaten idOf start (rank :: ranks) stage (start.mealsOf rank ++ eaten) where
  meals_eq := by rw [h.meals_eq, htold, List.append_assoc]
  pellets_eq := by
    rw [h.pellets_eq, hleft, List.filter_filter]
    refine List.filter_congr fun p _ => ?_
    simp only [List.map_append, List.mem_append, not_or, Bool.decide_and]
    exact Bool.and_comm _ _
  pellets_nodup := by
    rw [List.map_append, List.nodup_append]
    refine ⟨start.mealsOf_pellets_nodup rank, h.pellets_nodup, fun id hnow id' hlater heq => ?_⟩
    -- what is eaten now is not there any more when the others have their turns
    exact (h.left_over hleft hlater).2 (heq ▸ hnow)
  pellets_mem := by
    intro id hid
    rw [List.map_append, List.mem_append] at hid
    rcases hid with hnow | hlater
    · obtain ⟨meal, hmeal, rfl⟩ := List.mem_map.mp hnow
      exact mem_pellets_of_mem_mealsOf hmeal
    · exact (h.left_over hleft hlater).1
  eaters_sublist := by
    rw [List.map_append, List.map_cons, ← List.singleton_append]
    exact (mealsOf_eaters_sublist hid).append h.eaters_sublist
  at_turn := by
    intro meal hmeal
    rcases List.mem_append.mp hmeal with hnow | hlater
    · exact ⟨[], rank, ranks, start, rfl, rfl, hnow⟩
    · obtain ⟨before, rank', after, s', rfl, hs', hmeal'⟩ := h.at_turn meal hlater
      refine ⟨rank :: before, rank', after, s', rfl, ?_, hmeal'⟩
      unfold turns at hs' ⊢
      rw [List.foldlM_cons, hturn]
      exact hs'

/-- **The turns of a tick are told meal by meal**, if tables, indices, engine and views agree whenever a
turn begins, and each rank stands for one identity. -/
theorem turns_eaten {idOf : Rank → Option Ident} {start stage : Stage E} {ranks : List Rank}
    (hready : ∀ before after s, ranks = before ++ after → start.turns before = .ok s →
      s.world.Coherent [] ∧ s.Current ∧
        ∀ rank ∈ after, ∀ c, s.world.creatures.get? rank = some c → some c.id = idOf rank)
    (hids : (start.world.pellets.values.map (·.id)).Nodup) (hturns : start.turns ranks = .ok stage) :
    ∃ eaten, Eaten idOf start ranks stage eaten := by
  induction ranks generalizing start with
  | nil =>
    cases hturns
    refine ⟨[], (List.append_nil _).symm, ?_, List.nodup_nil, by simp, List.nil_sublist _, by simp⟩
    simp
  | cons rank ranks ih =>
    unfold turns at hturns
    rw [List.foldlM_cons] at hturns
    obtain ⟨s, hturn, hturns⟩ := except_bind_inv hturns
    obtain ⟨hcoherent, hcurrent, hid⟩ := hready [] (rank :: ranks) start rfl rfl
    obtain ⟨htold, hleft⟩ := turn_meals hcoherent hcurrent hids hturn
    -- the rest of the ranks have their turns from here
    have hfewer : (s.world.pellets.values.map (·.id)).Nodup := by
      rw [hleft]
      exact hids.sublist (List.filter_sublist.map _)
    have hlater : ∀ before after s', ranks = before ++ after → s.turns before = .ok s' →
        s'.world.Coherent [] ∧ s'.Current ∧
          ∀ rank ∈ after, ∀ c, s'.world.creatures.get? rank = some c → some c.id = idOf rank := by
      intro before after s' hranks hs'
      refine hready (rank :: before) after s' (by rw [hranks, List.cons_append]) ?_
      unfold turns at hs' ⊢
      rw [List.foldlM_cons, hturn]
      exact hs'
    obtain ⟨eaten, heaten⟩ := ih hlater hfewer hturns
    exact ⟨_, heaten.cons hturn htold hleft (hid rank List.mem_cons_self)⟩

end Stage

/-! ## Ticks -/

namespace World

variable {w w' : World E}

omit [Physics E] in
/-- Ranks stand for the identities of the living. -/
theorem Ranked.map_id_keys (h : w.Ranked) :
    w.creatures.keys.map (fun rank => (w.creatures.get? rank).map (·.id)) = w.living.map some := by
  rw [living, Table.values, List.map_map, List.map_map]
  exact (Table.map_entries_eq_map_keys h.creatures_nodup fun _ c => c.id).symm

/-- A pellet appears if it is due, and comes last. -/
theorem spawnFood_pellets (hranked : w.Ranked) (h : w.spawnFood = .ok w') :
    ∃ due new, w.config.spawnsFood w.tick w.foodCount = .ok due ∧
      w'.pellets.values = w.pellets.values ++ new ∧ new.length = if due then 1 else 0 := by
  rcases spawnFood_cases h with ⟨hdue, rfl⟩ | ⟨place, source, pellet, hdue, -, hpellet⟩
  · exact ⟨false, [], hdue, (List.append_nil _).symm, rfl⟩
  · -- the pellet comes last, under a rank that no other has
    obtain ⟨source', -, -, rfl⟩ := spawnPellet_inv hpellet
    refine ⟨true, [pellet], hdue, Table.values_insert (fun hmem => ?_) pellet, rfl⟩
    exact hranked.fresh (List.mem_append_right _ hmem)

/-- So a tick opens with one more pellet at most. -/
theorem opening_pellets (hranked : w.Ranked) {start : Stage E} (hstart : w.opening = .ok start) :
    ∃ due new, w.config.spawnsFood (w.tick + 1) w.foodCount = .ok due ∧
      start.world.pellets.values = w.pellets.values ++ new ∧ new.length = if due then 1 else 0 := by
  obtain ⟨w₁, hfood, rfl⟩ := opening_inv hstart
  exact spawnFood_pellets (w := w.counted) (hranked.retold _ _ _) hfood

/-- So do the turns of a tick begin, whether or not the bodies are moved before. -/
theorem openingBy_pellets (hranked : w.Ranked) {t : TickCall} {start : Stage E}
    (hstart : w.openingBy t = .ok start) :
    ∃ due new, w.config.spawnsFood (w.tick + 1) w.foodCount = .ok due ∧
      start.world.pellets.values = w.pellets.values ++ new ∧ new.length = if due then 1 else 0 := by
  cases t with
  | update => exact opening_pellets hranked hstart
  | advance dt =>
    obtain ⟨enclosure, -, hopened⟩ := except_bind_inv hstart
    exact opening_pellets (w := { w with enclosure }) (hranked.retold _ _ _) hopened

variable [LawfulPhysics E]

/-- Filling up has nothing to do with pellets. -/
theorem spawnMany_pellets (n : Nat) (w : World E) :
    Outcome.Ensures (w.spawnMany n) fun (_, w') => w'.pellets = w.pellets := by
  refine spawnMany_invariant (I := fun w' => w'.pellets = w.pellets) (fun w₁ h₁ => ?_) n w rfl
  refine w₁.spawnFresh_born.mono ?_
  rintro ⟨e, w₂⟩ ⟨seed, c, w₀, -, hquiet, rfl⟩
  exact hquiet.pellets_eq.trans h₁

/-- The end of a tick has nothing to do with pellets either. -/
theorem closing_pellets {ranks : List Rank} {stage : Stage E} {events : List Event}
    (h : closing ranks stage = .ok (events, w')) :
    meals events = meals stage.events ∧ w'.pellets = stage.world.pellets := by
  -- after the turns no meal is told
  obtain ⟨rest, hevents, hcensus⟩ := closing_census h
  refine ⟨by rw [hevents, meals_append, meals_of_census hcensus, List.append_nil], ?_⟩
  obtain ⟨⟨births, w₁⟩, hrefill, hpure⟩ := except_bind_inv h
  have hpellets : w₁.pellets = stage.world.pellets := (spawnMany_pellets _ _).of_ok hrefill
  dsimp only at hpure
  split at hpure
  · cases hpure
    exact hpellets
  · cases hpure
    exact hpellets

end World

namespace History

variable [LawfulPhysics E] {config : Config} {calls : List Call} {h : History E}

/-- Whenever a turn begins, all is in step, and whoever is to have one is who it was before the tick. -/
theorem ready_for_turn {enclosure : E} (hempty : Physics.handles enclosure = []) {entropy : BitVec 256}
    {h' : History E} {t : TickCall} {start : Stage E} (hrun : run config enclosure entropy calls = .ok h)
    (hcall : h.call (.tick t) = .ok h') (hdistinct : h'.drawn.Nodup)
    (hstart : h.world.openingBy t = .ok start) (hranks : start.views.map (·.rank) = h.world.creatures.keys)
    (before after : List Rank) (s : Stage E) (hsplit : h.world.creatures.keys = before ++ after)
    (hs : start.turns before = .ok s) :
    s.world.Coherent [] ∧ s.Current ∧ ∀ rank ∈ after, ∀ c, s.world.creatures.get? rank = some c →
      some c.id = (h.world.creatures.get? rank).map (·.id) := by
  obtain ⟨hcoherent, hcurrent, told, hcourse, -, hborn⟩ :=
    at_turn hempty hrun hcall hdistinct hstart (hranks.trans hsplit) hs
  refine ⟨hcoherent, hcurrent, fun rank hrank c hc => ?_⟩
  have hmem : rank ∈ h.world.creatures.keys := hsplit ▸ List.mem_append_right before hrank
  obtain ⟨c₀, hc₀⟩ := Option.isSome_iff_exists.mp (Table.mem_keys_iff_isSome.mp hmem)
  have hranked : h.world.counted.Ranked := (ranked_run hrun).retold _ _ _
  -- whoever was alive before the tick is that creature still, or is gone
  cases World.Course.fate hcourse hranked hborn hc₀ with
  | alive hd hlives _ =>
    rw [hc, Option.some.injEq] at hd
    rw [hc₀, hd, hlives.id_eq]
    rfl
  | dead hgone _ _ =>
    rw [hc] at hgone
    cases hgone

end History

variable [LawfulPhysics E]

/-- **The ledger of pellets.** In every tick from every state that can be reached, the pellets afterwards
are those before it, and one more in the end if the schedule says so for this tick and the number of
pellets before it, without those that the tick tells to have been eaten. No pellet is told twice, nor any
creature as an eater; and what a creature is told to have eaten is the pellet that, when its turn began, had
appeared first among those that were still there and overlapped its body. -/
theorem food_ledger {config : Config} {enclosure : E} (hempty : Physics.handles enclosure = [])
    {entropy : BitVec 256} {calls : List Call} {h h' : History E} {t : TickCall} {start : Stage E}
    (hrun : History.run config enclosure entropy calls = .ok h)
    (hcall : h.call (.tick t) = .ok h') (hdistinct : h'.drawn.Nodup)
    (hstart : h.world.openingBy t = .ok start)
    (hpellets : (start.world.pellets.values.map (·.id)).Nodup) :
    ∃ due new told,
      h.world.config.spawnsFood (h.world.tick + 1) h.world.foodCount = .ok due ∧
      new.length = (if due then 1 else 0) ∧
      start.world.pellets.values = h.world.pellets.values ++ new ∧
      h'.log = h.log ++ told ∧
      h'.world.pellets.values = (h.world.pellets.values ++ new).filter
        (fun p => p.id ∉ (meals told).map (·.2)) ∧
      ((meals told).map (·.2)).Nodup ∧ ((meals told).map (·.1)).Nodup ∧
      ∀ meal ∈ meals told, ∃ before rank after s c r p,
        h.world.creatures.keys = before ++ rank :: after ∧ start.turns before = .ok s ∧
        s.world.creatures.get? rank = some c ∧ s.world.mealOf c = some (r, p) ∧
        meal = (c.id, p.id) := by
  have hranked : h.world.Ranked := History.ranked_run hrun
  obtain ⟨due, new, hdue, hnew, hlength⟩ := World.openingBy_pellets hranked hstart
  obtain ⟨⟨events, w'⟩, htick, hpure⟩ := except_bind_inv hcall
  have hstory : h' = { h with world := w', log := h.log ++ events } := by
    cases hpure
    rfl
  obtain ⟨opened, stage, newborn, rest, hstart', hcreatures, hturns, hclosing, -, -⟩ :=
    World.tickBy_inv htick
  rw [hstart, Except.ok.injEq] at hstart'
  have hranks : start.views.map (·.rank) = h.world.creatures.keys := by
    rw [hstart', Stage.start_ranks, hcreatures]
  rw [← hstart'] at hturns
  have hready := History.ready_for_turn hempty hrun hcall hdistinct hstart hranks
  obtain ⟨eaten, heaten⟩ := Stage.turns_eaten hready hpellets hturns
  -- neither what was pending nor the end of the tick tells of a meal
  have htold : meals events = eaten := by
    rw [(World.closing_pellets hclosing).1, heaten.meals_eq, hstart']
    show meals h.world.pendingEvents ++ eaten = eaten
    rw [meals_of_census (History.census_pending hrun), List.nil_append]
  have hleft : w'.pellets.values =
      start.world.pellets.values.filter fun p => p.id ∉ eaten.map (·.2) := by
    rw [(World.closing_pellets hclosing).2]
    exact heaten.pellets_eq
  subst hstory
  rw [hnew] at hleft
  refine ⟨due, new, events, hdue, hlength, hnew, rfl, ?_, ?_, ?_, ?_⟩
  · rw [htold]
    exact hleft
  · rw [htold]
    exact heaten.pellets_nodup
  · rw [htold]
    have hliving : h.world.living.Nodup := by
      have hopened := (hready [] _ start rfl rfl).1.living_nodup
      unfold World.living at hopened ⊢
      rw [← hcreatures]
      rw [hstart'] at hopened
      exact hopened
    exact heaten.eaters_nodup hranked.map_id_keys hliving
  · intro meal hmeal
    rw [htold] at hmeal
    obtain ⟨before, rank, after, s, hsplit, hs, hmem⟩ := heaten.at_turn meal hmeal
    obtain ⟨c, r, p, hc, hfood, rfl⟩ := Stage.mem_mealsOf.mp hmem
    exact ⟨before, rank, after, s, c, r, p, hsplit, hs, hc, hfood, rfl⟩

/-- Two pellets, and two creatures that both overlap both of them. -/
def picnic : List Call :=
  [.insertPellet ⟨30.0, 40.0⟩, .insertPellet ⟨31.0, 40.0⟩,
    .insertCreature { program := .idle, position := ⟨30.0, 40.0⟩, mass := 120.0 },
    .insertCreature { program := .idle, position := ⟨32.0, 40.0⟩, mass := 140.0 }]

/-- Each of them eats one, and a third pellet has appeared in the meantime. -/
theorem food_ledger_picnic :
    ∃ h h' start new told,
      History.run .deserted (Enclosure.empty 1280.0 720.0) 0 picnic = .ok h ∧
      h.call (.tick .update) = .ok h' ∧ h'.drawn.Nodup ∧ h.world.openingBy .update = .ok start ∧
      (start.world.pellets.values.map (·.id)).Nodup ∧
      h.world.foodCount = 2 ∧ new.length = 1 ∧ h'.log = h.log ++ told ∧ (meals told).length = 2 ∧
      ((meals told).map (·.2)).Nodup ∧ ((meals told).map (·.1)).Nodup ∧
      h'.world.pellets.values = (h.world.pellets.values ++ new).filter
        (fun p => p.id ∉ (meals told).map (·.2)) ∧
      h'.world.foodCount = 1 := by
  -- how many pellets there are is computed, and that the accounts agree is taken from the theorem
  have hcheck : (History.run .deserted (Enclosure.empty 1280.0 720.0) 0 picnic).toOption.any (fun h =>
      (h.call (.tick .update)).toOption.any fun h' =>
        (h.world.openingBy .update).toOption.any fun start =>
          decide (h'.drawn.Nodup ∧ (start.world.pellets.values.map (·.id)).Nodup ∧
            h.world.foodCount = 2 ∧ h'.world.foodCount = 1 ∧
            start.world.pellets.values.length = h.world.pellets.values.length + 1 ∧
            (meals (h'.log.drop h.log.length)).length = 2)) = true := by
    decide +kernel
  obtain ⟨h, hrun, hcheck⟩ := except_any_inv hcheck
  obtain ⟨h', hcall, hcheck⟩ := except_any_inv hcheck
  obtain ⟨start, hstart, hcheck⟩ := except_any_inv hcheck
  obtain ⟨hdistinct, hpellets, hbefore, hafter, hgrown, htwo⟩ := of_decide_eq_true hcheck
  obtain ⟨due, new, told, -, -, hnew, htold, hleft, hfood, heaters, -⟩ :=
    food_ledger rfl hrun hcall hdistinct hstart hpellets
  rw [htold, List.drop_left] at htwo
  rw [hnew, List.length_append] at hgrown
  exact ⟨h, h', start, new, told, hrun, hcall, hdistinct, hstart, hpellets, hbefore, by omega, htold,
    htwo, hfood, heaters, hleft, hafter⟩

end Vivarium
