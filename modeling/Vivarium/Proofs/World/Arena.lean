import Vivarium.Proofs.World.Ledger

/-!
# The indices and the engine agree with who is there

The world keeps its creatures and pellets in two tables, finds them by three indices, and gives each a
body in the engine. All six are kept in step by every way of coming into the world and of leaving it:
each index lists, in the same order, what the table lists, and the engine holds the bodies of all
creatures and pellets and no others. That is so for every engine that keeps its books (`World.Coherent`), and
in an enclosure the books are the bodies themselves (`World.Agrees`).

Main result: `indices_agree`.
-/

namespace Vivarium

variable {E : Type}

namespace World

/-- The bodies of all creatures and pellets. -/
def bodies (w : World E) : List Handle :=
  w.creatures.values.map (·.body) ++ w.pellets.values.map (·.body)

variable [Physics E] [LawfulPhysics E]

/-- Tables, indices and engine in step. The engine may hold further bodies, which are `loose`:
they have been put into it for somebody who is yet to come. -/
structure Coherent (w : World E) (loose : List Handle) : Prop extends Ranked w where
  creatureOfBody : w.creatureOfBody.IndexOf w.creatures (·.body)
  creatureOfId   : w.creatureOfId.IndexOf w.creatures (·.id)
  pelletOfBody   : w.pelletOfBody.IndexOf w.pellets (·.body)
  living_nodup   : w.living.Nodup
  handles_perm   : (Physics.handles w.enclosure).Perm (loose ++ w.bodies)
  handles_nodup  : (Physics.handles w.enclosure).Nodup
  handles_spent  : ∀ body ∈ Physics.handles w.enclosure, Physics.Spent w.enclosure body

namespace Coherent

variable {w w' : World E} {loose : List Handle}

/-- Nobody shares a body, and none of the loose ones has been given to anybody. -/
theorem all_distinct (h : w.Coherent loose) : (loose ++ w.bodies).Nodup :=
  h.handles_perm.nodup_iff.mp h.handles_nodup

theorem distinct (h : w.Coherent loose) : w.bodies.Nodup := (List.nodup_append.mp h.all_distinct).2.1

theorem creatureBodies_nodup (h : w.Coherent loose) : (w.creatures.values.map (·.body)).Nodup :=
  (List.nodup_append.mp h.distinct).1

theorem pelletBodies_nodup (h : w.Coherent loose) : (w.pellets.values.map (·.body)).Nodup :=
  (List.nodup_append.mp h.distinct).2.1

/-- A loose body is nobody's. -/
theorem not_mem_bodies {body : Handle} (h : w.Coherent [body]) : body ∉ w.bodies :=
  (List.nodup_cons.mp h.all_distinct).1

/-- A quiet change leaves all in step. -/
theorem quiet (h : w.Coherent loose) (hquiet : w.Quiet w') : w'.Coherent loose := by
  have hkeys := h.creatures_nodup
  -- what the indices list is read off what the creatures keep
  have hids := hquiet.map_entries hkeys (g := fun rank c => (c.id, rank)) fun _ _ _ hsame => by
    rw [hsame.id_eq]
  have hbodies := hquiet.map_entries hkeys (g := fun rank c => (c.body, rank)) fun _ _ _ hsame => by
    rw [hsame.body_eq]
  have hlabels : w'.bodies = w.bodies := by
    unfold bodies
    rw [hquiet.pellets_eq, hquiet.map_values hkeys fun _ _ hsame => hsame.body_eq]
  refine ⟨h.toRanked.quiet hquiet, ?_, ?_, ?_, ?_, ?_, ?_, ?_⟩
  · unfold Table.IndexOf
    rw [hquiet.creatureOfBody_eq, hbodies]
    exact h.creatureOfBody
  · unfold Table.IndexOf
    rw [hquiet.creatureOfId_eq, hids]
    exact h.creatureOfId
  · rw [hquiet.pelletOfBody_eq, hquiet.pellets_eq]
    exact h.pelletOfBody
  · rw [hquiet.living_eq h.toRanked]
    exact h.living_nodup
  · rw [hquiet.sameBodies.handles_eq, hlabels]
    exact h.handles_perm
  · rw [hquiet.sameBodies.handles_eq]
    exact h.handles_nodup
  · rw [hquiet.sameBodies.handles_eq]
    exact fun body hbody => (hquiet.sameBodies.spent_iff body).mpr (h.handles_spent body hbody)

/-- A handle that is given out next is nobody's. -/
theorem fresh_body (h : w.Coherent loose) (radius : Float) (position : Vec) (layer : Layer) :
    (Physics.addBody w.enclosure radius position layer).1 ∉ Physics.handles w.enclosure :=
  fun hmem => Physics.not_spent_addBody w.enclosure radius position layer (h.handles_spent _ hmem)

/-- A new body is loose at first. -/
theorem addBody (h : w.Coherent []) (radius : Float) (position : Vec) (layer : Layer) :
    Coherent { w with enclosure := (Physics.addBody w.enclosure radius position layer).2 }
      [(Physics.addBody w.enclosure radius position layer).1] := by
  have hfresh := h.fresh_body radius position layer
  have hhandles := Physics.handles_addBody hfresh
  refine ⟨h.toRanked.retold _ _ _, h.creatureOfBody, h.creatureOfId, h.pelletOfBody, h.living_nodup, ?_,
    ?_, ?_⟩
  · show (Physics.handles (Physics.addBody w.enclosure radius position layer).2).Perm _
    rw [hhandles]
    exact (List.perm_append_singleton _ _).trans (h.handles_perm.cons _)
  · -- the new body is the last one, and none of the others
    show (Physics.handles (Physics.addBody w.enclosure radius position layer).2).Nodup
    rw [hhandles, (List.perm_append_singleton _ _).nodup_iff]
    exact List.nodup_cons.mpr ⟨hfresh, h.handles_nodup⟩
  · intro body hbody
    refine (Physics.spent_addBody hfresh).mpr ?_
    change body ∈ Physics.handles (Physics.addBody w.enclosure radius position layer).2 at hbody
    rw [hhandles, List.mem_append, List.mem_singleton] at hbody
    exact hbody.symm.imp_right (h.handles_spent body)

/-- So is the body that a seed is given. -/
theorem bodied (h : w.Coherent []) (seed : Seed) :
    Coherent { w with enclosure := seed.bodied w.enclosure } [seed.body w.enclosure] :=
  h.addBody seed.mass.sqrt seed.position .creature

/-- A creature comes into the world with a body that was loose, under an identity of its own. -/
theorem spawnCreature {c : Creature} (h : w.Coherent [c.body]) (hid : c.id ∉ w.living) :
    (w.spawnCreature c).Coherent [] := by
  have hrank : (⟨w.lastRank + 1⟩ : Rank) ∉ w.creatures.keys :=
    fun hmem => h.fresh (List.mem_append_left _ hmem)
  have hbody : c.body ∉ w.creatures.values.map (·.body) :=
    fun hmem => h.not_mem_bodies (List.mem_append_left _ hmem)
  refine ⟨h.toRanked.spawnCreature c, ?_, ?_, h.pelletOfBody, ?_, ?_, h.handles_nodup, h.handles_spent⟩
  · exact h.creatureOfBody.insert hrank hbody
  · exact h.creatureOfId.insert hrank hid
  · rw [living_spawnCreature h.toRanked, (List.perm_append_singleton _ _).nodup_iff]
    exact List.nodup_cons.mpr ⟨hid, h.living_nodup⟩
  · -- the loose body is now held by a creature, so all bodies are held
    refine h.handles_perm.trans ?_
    show (c.body :: (w.creatures.values.map (·.body) ++ w.pellets.values.map (·.body))).Perm
      ((w.creatures.insert _ c).values.map (·.body) ++ w.pellets.values.map (·.body))
    rw [Table.values_insert hrank, List.map_append, List.append_assoc]
    exact List.perm_middle.symm

/-- A pellet is put in everywhere at once. -/
theorem spawnPellet {place : Vec} {pellet : Pellet} (h : w.Coherent [])
    (hspawn : w.spawnPellet place = .ok (pellet, w')) : w'.Coherent [] := by
  have hranked := h.toRanked.spawnPellet hspawn
  obtain ⟨source, hbody, -, rfl⟩ := spawnPellet_inv hspawn
  have hloose := h.addBody Pellet.radius place .food
  rw [← hbody] at hloose
  have hrank : (⟨w.lastRank + 1⟩ : Rank) ∉ w.pellets.keys :=
    fun hmem => h.fresh (List.mem_append_right _ hmem)
  have hlabel : pellet.body ∉ w.pellets.values.map (·.body) :=
    fun hmem => hloose.not_mem_bodies (List.mem_append_right _ hmem)
  refine ⟨hranked, h.creatureOfBody, h.creatureOfId, ?_, h.living_nodup, ?_, hloose.handles_nodup,
    hloose.handles_spent⟩
  · exact h.pelletOfBody.insert hrank hlabel
  · -- the body made for the pellet is now held by it
    refine hloose.handles_perm.trans ?_
    show (pellet.body :: (w.creatures.values.map (·.body) ++ w.pellets.values.map (·.body))).Perm
      (w.creatures.values.map (·.body) ++ (w.pellets.insert _ pellet).values.map (·.body))
    rw [Table.values_insert hrank, List.map_append, ← List.append_assoc]
    exact (List.perm_append_singleton _ _).symm

/-- Whoever leaves takes the body along, and nobody else's. -/
theorem removeBody (h : w.Coherent []) (body : Handle) :
    (Physics.handles (Physics.removeBody w.enclosure body)).Perm (w.bodies.filter (· ≠ body)) ∧
      (Physics.handles (Physics.removeBody w.enclosure body)).Nodup ∧
      ∀ b ∈ Physics.handles (Physics.removeBody w.enclosure body),
        Physics.Spent (Physics.removeBody w.enclosure body) b := by
  rw [Physics.handles_removeBody]
  refine ⟨h.handles_perm.filter _, h.handles_nodup.filter _, fun b hb => ?_⟩
  exact (Physics.spent_removeBody _ _ _).mpr (h.handles_spent b (List.mem_of_mem_filter hb))

/-- A list that does not hold an item is not changed by striking it out. -/
theorem filter_ne_eq_self {body : Handle} {others : List Handle} (h : body ∉ others) :
    others.filter (· ≠ body) = others := by
  rw [List.filter_eq_self]
  intro other hother
  rw [decide_eq_true_eq]
  rintro rfl
  exact h hother

/-- A creature is taken out everywhere at once. -/
theorem removeCreature {rank : Rank} {c : Creature} (h : w.Coherent [])
    (hremoved : w.removeCreature rank = some (c, w')) : w'.Coherent [] := by
  have hranked := h.toRanked.removeCreature hremoved
  have hliving := living_removeCreature h.toRanked h.living_nodup hremoved
  obtain ⟨hget, rfl⟩ := removeCreature_inv hremoved
  have hkeys := h.creatures_nodup
  have hmem : c.body ∈ w.creatures.values.map (·.body) :=
    List.mem_map_of_mem (Table.mem_values_of_get? hget)
  -- no pellet has the body of a creature
  have hother : c.body ∉ w.pellets.values.map (·.body) :=
    fun hpellet => (List.nodup_append.mp h.distinct).2.2 _ hmem _ hpellet rfl
  obtain ⟨hperm, hnodup, hlt⟩ := h.removeBody c.body
  refine ⟨hranked, ?_, ?_, h.pelletOfBody, ?_, ?_, hnodup, hlt⟩
  · exact h.creatureOfBody.erase hkeys h.creatureBodies_nodup hget
  · exact h.creatureOfId.erase hkeys h.living_nodup hget
  · rw [hliving]
    exact h.living_nodup.erase _
  · refine hperm.trans (List.Perm.of_eq ?_)
    unfold bodies
    rw [List.filter_append, filter_ne_eq_self hother,
      ← Table.map_values_erase hkeys h.creatureBodies_nodup hget]
    rfl

/-- And so is a pellet. -/
theorem removePellet {rank : Rank} {p : Pellet} (h : w.Coherent [])
    (hremoved : w.removePellet rank = some (p, w')) : w'.Coherent [] := by
  have hranked := h.toRanked.removePellet hremoved
  obtain ⟨hget, rfl⟩ := removePellet_inv hremoved
  have hkeys := h.pellets_nodup
  have hmem : p.body ∈ w.pellets.values.map (·.body) :=
    List.mem_map_of_mem (Table.mem_values_of_get? hget)
  -- no creature holds the body of a pellet
  have hother : p.body ∉ w.creatures.values.map (·.body) :=
    fun hcreature => (List.nodup_append.mp h.distinct).2.2 _ hcreature _ hmem rfl
  obtain ⟨hperm, hnodup, hlt⟩ := h.removeBody p.body
  refine ⟨hranked, h.creatureOfBody, h.creatureOfId, ?_, h.living_nodup, ?_, hnodup, hlt⟩
  · exact h.pelletOfBody.erase hkeys h.pelletBodies_nodup hget
  · refine hperm.trans (List.Perm.of_eq ?_)
    unfold bodies
    rw [List.filter_append, filter_ne_eq_self hother,
      ← Table.map_values_erase hkeys h.pelletBodies_nodup hget]
    rfl

/-- **Every change keeps tables, indices and engine in step**, if nobody is born under an identity
that is in use. -/
theorem change {es : List Event} (h : w.Coherent []) (hchange : w.Change es w')
    (hdistinct : (w.living ++ births es).Nodup) : w'.Coherent [] := by
  cases hchange with
  | quiet hquiet => exact h.quiet hquiet
  | struck _ _ hquiet => exact h.quiet hquiet
  | pellet hspawn => exact h.spawnPellet hspawn
  | eaten _ hremoved hquiet => exact (h.removePellet hremoved).quiet hquiet
  | died _ hremoved => exact h.removeCreature hremoved
  | @born seed c es w₁ harrives hquiet =>
    -- the body comes first and is loose while the parent pays
    have hloose := (h.bodied seed).quiet hquiet
    rw [← harrives.body_eq] at hloose
    refine hloose.spawnCreature ?_
    have hliving : w₁.living = w.living :=
      hquiet.living_eq (w := { w with enclosure := seed.bodied w.enclosure }) (h.toRanked.retold _ _ _)
    rw [harrives.births_eq] at hdistinct
    rw [hliving]
    exact fun hmem => (List.nodup_append.mp hdistinct).2.2 _ hmem _ (List.mem_singleton_self _) rfl

/-- So does a course of changes, if all that are born in it are somebody new. -/
theorem course {es : List Event} (h : w.Coherent []) (hcourse : w.Course es w')
    (hdistinct : (w.living ++ births es).Nodup) : w'.Coherent [] := by
  induction hcourse with
  | refl => exact h
  | @step w' w'' es fs hcourse hchange ih =>
    rw [births_append, ← List.append_assoc] at hdistinct
    have hbefore : (w.living ++ births es).Nodup := (List.nodup_append.mp hdistinct).1
    -- the living so far are some of those before the course and those born in it
    refine (ih hbefore).change hchange (hdistinct.sublist ?_)
    rw [hcourse.living_eq h.toRanked hbefore]
    exact (replay_sublist es w.living).append_right _

/-- The clock and what is pending do not matter. -/
theorem retold (h : w.Coherent loose) (tick : Nat) (pendingEvents : List Event) :
    Coherent { w with tick, pendingEvents } loose :=
  ⟨h.toRanked.retold _ _ _, h.creatureOfBody, h.creatureOfId, h.pelletOfBody, h.living_nodup,
    h.handles_perm, h.handles_nodup, h.handles_spent⟩

/-- A bare world goes with an engine in which there is no body yet. -/
theorem bare (config : Config) {enclosure : E} (hempty : Physics.handles enclosure = [])
    (entropy : BitVec 256) : (World.bare config enclosure entropy).Coherent [] := by
  refine ⟨.bare _ _ _, rfl, rfl, rfl, List.nodup_nil, ?_, ?_, ?_⟩
  · show (Physics.handles enclosure).Perm []
    rw [hempty]
  · show (Physics.handles enclosure).Nodup
    rw [hempty]
    exact List.nodup_nil
  · intro body hbody
    change body ∈ Physics.handles enclosure at hbody
    rw [hempty] at hbody
    cases hbody

end Coherent

/-- What the indices, the enclosure and the ranks say about who is there. -/
structure Agrees (w : World Enclosure) : Prop where
  /-- A creature is found by its body, and only by that. -/
  creatureOfBody : ∀ body rank, w.creatureOfBody.get? body = some rank ↔
    ∃ c, w.creatures.get? rank = some c ∧ c.body = body
  /-- A creature is found by its identity, and only by that. -/
  creatureOfId   : ∀ id rank, w.creatureOfId.get? id = some rank ↔
    ∃ c, w.creatures.get? rank = some c ∧ c.id = id
  /-- A pellet is found by its body, and only by that. -/
  pelletOfBody   : ∀ body rank, w.pelletOfBody.get? body = some rank ↔
    ∃ p, w.pellets.get? rank = some p ∧ p.body = body
  /-- No body is shared. -/
  bodies_nodup   : w.bodies.Nodup
  /-- The enclosure holds these bodies and no others. -/
  mem_bodies     : ∀ body, (w.enclosure.bodies.get? body).isSome ↔ body ∈ w.bodies
  bodyCount_eq   : w.enclosure.bodyCount = w.population + w.foodCount
  ranks_nodup    : (w.creatures.keys ++ w.pellets.keys).Nodup
  ranks_le       : ∀ rank ∈ w.creatures.keys ++ w.pellets.keys, rank.number ≤ w.lastRank

/-- In an enclosure the handles are the keys of the bodies, so what is in step agrees. -/
theorem Coherent.agrees {w : World Enclosure} (h : w.Coherent []) : w.Agrees where
  creatureOfBody := fun _ _ =>
    h.creatureOfBody.get?_eq_some_iff h.creatures_nodup h.creatureBodies_nodup
  creatureOfId   := fun _ _ => h.creatureOfId.get?_eq_some_iff h.creatures_nodup h.living_nodup
  pelletOfBody   := fun _ _ => h.pelletOfBody.get?_eq_some_iff h.pellets_nodup h.pelletBodies_nodup
  bodies_nodup   := h.distinct
  mem_bodies     := by
    intro body
    rw [← Table.contains_eq_isSome, Table.contains_iff_mem_keys]
    exact h.handles_perm.mem_iff
  -- all bodies are held by one creature or pellet each, so they can be counted there
  bodyCount_eq   := by
    have hlength : w.enclosure.bodies.keys.length = _ := h.handles_perm.length_eq
    unfold bodies Table.keys Table.values at hlength
    simp only [List.nil_append, List.length_append, List.length_map] at hlength
    exact hlength
  ranks_nodup    := h.nodup
  ranks_le       := h.le

end World

/-! ## Histories -/

namespace History

variable [Physics E] [LawfulPhysics E]

/-- If the drawn identities are distinct, the world is coherent, and its creatures have drawn ones. -/
def Tracked (h : History E) : Prop :=
  h.drawn.Nodup → h.world.Coherent [] ∧ ∀ id ∈ h.world.living, id ∈ h.drawn

/-- The living and the identities that are drawn next are distinct. -/
theorem living_append_nodup {living drawn next : List Ident} (hliving : living.Nodup)
    (hmem : ∀ id ∈ living, id ∈ drawn) (hdistinct : (drawn ++ next).Nodup) :
    (living ++ next).Nodup := by
  obtain ⟨-, hnext, hdisjoint⟩ := List.nodup_append.mp hdistinct
  exact List.nodup_append.mpr ⟨hliving, hnext, fun id hid => hdisjoint id (hmem id hid)⟩

/-- A new world is in step, and its first creatures are the ones that are pending. -/
theorem Tracked.create {config : Config} {enclosure : E} (hempty : Physics.handles enclosure = [])
    {entropy : BitVec 256} {w : World E} (h : World.create config enclosure entropy = .ok w) :
    Tracked { world := w } := by
  obtain ⟨-, es, w₁, hcourse, rfl⟩ := World.create_inv h
  intro hdistinct
  have hbare := World.Coherent.bare config hempty entropy
  -- nobody is alive yet, so those who are alive at the end are some of those that were born
  have hborn : (births es).Nodup := hdistinct
  have hafter := hbare.course hcourse hborn
  have hliving := hcourse.living_eq hbare.toRanked hborn
  refine ⟨hafter.retold _ _, fun id hid => ?_⟩
  change id ∈ w₁.living at hid
  rw [hliving] at hid
  exact (replay_sublist es _).subset hid

/-- A change without births. -/
theorem Tracked.change {h : History E} (htracked : h.Tracked) {w' : World E}
    (hchange : h.world.Change [] w') : Tracked { h with world := w' } := by
  -- such a change tells of nothing, so nobody has been drawn in it
  have hdrawn : drawn { h with world := w' } = h.drawn := by
    unfold drawn
    rw [hchange.frame.2.2]
  intro hdistinct
  rw [hdrawn] at hdistinct ⊢
  obtain ⟨hcoherent, hmem⟩ := htracked hdistinct
  have hborn : (h.world.living ++ births []).Nodup := by
    rw [show births [] = [] from rfl, List.append_nil]
    exact hcoherent.living_nodup
  refine ⟨hcoherent.change hchange hborn, fun id hid => hmem id ?_⟩
  change id ∈ w'.living at hid
  rwa [hchange.living_eq hcoherent.toRanked hcoherent.living_nodup] at hid

/-- What was pending was drawn before a tick; what is drawn in it are the births of its course. -/
theorem drawn_tick {h : History E} {es events : List Event} {w' : World E} (hcourse : h.world.counted.Course es w')
    {c : Prop} [Decidable c] {n : Nat}
    (hevents : events = h.world.pendingEvents ++ es ++ if c then [.extinction n] else []) :
    drawn { h with world := w', log := h.log ++ events } = h.drawn ++ births es := by
  unfold drawn
  show h.guests ++ births ((h.log ++ events) ++ w'.pendingEvents) = _
  rw [World.pendingEvents_of_course hcourse, List.append_nil, hevents]
  simp only [births_append, births_extinction, List.append_nil, List.append_assoc]

/-- **A tick keeps all in step**, among distinct identities. -/
theorem Tracked.tick {h : History E} (htracked : h.Tracked) {t : TickCall} {events : List Event}
    {w' : World E} (htick : h.world.tickBy t = .ok (events, w')) :
    Tracked { h with world := w', log := h.log ++ events } := by
  obtain ⟨es, hcourse, hevents⟩ := (h.world.tickBy_ensures t).of_ok htick
  intro hdistinct
  rw [drawn_tick hcourse hevents] at hdistinct ⊢
  obtain ⟨hcoherent, hmem⟩ := htracked (List.nodup_append.mp hdistinct).1
  have hcounted : h.world.counted.Coherent [] := hcoherent.retold _ _
  -- the names of the newborn are drawn in this tick, and differ from all that were drawn before
  have hborn : (h.world.living ++ births es).Nodup :=
    living_append_nodup hcoherent.living_nodup hmem hdistinct
  refine ⟨hcounted.course hcourse hborn, fun id hid => ?_⟩
  change id ∈ w'.living at hid
  rw [hcourse.living_eq hcounted.toRanked hborn] at hid
  have hfrom := (replay_sublist es _).subset hid
  rw [List.mem_append] at hfrom ⊢
  exact hfrom.imp_left (hmem id)

/-- So does a creature that is put in. -/
theorem Tracked.insertCreature {h : History E} (htracked : h.Tracked) {seed : Seed} {id : Ident}
    {w' : World E} (hinsert : h.world.insertCreature seed = .ok (id, w')) :
    Tracked { h with world := w', guests := h.guests ++ [id] } := by
  obtain ⟨c, source, rfl, hnewborn, rfl⟩ := World.insertCreature_inv hinsert
  have hdrawn : (drawn { h with
      world := World.spawnCreature
        { h.world with source, enclosure := seed.bodied h.world.enclosure } c
      guests := h.guests ++ [c.id] }).Perm (c.id :: h.drawn) := by
    show ((h.guests ++ [c.id]) ++ births (h.log ++ h.world.pendingEvents)).Perm _
    rw [List.append_assoc]
    exact List.perm_middle
  intro hdistinct
  obtain ⟨hnew, hbefore⟩ := List.nodup_cons.mp (hdrawn.nodup_iff.mp hdistinct)
  obtain ⟨hcoherent, hmem⟩ := htracked hbefore
  -- the body is put in first, and is loose until the creature has been entered with it
  have hloose := (hcoherent.bodied seed).quiet (.memory _ source h.world.similarity)
  rw [← hnewborn.body_eq] at hloose
  have hspawned := hloose.spawnCreature fun hid => hnew (hmem _ hid)
  refine ⟨hspawned, fun other hother => hdrawn.symm.subset ?_⟩
  have hlast : other ∈ h.world.living ++ [c.id] := by
    rw [show h.world.living ++ [c.id] = _ from (World.living_spawnCreature hloose.toRanked c).symm]
    exact hother
  rcases List.mem_append.mp hlast with hold | hnewest
  · exact List.mem_cons_of_mem _ (hmem other hold)
  · rw [List.mem_singleton.mp hnewest]
    exact List.mem_cons_self

/-- And so does every call. -/
theorem Tracked.call {h h' : History E} {c : Call} (htracked : h.Tracked) (hcall : h.call c = .ok h') :
    h'.Tracked := by
  cases called_of_call hcall with
  | tick htick => exact htracked.tick htick
  | guest hinsert => exact htracked.insertCreature hinsert
  | change hchange => exact htracked.change hchange

/-- All is in step in every state that calls lead to. -/
theorem tracked_run {config : Config} {enclosure : E} (hempty : Physics.handles enclosure = [])
    {entropy : BitVec 256} {calls : List Call} {h : History E}
    (hrun : run config enclosure entropy calls = .ok h) : h.Tracked :=
  run_induction hrun (fun _ hw => .create hempty hw) fun _ _ _ _ htracked hcall => htracked.call hcall

end History

/-- **The indices and the enclosure agree with who is there**, in every state that a world reaches from
an empty enclosure by ticks, by creatures and pellets put in from outside, by changes of mass and by
comparisons of genomes, in any order, as long as no identity is drawn twice. -/
theorem indices_agree {config : Config} {width height : Float} {entropy : BitVec 256} {calls : List Call}
    {h : History Enclosure} (hrun : History.run config (Enclosure.empty width height) entropy calls = .ok h)
    (hdistinct : h.drawn.Nodup) : h.world.Agrees :=
  (History.tracked_run rfl hrun hdistinct).1.agrees

/-- Fifteen genes, all of which wait. -/
def Program.idle : Program where
  genes     := (List.range 15).map fun i => ⟨.ofNat i, 15, 100, .wait⟩
  isProgram := ⟨by decide, by decide, by decide⟩

/-- A world in which nobody appears by itself. -/
def Config.deserted : Config := { world := { seed := some 1, populationFloor := 0 } }

/-- A pellet and two creatures are put in, the bodies move, and a tick goes by that brings a pellet. -/
def visits : List Call :=
  [.insertPellet ⟨10.0, 20.0⟩,
    .insertCreature { program := .idle, position := ⟨30.0, 40.0⟩, mass := 120.0 },
    .insertCreature { program := .idle, position := ⟨300.0, 400.0⟩, mass := 140.0 },
    .tick (.advance 16.0)]

/-- Two creatures and two pellets that were put in, and their entries. -/
theorem indices_agree_visits :
    ∃ h, History.run .deserted (Enclosure.empty 1280.0 720.0) 0 visits = .ok h ∧ h.drawn.Nodup ∧
      h.world.population = 2 ∧ h.world.foodCount = 2 ∧ h.world.Agrees := by
  -- how many there are is computed, and that the indices agree is taken from the theorem
  have hcheck : (match History.run .deserted (Enclosure.empty 1280.0 720.0) 0 visits with
      | .ok h => decide h.drawn.Nodup && decide (h.world.population = 2) &&
        decide (h.world.foodCount = 2)
      | .error _ => false) = true := by decide +kernel
  split at hcheck
  · rename_i h hrun
    simp only [Bool.and_eq_true, decide_eq_true_eq] at hcheck
    obtain ⟨⟨hdistinct, hpopulation⟩, hfood⟩ := hcheck
    exact ⟨h, hrun, hdistinct, hpopulation, hfood, indices_agree hrun hdistinct⟩
  · cases hcheck

end Vivarium
