import Vivarium.Proofs.World.Timeline

/-!
# To each its body

Creatures and pellets are tied to the engine by the handles of their bodies alone. So whatever is done to
somebody's body is done to nobody else, as long as no two of them hold the same handle. They never do: a body
is put into the engine for one of them, under a handle that was not used before, and leaves with it. This
does not depend on identities, so it holds even if one was drawn twice.

Main results: `embodied_lasting`, `History.embodied_timeline`.
-/

namespace Vivarium

/-- Whose body it may be. -/
inductive Owner where
  | creature (rank : Rank)
  | pellet (rank : Rank)
deriving DecidableEq

variable {E : Type}

namespace World

/-- The body of a creature or pellet that is there. -/
def bodyOf? (w : World E) : Owner → Option Handle
  | .creature rank => (w.creatures.get? rank).map (·.body)
  | .pellet rank   => (w.pellets.get? rank).map (·.body)

/-- Only the creature or pellet of the rank matters. -/
theorem bodyOf?_congr {w w' : World E} {o : Owner} (hpellets : w'.pellets = w.pellets)
    (hcreatures : ∀ rank, o = .creature rank → w'.creatures.get? rank = w.creatures.get? rank) :
    w'.bodyOf? o = w.bodyOf? o := by
  cases o with
  | creature rank => exact congrArg (Option.map Creature.body) (hcreatures rank rfl)
  | pellet rank => exact congrArg (fun pellets : Table Rank Pellet => (pellets.get? rank).map (·.body)) hpellets

variable [Physics E] [LawfulPhysics E]

/-- Everybody's body is there and nobody else's, and new handles are new. -/
structure Embodied (w : World E) : Prop where
  held  : ∀ {o body}, w.bodyOf? o = some body → body ∈ Physics.handles w.enclosure
  sole  : ∀ {o o' body}, w.bodyOf? o = some body → w.bodyOf? o' = some body → o = o'
  spent : ∀ body ∈ Physics.handles w.enclosure, Physics.Spent w.enclosure body

variable {w w' : World E}

/-- Whoever is there after a quiet change has the body it had before. -/
theorem Quiet.bodyOf?_eq (h : w.Quiet w') (o : Owner) : w'.bodyOf? o = w.bodyOf? o := by
  -- a quiet change touches no pellet, and lets every creature live with the body it has
  cases o with
  | pellet rank => exact bodyOf?_congr h.pellets_eq nofun
  | creature rank =>
    show (w'.creatures.get? rank).map _ = (w.creatures.get? rank).map _
    cases hc : w.creatures.get? rank with
    | none =>
      rw [Table.get?_eq_none_iff] at hc
      rw [Table.get?_eq_none_iff.mpr (h.keys_eq ▸ hc)]
    | some c =>
      obtain ⟨c', hc', hlives⟩ := h.lives rank c hc
      rw [hc']
      exact congrArg some hlives.body_eq

namespace Embodied

/-- Two owners do not share a body. -/
theorem ne (h : w.Embodied) {o o' : Owner} {body body' : Handle} (ho : w.bodyOf? o = some body)
    (ho' : w.bodyOf? o' = some body') (hne : o ≠ o') : body ≠ body' := by
  rintro rfl
  exact hne (h.sole ho ho')

/-- The handle of the next body is new. -/
theorem fresh (h : w.Embodied) (radius : Float) (position : Vec) (layer : Layer) :
    (Physics.addBody w.enclosure radius position layer).1 ∉ Physics.handles w.enclosure :=
  fun hmem => Physics.not_spent_addBody w.enclosure radius position layer (h.spent _ hmem)

/-- Who has which body is all that matters, and which bodies are there. -/
theorem of_eq (h : w.Embodied) (hbodies : ∀ o, w'.bodyOf? o = w.bodyOf? o)
    (hsame : Physics.SameBodies w.enclosure w'.enclosure) : w'.Embodied where
  held ho          := hsame.handles_eq ▸ h.held ((hbodies _).symm.trans ho)
  sole ho ho'      := h.sole ((hbodies _).symm.trans ho) ((hbodies _).symm.trans ho')
  spent body hbody := (hsame.spent_iff body).mpr (h.spent body (hsame.handles_eq ▸ hbody))

/-- Somebody new has come with the next body. -/
theorem join (h : w.Embodied) (new : Owner) {radius : Float} {position : Vec} {layer : Layer}
    (hbodies : ∀ o, w'.bodyOf? o =
      if o = new then some (Physics.addBody w.enclosure radius position layer).1 else w.bodyOf? o)
    (hsame : Physics.SameBodies (Physics.addBody w.enclosure radius position layer).2 w'.enclosure) :
    w'.Embodied := by
  have hfresh := h.fresh radius position layer
  have hhandles := hsame.handles_eq.trans (Physics.handles_addBody hfresh)
  refine ⟨fun {o body} ho => ?_, fun {o o' body} ho ho' => ?_, fun body hbody => ?_⟩
  · rw [hbodies] at ho
    rw [hhandles, List.mem_append, List.mem_singleton]
    split at ho
    · exact .inr (Option.some.inj ho).symm
    · exact .inl (h.held ho)
  · rw [hbodies] at ho ho'
    -- the next body is nobody's before
    split at ho <;> split at ho'
    · rw [‹o = new›, ‹o' = new›]
    · exact absurd (h.held (Option.some.inj ho ▸ ho')) hfresh
    · exact absurd (h.held (Option.some.inj ho' ▸ ho)) hfresh
    · exact h.sole ho ho'
  · refine (hsame.spent_iff body).mpr ((Physics.spent_addBody hfresh).mpr ?_)
    rw [hhandles, List.mem_append, List.mem_singleton] at hbody
    exact hbody.symm.imp_right (h.spent body)

/-- Somebody has left and taken the body along. -/
theorem leave (h : w.Embodied) {gone : Owner} {body : Handle} (hgone : w.bodyOf? gone = some body)
    (hbodies : ∀ o, w'.bodyOf? o = if o = gone then none else w.bodyOf? o)
    (hremoved : w'.enclosure = Physics.removeBody w.enclosure body) : w'.Embodied where
  held := by
    intro o body' ho
    rw [hbodies] at ho
    split at ho
    · cases ho
    · rename_i hne
      -- whoever stays has another body than the one that is removed
      rw [hremoved, Physics.handles_removeBody, List.mem_filter, decide_eq_true_eq]
      exact ⟨h.held ho, h.ne ho hgone hne⟩
  sole := by
    intro o o' body' ho ho'
    rw [hbodies] at ho ho'
    split at ho <;> split at ho'
    · cases ho
    · cases ho
    · cases ho'
    · exact h.sole ho ho'
  spent := by
    intro body' hbody'
    rw [hremoved, Physics.spent_removeBody]
    rw [hremoved, Physics.handles_removeBody] at hbody'
    exact h.spent body' (List.mem_of_mem_filter hbody')

/-- A creature comes into the world with the next body, which it was given before some quiet change. -/
theorem spawnCreature (h : w.Embodied) {seed : Seed} {c : Creature} (hbody : c.body = seed.body w.enclosure)
    (hquiet : Quiet { w with enclosure := seed.bodied w.enclosure } w') : (w'.spawnCreature c).Embodied := by
  refine h.join (.creature ⟨w'.lastRank + 1⟩) (fun o => ?_) hquiet.sameBodies
  -- the quiet change has moved nobody into another body
  have hbefore : w'.bodyOf? o = w.bodyOf? o := hquiet.bodyOf?_eq o
  rw [← hbefore, show (Physics.addBody w.enclosure seed.mass.sqrt seed.position .creature).1 = c.body from
    hbody.symm]
  cases o with
  | pellet rank => rfl
  | creature rank =>
    show ((w'.creatures.insert ⟨w'.lastRank + 1⟩ c).get? rank).map (·.body) = _
    rw [Table.get?_insert, apply_ite (Option.map _)]
    exact if_congr (iff_of_eq (Owner.creature.injEq _ _).symm) rfl rfl

/-- A pellet gets a body of its own. -/
theorem spawnPellet (h : w.Embodied) {place : Vec} {pellet : Pellet}
    (hspawn : w.spawnPellet place = .ok (pellet, w')) : w'.Embodied := by
  obtain ⟨source, hbody, -, rfl⟩ := spawnPellet_inv hspawn
  -- the pellet has the body that was made for it, and all other owners keep theirs
  refine h.join (.pellet ⟨w.lastRank + 1⟩) (fun o => ?_) (.refl _)
  rw [← hbody]
  cases o with
  | creature rank => rfl
  | pellet rank =>
    show ((w.pellets.insert ⟨w.lastRank + 1⟩ pellet).get? rank).map (·.body) = _
    rw [Table.get?_insert, apply_ite (Option.map _)]
    exact if_congr (iff_of_eq (Owner.pellet.injEq _ _).symm) rfl rfl

/-- A creature that is taken out takes its body with it. -/
theorem removeCreature (h : w.Embodied) {rank : Rank} {c : Creature}
    (hremoved : w.removeCreature rank = some (c, w')) : w'.Embodied := by
  obtain ⟨hget, rfl⟩ := removeCreature_inv hremoved
  have hgone : w.bodyOf? (.creature rank) = some c.body := congrArg (Option.map Creature.body) hget
  -- nobody else gives up a body
  refine h.leave hgone (fun o => ?_) rfl
  cases o with
  | pellet other => rfl
  | creature other =>
    show ((w.creatures.erase rank).get? other).map (·.body) = _
    rw [Table.get?_erase, apply_ite (Option.map _)]
    exact if_congr (iff_of_eq (Owner.creature.injEq _ _).symm) rfl rfl

/-- So does a pellet. -/
theorem removePellet (h : w.Embodied) {rank : Rank} {p : Pellet}
    (hremoved : w.removePellet rank = some (p, w')) : w'.Embodied := by
  obtain ⟨hget, rfl⟩ := removePellet_inv hremoved
  have hgone : w.bodyOf? (.pellet rank) = some p.body := congrArg (Option.map Pellet.body) hget
  refine h.leave hgone (fun o => ?_) rfl
  cases o with
  | creature other => rfl
  | pellet other =>
    show ((w.pellets.erase rank).get? other).map (·.body) = _
    rw [Table.get?_erase, apply_ite (Option.map _)]
    exact if_congr (iff_of_eq (Owner.pellet.injEq _ _).symm) rfl rfl

/-- A quiet change leaves everybody's body to them. -/
theorem quiet (h : w.Embodied) (hquiet : w.Quiet w') : w'.Embodied :=
  h.of_eq hquiet.bodyOf?_eq hquiet.sameBodies

end Embodied

/-- **Nobody ever shares a body**, whatever changes. -/
theorem embodied_lasting : Lasting (E := E) Embodied where
  change hchange hw := by
    cases hchange with
    | quiet hquiet => exact hw.quiet hquiet
    | struck _ _ hquiet => exact hw.quiet hquiet
    | pellet hspawn => exact hw.spawnPellet hspawn
    | eaten _ hremoved hquiet => exact (hw.removePellet hremoved).quiet hquiet
    | died _ hremoved => exact hw.removeCreature hremoved
    | born harrives hquiet => exact hw.spawnCreature harrives.body_eq hquiet
  retold _ _ hw := hw.of_eq (fun _ => rfl) (.refl _)

/-- A world without anybody needs an engine without bodies. -/
theorem embodied_bare (config : Config) {enclosure : E} (hempty : Physics.handles enclosure = [])
    (entropy : BitVec 256) : (World.bare config enclosure entropy).Embodied where
  held {o} _ ho := by
    -- nobody is there yet, and no body either
    cases o with
    | creature rank => cases ho
    | pellet rank => cases ho
  sole {o} _ _ ho _ := by
    cases o with
    | creature rank => cases ho
    | pellet rank => cases ho
  spent body hbody := by
    change body ∈ Physics.handles enclosure at hbody
    rw [hempty] at hbody
    cases hbody

/-- Whoever is put in from outside gets a new body. -/
theorem welcomes_embodied (seed : Seed) : Welcomes (E := E) Embodied seed := by
  intro w id w' h hw
  obtain ⟨c, source, -, hnewborn, rfl⟩ := insertCreature_inv h
  exact hw.spawnCreature hnewborn.body_eq (.memory _ source w.similarity)

end World

/-- **At every moment of every run, everybody has a body of its own.** -/
theorem History.embodied_timeline [Physics E] [LawfulPhysics E] {config : Config} {enclosure : E}
    (hempty : Physics.handles enclosure = []) {entropy : BitVec 256} {calls : List Call} :
    ∀ w ∈ timeline config enclosure entropy calls, w.Embodied :=
  timeline_lasting World.embodied_lasting (World.embodied_bare config hempty entropy) fun seed _ =>
    World.welcomes_embodied seed

/-! ## Scaling a body -/

/-- The body of a creature whose mass was set: scaled about its own place, so that its radius follows the
mass, if both masses are positive and differ. -/
def Body.resized (old new : Float) (b : Body) : Body :=
  let zero : Float := 0.0
  if zero < old ∧ zero < new ∧ new != old then
    { b with
      radius   := b.radius * (new.sqrt / old.sqrt)
      position := b.position.add ((b.position.sub b.position).scale (new.sqrt / old.sqrt)) }
  else b

/-- A body is scaled by the quotient of the roots of the masses, if both are positive and differ. -/
theorem Body.resized_of_pos {old new : Float} {b : Body}
    (h : (0.0 : Float) < old ∧ (0.0 : Float) < new ∧ (new != old) = true) :
    b.resized old new = { b with
      radius   := b.radius * (new.sqrt / old.sqrt)
      position := b.position.add ((b.position.sub b.position).scale (new.sqrt / old.sqrt)) } := by
  unfold Body.resized
  exact if_pos h

/-- Otherwise it stays as it is. -/
theorem Body.resized_of_not {old new : Float} {b : Body}
    (h : ¬ ((0.0 : Float) < old ∧ (0.0 : Float) < new ∧ (new != old) = true)) : b.resized old new = b := by
  unfold Body.resized
  exact if_neg h

namespace Enclosure

/-- Setting a creature's mass scales its body and leaves all else in the enclosure alone. -/
theorem setMass_bodies (c : Creature) (mass : Float) (e : Enclosure) :
    (c.setMass mass e).2 = { e with bodies := (c.setMass mass e).2.bodies } ∧
      ∀ body, (c.setMass mass e).2.bodies.get? body =
        if body = c.body then (e.bodies.get? body).map (Body.resized c.mass mass) else e.bodies.get? body := by
  unfold Creature.setMass
  dsimp only
  split
  · rename_i hscaled
    have hresized (b : Body) := Body.resized_of_pos (b := b) hscaled
    split
    · rename_i anchor hanchor
      refine ⟨rfl, fun body => ?_⟩
      show (e.bodies.modify c.body _).get? body = _
      rw [Table.get?_modify]
      split
      · rename_i hbody
        -- the anchor is where the body is
        obtain ⟨b, hb, rfl⟩ := Option.map_eq_some_iff.mp hanchor
        rw [hbody, hb, Option.map_some, Option.map_some, hresized]
      · rfl
    · rename_i hnone
      refine ⟨rfl, fun body => ?_⟩
      split
      · rename_i hbody
        rw [hbody, Option.map_eq_none_iff.mp hnone, Option.map_none]
      · rfl
  · rename_i hscaled
    refine ⟨rfl, fun body => ?_⟩
    have hresized : Body.resized c.mass mass = id := funext fun b => Body.resized_of_not hscaled
    rw [hresized, Option.map_id_fun, id, ite_self]

end Enclosure

namespace World

variable {w w' w'' : World Enclosure}

/-- From `w` to `w'` the states of creatures and bodies were changed, and nothing else. -/
def Restates (w w' : World Enclosure) : Prop :=
  ∃ creatures bodies, w' = { w with creatures, enclosure := { w.enclosure with bodies } }

namespace Restates

/-- One such change after another is one. -/
theorem trans (h : w.Restates w') (h' : w'.Restates w'') : w.Restates w'' := by
  obtain ⟨_, _, rfl⟩ := h
  obtain ⟨creatures, bodies, rfl⟩ := h'
  exact ⟨creatures, bodies, rfl⟩

/-- To modify a creature is one. -/
theorem modify (w : World Enclosure) (rank : Rank) (f : Creature → Creature) :
    w.Restates (w.modifyCreature rank f) :=
  ⟨w.creatures.modify rank f, w.enclosure.bodies, rfl⟩

/-- To set a mass is one. -/
theorem setMass (w : World Enclosure) (rank : Rank) (mass : Float) : w.Restates (w.setMass rank mass) := by
  unfold World.setMass
  split
  · exact ⟨w.creatures, w.enclosure.bodies, rfl⟩
  · rename_i c _
    refine ⟨w.creatures.modify rank fun _ => (c.setMass mass w.enclosure).1,
      (c.setMass mass w.enclosure).2.bodies, ?_⟩
    rw [← (Enclosure.setMass_bodies c mass w.enclosure).1]
    rfl

end Restates

/-- Setting a creature's mass scales its body and no other. -/
theorem get?_body_setMass {rank : Rank} {c : Creature} (hc : w.creatures.get? rank = some c) (mass : Float)
    (body : Handle) :
    (w.setMass rank mass).enclosure.bodies.get? body =
      if body = c.body then (w.enclosure.bodies.get? body).map (Body.resized c.mass mass)
      else w.enclosure.bodies.get? body := by
  unfold World.setMass
  rw [hc]
  exact (Enclosure.setMass_bodies c mass w.enclosure).2 body

end World

end Vivarium
