import Mathlib.Logic.Relation
import Vivarium.Proofs.World.Change
import Vivarium.World.Tick

/-!
# A tick is a course of changes

Each part of a creature's turn, and so the turn and all turns of a tick, takes the stage through steps.
A step is one change of the world, with what it does to the views and to the log. So a tick as a whole is
a course of changes that raises exactly the events of its parts. No part is ever refused: what a creature
is born from is always a program.

Main results:

* `turn_ensures`: a turn takes steps; `Steps.advances`: steps are a course of changes.
* `update_ensures`: a tick counts the clock, reports what was pending, goes through a course of changes,
  and reports an extinction where the last creature died in it.
* `create_inv`: a world is set up by a course of changes, whose events it keeps for its first tick.
-/

namespace Vivarium

/-! ## Outcomes -/

namespace Outcome

/-- What returned among the computations that may be refused returned without them. -/
theorem ofFault_inv {α : Type} {x : Except Fault α} {a : α} (h : Outcome.ofFault x = .ok a) :
    x = .ok a := by
  cases x with
  | ok b =>
    cases h
    rfl
  | error _ => cases h

/-- The computation is not refused, and if it does not break off, its value has the property. -/
def Ensures {α : Type} (x : Outcome α) (P : α → Prop) : Prop :=
  match x with
  | .ok a               => P a
  | .error (.fault _)   => True
  | .error (.refused _) => False

namespace Ensures

variable {α β : Type} {P Q : α → Prop}

/-- What is ensured holds of what was returned. -/
theorem of_ok {x : Outcome α} {a : α} (h : Ensures x P) (hx : x = .ok a) : P a := by
  rw [hx] at h
  exact h

/-- Where something is ensured, nothing is refused. -/
theorem not_refused {x : Outcome α} (h : Ensures x P) (cause : Refusal) :
    x ≠ .error (.refused cause) := by
  intro hx
  rw [hx] at h
  exact h

theorem pure {a : α} (h : P a) : Ensures (Pure.pure a) P := h

/-- What is ensured of the first value may be used for the second. -/
theorem bind {x : Outcome α} {f : α → Outcome β} {R : β → Prop} (hx : Ensures x P)
    (hf : ∀ a, P a → Ensures (f a) R) : Ensures (x >>= f) R := by
  cases x with
  | ok a => exact hf a hx
  | error failure =>
    cases failure with
    | fault _ => trivial
    | refused _ => exact hx

/-- What has only faults is never refused. -/
theorem ofFault {x : Except Fault α} (h : ∀ a, x = .ok a → P a) : Ensures (Outcome.ofFault x) P := by
  cases x with
  | ok a => exact h a rfl
  | error _ => trivial

theorem mono {x : Outcome α} (h : Ensures x P) (himp : ∀ a, P a → Q a) : Ensures x Q := by
  cases x with
  | ok a => exact himp a h
  | error failure =>
    cases failure with
    | fault _ => trivial
    | refused _ => exact h

/-- Each branch may use the condition that leads to it. -/
theorem ite {c : Prop} [Decidable c] {x y : Outcome α} (hx : c → Ensures x P)
    (hy : ¬ c → Ensures y P) : Ensures (if c then x else y) P := by
  split
  · exact hx ‹_›
  · exact hy ‹_›

/-- What each round of a loop over some items preserves holds after the loop. -/
theorem foldlM_of_mem {I : α → Prop} {f : α → β → Outcome α} :
    ∀ {xs : List β}, (∀ x ∈ xs, ∀ a, I a → Ensures (f a x) I) → ∀ a, I a → Ensures (xs.foldlM f a) I
  | [], _, a, ha => by
    rw [List.foldlM_nil]
    exact .pure ha
  | x :: xs, hf, a, ha => by
    rw [List.foldlM_cons]
    refine .bind (hf x List.mem_cons_self a ha) fun b hb => ?_
    exact foldlM_of_mem (fun y hy => hf y (List.mem_cons_of_mem x hy)) b hb

/-- What each round of a loop preserves holds after the loop. -/
theorem foldlM_invariant {I : α → Prop} {f : α → β → Outcome α} (hf : ∀ a x, I a → Ensures (f a x) I)
    (xs : List β) (a : α) (ha : I a) : Ensures (xs.foldlM f a) I :=
  foldlM_of_mem (fun x _ a => hf a x) a ha

/-- A reflexive and transitive relation that each round of a loop respects holds across the loop. -/
theorem foldlM {R : α → α → Prop} (hrefl : ∀ a, R a a) (htrans : ∀ {a b c}, R a b → R b c → R a c)
    {f : α → β → Outcome α} (hf : ∀ a x, Ensures (f a x) (R a)) :
    ∀ (xs : List β) (a : α), Ensures (xs.foldlM f a) (R a)
  | [], a => by
    rw [List.foldlM_nil]
    exact .pure (hrefl a)
  | x :: xs, a => by
    rw [List.foldlM_cons]
    refine .bind (hf a x) fun b hb => ?_
    exact (foldlM hrefl htrans hf xs b).mono fun c hc => htrans hb hc

end Ensures

end Outcome

variable {E : Type}

namespace World

/-! ## Drawing -/

/-- A draw takes from the source of the world and changes nothing else of it. -/
theorem draw_inv {α : Type} {w w' : World E} {d : Draw α} {a : α} (h : w.draw d = .ok (a, w')) :
    ∃ source, d.run w.source = .ok (a, source) ∧ w' = { w with source } := by
  obtain ⟨⟨b, source⟩, hrun, hpure⟩ := except_bind_inv h
  cases hpure
  exact ⟨source, hrun, rfl⟩

/-- So does a build that is not refused. -/
theorem build_ensures {α : Type} {b : Build α} {P : α → Prop} (h : Build.Ensures b P) (w : World E) :
    Outcome.Ensures (w.build b) fun (a, w') => P a ∧ ∃ source, w' = { w with source } := by
  unfold build
  refine .bind (.ofFault fun _ hdraw => hdraw) fun (x, w') hdraw => ?_
  obtain ⟨source, hrun, rfl⟩ := draw_inv hdraw
  obtain ⟨a, rfl, ha⟩ := h _ _ _ hrun
  exact ⟨ha, source, rfl⟩

/-- A build that was not refused has returned, and the world goes on with the source. -/
theorem build_inv {α : Type} {w w' : World E} {b : Build α} {a : α} (h : w.build b = .ok (a, w')) :
    ∃ source, b.run.run w.source = .ok (.ok a, source) ∧ w' = { w with source } := by
  obtain ⟨⟨x, w₁⟩, hdraw, hvalue⟩ := except_bind_inv h
  obtain ⟨source, hrun, rfl⟩ := draw_inv (Outcome.ofFault_inv hdraw)
  cases x with
  | error cause => cases hvalue
  | ok b' =>
    cases hvalue
    exact ⟨source, hrun, rfl⟩

/-- A build that has returned and was not refused leaves a world that goes on with the source. -/
theorem build_run {α : Type} {w : World E} {b : Build α} {a : α} {source : Source}
    (h : b.run.run w.source = .ok (.ok a, source)) : w.build b = .ok (a, { w with source }) := by
  unfold build draw
  rw [h]
  rfl

/-! ## The payments of a turn -/

variable [Physics E]

/-- The world in which a creature has gained from the pellet that it ate. -/
def fed (w : World E) (rank : Rank) (eater : Creature) : World E :=
  (w.modifyCreature rank fun c => c.adjustHunger w.config.food.hungerRestore).setMass rank
    (eater.mass + w.config.food.massGain)

/-- The world in which an attacker has gained from a hit and holds a laser. -/
def rewarded (w : World E) (actor : Rank) (attacker : Creature) (laser : Laser) : World E :=
  (w.modifyCreature actor fun c =>
    { c with laser := some laser }.adjustHunger w.config.combat.attackerHungerGain).setMass actor
      (attacker.mass + w.config.combat.massTransfer)

/-- The world in which a target has lost from a hit. -/
def bitten (w : World E) (combat : CombatConfig) (target : Rank) (victim : Creature) : World E :=
  let w := w.modifyCreature target fun c => c.adjustHunger (-combat.targetHungerLoss)
  let mass := ((w.creatures.get? target).map (·.mass)).getD victim.mass
  w.setMass target (greater (mass - combat.massTransfer) w.config.metabolism.minMass)

/-- The world after both sides of a hit. -/
def exchanged (w : World E) (actor target : Rank) (attacker victim : Creature) (targetId : Ident) : World E :=
  (w.rewarded actor attacker
    { target := targetId, targetBody := victim.body, timer := w.config.combat.laserTicks
      start := w.placeOf attacker.body, stop := w.placeOf victim.body }).bitten w.config.combat target victim

variable [LawfulPhysics E]

/-- Eating is quiet: the eater's hunger and mass change. -/
theorem fed_quiet (w : World E) (rank : Rank) (eater : Creature) : w.Quiet (w.fed rank eater) :=
  (Quiet.modify fun c _ => c.adjustHunger_lives _).trans (.setMass _ _ _)

/-- The attacker's side is quiet too. -/
theorem rewarded_quiet (w : World E) (actor : Rank) (attacker : Creature) (laser : Laser) :
    w.Quiet (w.rewarded actor attacker laser) :=
  (Quiet.modify fun c _ => (c.withLaser_lives _).trans (Creature.adjustHunger_lives _ _)).trans
    (.setMass _ _ _)

/-- And the target's. -/
theorem bitten_quiet (w : World E) (combat : CombatConfig) (target : Rank) (victim : Creature) :
    w.Quiet (w.bitten combat target victim) :=
  (Quiet.modify fun c _ => c.adjustHunger_lives _).trans (.setMass _ _ _)

/-- So both together are. -/
theorem exchanged_quiet (w : World E) (actor target : Rank) (attacker victim : Creature)
    (targetId : Ident) : w.Quiet (w.exchanged actor target attacker victim targetId) :=
  (w.rewarded_quiet actor attacker _).trans (bitten_quiet _ _ target victim)

end World

namespace Stage

/-- Sensing fills the memo at most. -/
theorem surroundings_memory (s : Stage E) (c : Creature) :
    ∃ similarity, (s.surroundings c).2 = { s.world with similarity } := by
  unfold surroundings
  dsimp only
  split
  · exact ⟨s.world.similarity, rfl⟩
  · exact ⟨_, rfl⟩

variable [Physics E]

/-! ## What can happen to a stage -/

/-- Takes a creature out of the world if it has starved. -/
def reap (s : Stage E) (rank : Rank) : Stage E :=
  if (s.world.creatures.get? rank).any (·.isStarved) then s.kill rank else s

/-- The stage after the birth of a child, in a world in which the parent has paid for it. -/
def deliver (s : Stage E) (parent : Creature) (birth : Birth) (paid : World E) : Stage E :=
  let child := birth.creature
  let s := { s with world := paid }.log
    (.birth child.id (some parent.id) child.lineage.generation paid.tick)
  let s := match birth.operator with
    | some op => s.log (.mutation child.id op.name paid.tick)
    | none    => s
  let world := s.world.spawnCreature child
  { s with world, views := s.views ++ [world.viewOf ⟨world.lastRank⟩ child] }

/-- The events of a child's birth. -/
def birthEvents (w : World E) (parent : Creature) (birth : Birth) : List Event :=
  .birth birth.creature.id (some parent.id) birth.creature.lineage.generation w.tick ::
    (birth.operator.map fun op => .mutation birth.creature.id op.name w.tick).toList

/-- What is delivered is in the world, in view and told of. -/
theorem deliver_eq (s : Stage E) (parent : Creature) (birth : Birth) (paid : World E) :
    s.deliver parent birth paid =
      { world       := paid.spawnCreature birth.creature
        views       := s.views ++
          [(paid.spawnCreature birth.creature).viewOf ⟨paid.lastRank + 1⟩ birth.creature]
        pelletViews := s.pelletViews
        events      := s.events ++ birthEvents paid parent birth } := by
  unfold deliver birthEvents
  cases birth.operator with
  | none => rfl
  | some op =>
    rw [List.append_cons s.events]
    rfl

/-- What is delivered is spawned in the world that was paid for. -/
theorem deliver_world (s : Stage E) (parent : Creature) (birth : Birth) (paid : World E) :
    (s.deliver parent birth paid).world = paid.spawnCreature birth.creature := by rw [deliver_eq]

/-- And its birth is told, with its mutation if there was one. -/
theorem deliver_events (s : Stage E) (parent : Creature) (birth : Birth) (paid : World E) :
    (s.deliver parent birth paid).events = s.events ++ birthEvents paid parent birth := by rw [deliver_eq]

/-! ## The parts of a turn, written out -/

/-- Reaping spares a creature, or takes it out because it has starved and tells of its death. -/
theorem reap_cases (s : Stage E) (rank : Rank) :
    s.reap rank = s ∨ ∃ c world, c.isStarved = true ∧ s.world.removeCreature rank = some (c, world) ∧
      s.reap rank = { s with world, views := s.views.filter fun v => v.rank ≠ rank }.log
        (.death c.id (c.age world.tick) world.tick) := by
  unfold reap
  split
  · rename_i hstarved
    unfold kill
    cases hremoved : s.world.removeCreature rank with
    | none => exact .inl rfl
    | some removed =>
      obtain ⟨c, world⟩ := removed
      rw [(World.removeCreature_inv hremoved).1, Option.any_some] at hstarved
      exact .inr ⟨c, world, hstarved, rfl, rfl⟩
  · exact .inl rfl

/-- Reaping tells of a death or of nothing. -/
theorem reap_events (s : Stage E) (rank : Rank) :
    (s.reap rank).events = s.events ∨ ∃ c, s.world.creatures.get? rank = some c ∧
      (s.reap rank).events = s.events ++ [.death c.id (c.age s.world.tick) s.world.tick] := by
  rcases s.reap_cases rank with hspared | ⟨c, world, -, hremoved, hreaped⟩
  · exact .inl (congrArg Stage.events hspared)
  · obtain ⟨hget, rfl⟩ := World.removeCreature_inv hremoved
    exact .inr ⟨c, hget, congrArg Stage.events hreaped⟩

/-- Reaping somebody else changes nothing about a creature. -/
theorem get?_reap {s : Stage E} {rank target : Rank} (hne : rank ≠ target) :
    (s.reap target).world.creatures.get? rank = s.world.creatures.get? rank := by
  rcases s.reap_cases target with hspared | ⟨c, world, -, hremoved, hreaped⟩
  · rw [hspared]
  · obtain ⟨-, rfl⟩ := World.removeCreature_inv hremoved
    rw [hreaped]
    show (s.world.creatures.erase target).get? rank = _
    rw [Table.get?_erase, if_neg hne]

/-- A creature that overlaps a pellet in sight gains from it, and the pellet is gone. -/
theorem feed_eq (s : Stage E) (rank : Rank) :
    s.feed rank = match s.world.creatures.get? rank with
      | none       => s
      | some eater =>
        match (Physics.overlapping s.world.enclosure eater.body (s.pelletViews.map (·.body))).head?.bind
            s.world.pelletOfBody.get? with
        | none      => s
        | some food =>
          match s.world.removePellet food with
          | none                 => s
          | some (pellet, world) =>
            { s with
              world       := world.fed rank eater
              pelletViews := s.pelletViews.filter fun v => v.rank ≠ food }.log
              (.foodEaten eater.id pellet.id (world.fed rank eater).tick) := rfl

/-- Feeding changes nothing, or a pellet is taken out, the creature gains from it, and its meal is told. -/
theorem feed_cases (s : Stage E) (rank : Rank) :
    s.feed rank = s ∨ ∃ eater food pellet world, s.world.creatures.get? rank = some eater ∧
      s.world.removePellet food = some (pellet, world) ∧
      s.feed rank = { s with
        world       := world.fed rank eater
        pelletViews := s.pelletViews.filter fun v => v.rank ≠ food }.log
        (.foodEaten eater.id pellet.id (world.fed rank eater).tick) := by
  rw [feed_eq]
  cases heater : s.world.creatures.get? rank with
  | none => exact .inl rfl
  | some eater =>
    dsimp only
    split
    · exact .inl rfl
    · rename_i food _
      cases hremoved : s.world.removePellet food with
      | none => exact .inl rfl
      | some removed => exact .inr ⟨eater, food, removed.1, removed.2, rfl, hremoved, rfl⟩

/-- To count a laser down changes nothing, or the creature that holds it. -/
theorem tickLaser_cases (s : Stage E) (rank : Rank) :
    s.tickLaser rank = s ∨ ∃ own target : Option Vec,
      s.tickLaser rank = { s with world := s.world.modifyCreature rank (·.tickLaser own target) } := by
  unfold tickLaser
  split
  · exact .inl rfl
  · split
    · exact .inl rfl
    · exact .inr ⟨_, _, rfl⟩

/-- Nobody's genes are run where nobody is. -/
theorem runGenes_of_none {s : Stage E} {rank : Rank} (hnone : s.world.creatures.get? rank = none) :
    s.runGenes rank = .ok ([], s) := by
  unfold runGenes
  rw [hnone]
  rfl

/-- Running the genes of a creature takes its turn on the source of the world. Of the world, the creature's
own state and the forces on its own body are changed; sensing may fill the memo. -/
theorem runGenes_eq {s : Stage E} {rank : Rank} {c : Creature} (hc : s.world.creatures.get? rank = some c) :
    ∃ similarity, s.runGenes rank = (do
      let (t, source) ← (c.takeTurn (s.world.placeOf c.body) (s.surroundings c).1).run s.world.source
      return (t.requests, { s with world := { s.world with
        creatures := s.world.creatures.modify rank fun _ => t.creature
        enclosure := t.pushes.foldl (fun e force => Physics.push e c.body force) s.world.enclosure
        source, similarity } })) := by
  obtain ⟨similarity, hsensed⟩ := s.surroundings_memory c
  refine ⟨similarity, ?_⟩
  unfold runGenes World.draw
  rw [hc]
  dsimp only
  generalize s.surroundings c = sensed at hsensed ⊢
  obtain ⟨seen, world⟩ := sensed
  -- sensing changes nothing but the memo, so the turn is that of the world it started from
  obtain rfl : world = { s.world with similarity } := hsensed
  show (((c.takeTurn (s.world.placeOf c.body) seen).run s.world.source >>= _) >>= _) = _
  cases (c.takeTurn (s.world.placeOf c.body) seen).run s.world.source <;> rfl

/-- Where running the genes succeeds, nothing happens as nobody is there, or a turn has been taken. -/
theorem runGenes_cases {s s' : Stage E} {rank : Rank} {requests : List Interaction}
    (h : s.runGenes rank = .ok (requests, s')) :
    s.world.creatures.get? rank = none ∧ requests = [] ∧ s' = s ∨
    ∃ c turn source similarity, s.world.creatures.get? rank = some c ∧
      (c.takeTurn (s.world.placeOf c.body) (s.surroundings c).1).run s.world.source = .ok (turn, source) ∧
      requests = turn.requests ∧
      s' = { s with world := { s.world with
        creatures := s.world.creatures.modify rank fun _ => turn.creature
        enclosure := turn.pushes.foldl (fun e force => Physics.push e c.body force) s.world.enclosure
        source, similarity } } := by
  cases hget : s.world.creatures.get? rank with
  | none =>
    rw [runGenes_of_none hget] at h
    cases h
    exact .inl ⟨rfl, rfl, rfl⟩
  | some c =>
    obtain ⟨similarity, hruns⟩ := runGenes_eq hget
    rw [hruns] at h
    obtain ⟨⟨turn, source⟩, hturn, hpure⟩ := except_bind_inv h
    cases hpure
    exact .inr ⟨c, turn, source, similarity, rfl, hturn, rfl, rfl⟩

/-- A hit is an exchange between two living creatures, which the target may not survive. -/
theorem attack_eq (s : Stage E) (actor target : Rank) (targetId : Ident) :
    s.attack actor target targetId =
      match s.world.creatures.get? actor, s.world.creatures.get? target with
      | some attacker, some victim =>
        if victim.id ≠ targetId then s
        else
          let world := s.world.exchanged actor target attacker victim targetId
          ({ s with world }.log (.attack attacker.id targetId world.tick)).reap target
      | _, _ => s := rfl

/-- An attack changes nothing, or the two have their exchange, it is told, and then the target is looked at
again. -/
theorem attack_cases (s : Stage E) (actor target : Rank) (targetId : Ident) :
    s.attack actor target targetId = s ∨ ∃ attacker victim, s.world.creatures.get? actor = some attacker ∧
      s.world.creatures.get? target = some victim ∧ victim.id = targetId ∧
      s.attack actor target targetId =
        ({ s with world := s.world.exchanged actor target attacker victim targetId }.log
          (.attack attacker.id targetId
            (s.world.exchanged actor target attacker victim targetId).tick)).reap target := by
  rw [attack_eq]
  split
  · rename_i attacker victim hattacker hvictim
    split
    · exact .inl rfl
    · rename_i hid
      exact .inr ⟨attacker, victim, hattacker, hvictim, Decidable.not_not.mp hid, rfl⟩
  · exact .inl rfl

/-- Whoever may replicate delivers a child and pays for it. -/
theorem replicate_eq (s : Stage E) (rank : Rank) :
    s.replicate rank = match s.world.creatures.get? rank with
      | none        => pure s
      | some parent =>
        if parent.mass < s.world.config.metabolism.replicateMass
            ∨ s.world.config.world.populationCap ≤ s.world.population then pure s
        else do
          let place := (s.world.placeOf parent.body).add childOffset
          let ((birth, enclosure), world) ← s.world.build
            (Birth.child parent place s.world.tick s.world.config s.world.enclosure)
          return s.deliver parent birth
            ({ world with enclosure }.setMass rank (parent.mass - birth.creature.mass)) := rfl

/-- What replicating can come to: nothing, or a creature that is heavy enough, in a world that has room, has
bred; the child that was made of it has the next body, and is delivered to the world in which the parent has
paid for it. -/
inductive Replicated (s : Stage E) (rank : Rank) : Stage E → Prop
  | refused : Replicated s rank s
  | delivered {parent : Creature} {birth : Birth} {o : Offspring} {tr : Trace} {lineage : Lineage}
      {source : Source} (hparent : s.world.creatures.get? rank = some parent)
      (hheavy : ¬ parent.mass < s.world.config.metabolism.replicateMass)
      (hroom : s.world.population < s.world.config.world.populationCap)
      (hreproduced : Reproduced parent.program parent.traits s.world.config.evolution o tr)
      (hlineage : Birth.childLineage parent o.mutated = .ok lineage)
      (hnewborn : birth.creature.Newborn
        (Birth.childSeed ((s.world.placeOf parent.body).add childOffset) s.world.config o lineage)
        s.world.tick s.world.enclosure)
      (hoperator : birth.operator = o.operator) :
      Replicated s rank (s.deliver parent birth
        (World.setMass { s.world with
          source
          enclosure := (Birth.childSeed ((s.world.placeOf parent.body).add childOffset) s.world.config o
            lineage).bodied s.world.enclosure } rank (parent.mass - birth.creature.mass)))

/-- A replication that returns comes to one of the two. -/
theorem replicate_cases (s : Stage E) (rank : Rank) : Outcome.Ensures (s.replicate rank) (s.Replicated rank) := by
  rw [replicate_eq]
  split
  · exact .pure .refused
  · rename_i parent hparent
    refine .ite (fun _ => .pure .refused) fun hguard => ?_
    rw [not_or, Nat.not_le] at hguard
    refine .bind (World.build_ensures (Birth.child_ensures _ _ _ _ _) s.world) ?_
    rintro ⟨⟨birth, enclosure⟩, world⟩ ⟨⟨o, tr, lineage, hreproduced, hlineage, hnewborn, hoperator, rfl⟩,
      source, rfl⟩
    exact .pure (.delivered hparent hguard.1 hguard.2 hreproduced hlineage hnewborn hoperator)

/-- Metabolism charges a creature, which is taken out if that starves it. -/
theorem metabolize_eq (s : Stage E) (rank : Rank) :
    s.metabolize rank =
      { s with
        world := s.world.modifyCreature rank
          (·.starve (s.world.config.starvationRate s.world.tick)) }.reap rank := rfl

/-- Turns are taken one part after the other. -/
theorem turns_append {s now : Stage E} {before after : List Rank} (hnow : s.turns before = .ok now) :
    s.turns (before ++ after) = now.turns after := by
  unfold turns at hnow ⊢
  rw [List.foldlM_append, hnow]
  rfl

/-- Turns that were taken passed through the stage at which the first part of them was over. -/
theorem turns_append_inv {s s' : Stage E} {before after : List Rank}
    (h : s.turns (before ++ after) = .ok s') :
    ∃ now, s.turns before = .ok now ∧ now.turns after = .ok s' := by
  unfold turns at h
  rw [List.foldlM_append] at h
  exact except_bind_inv h

variable [LawfulPhysics E]

/-- One change of a stage's world, which the views and the log follow. -/
inductive Step (s : Stage E) : Stage E → Prop
  | quiet {world : World E} (h : s.world.Quiet world) : Step s { s with world }
  | struck {actor target : Rank} {attacker victim : Creature} {world : World E}
      (hattacker : s.world.creatures.get? actor = some attacker)
      (hvictim : s.world.creatures.get? target = some victim) (h : s.world.Quiet world) :
      Step s ({ s with world }.log (.attack attacker.id victim.id world.tick))
  | eaten {rank food : Rank} {eater : Creature} {pellet : Pellet} {w₁ world : World E}
      (heater : s.world.creatures.get? rank = some eater)
      (hremoved : s.world.removePellet food = some (pellet, w₁)) (h : w₁.Quiet world) :
      Step s ({ s with world, pelletViews := s.pelletViews.filter fun v => v.rank ≠ food }.log
        (.foodEaten eater.id pellet.id world.tick))
  | died {rank : Rank} (hstarved : (s.world.creatures.get? rank).any (·.isStarved) = true) :
      Step s (s.kill rank)
  | born {parent : Creature} {birth : Birth} {seed : Seed} {paid : World E}
      (harrives : s.world.Arrives seed birth.creature (birthEvents s.world parent birth))
      (hpaid : World.Quiet { s.world with enclosure := seed.bodied s.world.enclosure } paid) :
      Step s (s.deliver parent birth paid)

/-- One such change, or none. -/
def Moves (s s' : Stage E) : Prop := Relation.ReflGen Step s s'

/-- Any number of such changes, one after the other. -/
def Steps (s s' : Stage E) : Prop := Relation.ReflTransGen Step s s'

/-- A part of a turn is a step or nothing. -/
theorem Moves.steps {s s' : Stage E} (h : s.Moves s') : s.Steps s' := Relation.ReflGen.to_reflTransGen h

namespace Moves

theorem refl (s : Stage E) : s.Moves s := Relation.ReflGen.refl

theorem step {s s' : Stage E} (h : s.Step s') : s.Moves s' := Relation.ReflGen.single h

theorem quiet {s : Stage E} {world : World E} (h : s.world.Quiet world) : s.Moves { s with world } :=
  .step (.quiet h)

end Moves

namespace Steps

theorem refl (s : Stage E) : s.Steps s := Relation.ReflTransGen.refl

theorem trans {s s' s'' : Stage E} (h : s.Steps s') (h' : s'.Steps s'') : s.Steps s'' :=
  Relation.ReflTransGen.trans h h'

theorem single {s s' : Stage E} (h : s.Step s') : s.Steps s' := Relation.ReflTransGen.single h

end Steps

/-- From one stage to another the world went through a course of changes, all of whose events were
logged. -/
def Advances (s s' : Stage E) : Prop :=
  ∃ es, s.world.Course es s'.world ∧ s'.events = s.events ++ es

namespace Advances

theorem refl (s : Stage E) : s.Advances s := ⟨[], .refl, (List.append_nil _).symm⟩

theorem trans {s s' s'' : Stage E} (h : s.Advances s') (h' : s'.Advances s'') : s.Advances s'' := by
  obtain ⟨es, hcourse, hevents⟩ := h
  obtain ⟨fs, hcourse', hevents'⟩ := h'
  refine ⟨es ++ fs, hcourse.trans hcourse', ?_⟩
  rw [hevents', hevents, List.append_assoc]

end Advances

/-- Each step is a change of the world and logs the events of this change, or else it takes out a creature
that is not there. -/
theorem Step.change {s s' : Stage E} (h : s.Step s') :
    s' = s ∨ ∃ es, s.world.Change es s'.world ∧ s'.events = s.events ++ es := by
  -- a death is told only if there was somebody to take out, and each of the other steps is the change it is
  -- named after
  cases h with
  | quiet h => exact .inr ⟨[], .quiet h, (List.append_nil _).symm⟩
  | struck hattacker hvictim h =>
    refine .inr ⟨_, .struck hattacker hvictim h, ?_⟩
    rw [← h.tick_eq]
    rfl
  | @eaten rank food eater pellet w₁ world heater hremoved h =>
    have htick : world.tick = s.world.tick := by
      obtain ⟨-, hw₁⟩ := World.removePellet_inv hremoved
      rw [h.tick_eq, hw₁]
    refine .inr ⟨_, .eaten heater hremoved h, ?_⟩
    rw [← htick]
    rfl
  | @died rank hstarved =>
    unfold kill
    split
    · exact .inl rfl
    · rename_i c world hremoved
      obtain ⟨hget, hworld⟩ := World.removeCreature_inv hremoved
      rw [hget] at hstarved
      refine .inr ⟨_, .died hstarved hremoved, ?_⟩
      rw [hworld]
      rfl
  | @born parent birth seed paid harrives hpaid =>
    refine .inr ⟨_, ?_, deliver_events s parent birth paid⟩
    rw [deliver_world, birthEvents, hpaid.tick_eq]
    exact .born harrives hpaid

/-- A step takes the world along a course of changes whose events are logged. -/
theorem Step.advances {s s' : Stage E} (h : s.Step s') : s.Advances s' := by
  rcases h.change with rfl | ⟨es, hchange, hevents⟩
  · exact .refl _
  · exact ⟨es, .single hchange, hevents⟩

/-- So do any number of steps. -/
theorem Steps.advances {s s' : Stage E} (h : s.Steps s') : s.Advances s' := by
  induction h with
  | refl => exact .refl s
  | tail _ hstep ih => exact ih.trans hstep.advances

/-! ## The parts of a turn -/

/-- The death of a creature that has starved is one step. -/
theorem reap_moves (s : Stage E) (rank : Rank) : s.Moves (s.reap rank) := by
  unfold reap
  split
  · rename_i hstarved
    exact .step (.died hstarved)
  · exact .refl s

/-- A meal is one step. -/
theorem feed_moves (s : Stage E) (rank : Rank) : s.Moves (s.feed rank) := by
  rcases s.feed_cases rank with hnothing | ⟨eater, food, pellet, world, heater, hremoved, hfed⟩
  · rw [hnothing]
    exact .refl s
  · -- a pellet is taken out, and then its eater grows
    rw [hfed]
    exact .step (.eaten heater hremoved (world.fed_quiet rank eater))

theorem feed_steps (s : Stage E) (rank : Rank) : s.Steps (s.feed rank) := (s.feed_moves rank).steps

/-- To count down a laser is quiet. -/
theorem tickLaser_moves (s : Stage E) (rank : Rank) : s.Moves (s.tickLaser rank) := by
  rcases s.tickLaser_cases rank with hnothing | ⟨own, target, hticked⟩
  · rw [hnothing]
    exact .refl s
  · rw [hticked]
    exact .quiet (.modify fun c _ => c.tickLaser_lives _ _)

theorem tickLaser_steps (s : Stage E) (rank : Rank) : s.Steps (s.tickLaser rank) :=
  (s.tickLaser_moves rank).steps

/-- Where there is a creature, running its genes takes its turn: the world changes quietly, and the
creature is then as its turn left it. -/
theorem runGenes_inv {s s' : Stage E} {rank : Rank} {c : Creature} {requests : List Interaction}
    (hc : s.world.creatures.get? rank = some c) (h : s.runGenes rank = .ok (requests, s')) :
    ∃ turn source source' world,
      (c.takeTurn (s.world.placeOf c.body) (s.surroundings c).1).run source = .ok (turn, source') ∧
      requests = turn.requests ∧ s' = { s with world } ∧ s.world.Quiet world ∧
      world.creatures = s.world.creatures.modify rank fun _ => turn.creature := by
  rcases runGenes_cases h with ⟨hnone, -, -⟩ | ⟨d, turn, source, similarity, hd, hturn, rfl, rfl⟩
  · rw [hc] at hnone
    cases hnone
  · rw [hc, Option.some.injEq] at hd
    subst hd
    have hlives : c.Lives turn.creature := c.takeTurn_ensures _ _ _ _ _ hturn
    -- sensing and drawing, then the creature's new state, then the pushes
    have hmemory : s.world.Quiet { s.world with source, similarity } := .memory s.world source similarity
    have hmodify : World.Quiet { s.world with source, similarity }
        (World.modifyCreature { s.world with source, similarity } rank fun _ => turn.creature) := by
      refine .modify fun d hd => ?_
      rw [show d = c from Option.some.inj (hd.symm.trans hc)]
      exact hlives
    exact ⟨turn, _, _, _, hturn, rfl, rfl,
      (hmemory.trans hmodify).trans (.moved (Physics.pushes_sameBodies _ _ _)), rfl⟩

/-- Running the genes changes the world quietly, whether or not there is a creature. -/
theorem runGenes_quiet {s s' : Stage E} {rank : Rank} {requests : List Interaction}
    (h : s.runGenes rank = .ok (requests, s')) : ∃ world, s' = { s with world } ∧ s.world.Quiet world := by
  cases hget : s.world.creatures.get? rank with
  | none =>
    rw [runGenes_of_none hget] at h
    cases h
    exact ⟨s.world, rfl, .refl s.world⟩
  | some c =>
    obtain ⟨_, _, _, world, -, -, hworld, hquiet, -⟩ := runGenes_inv hget h
    exact ⟨world, hworld, hquiet⟩

/-- So it is a step. -/
theorem runGenes_moves {s s' : Stage E} {rank : Rank} {requests : List Interaction}
    (h : s.runGenes rank = .ok (requests, s')) : s.Moves s' := by
  obtain ⟨world, rfl, hquiet⟩ := runGenes_quiet h
  exact .quiet hquiet

theorem runGenes_steps {s s' : Stage E} {rank : Rank} {requests : List Interaction}
    (h : s.runGenes rank = .ok (requests, s')) : s.Steps s' := (runGenes_moves h).steps

/-! ## Interactions -/

/-- Both sides of an attack, before the target is looked at again. -/
def exchange (s : Stage E) (actor target : Rank) (targetId : Ident) : Stage E :=
  match s.world.creatures.get? actor, s.world.creatures.get? target with
  | some attacker, some victim =>
    if victim.id ≠ targetId then s
    else
      let world := s.world.exchanged actor target attacker victim targetId
      { s with world }.log (.attack attacker.id targetId world.tick)
  | _, _ => s

/-- The two sides of an attack are one step, in which it is told. -/
theorem exchange_moves (s : Stage E) (actor target : Rank) (targetId : Ident) :
    s.Moves (s.exchange actor target targetId) := by
  unfold exchange
  split
  · rename_i attacker victim hattacker hvictim
    split
    · exact .refl s
    · rename_i hid
      -- the victim is the one that was aimed at, and no other under its rank
      rw [ne_eq, Decidable.not_not] at hid
      subst hid
      exact .step (.struck hattacker hvictim (World.exchanged_quiet _ _ _ _ _ _))
  · exact .refl s

/-- What is left of an attack after the exchange is to take the target out if it has starved. -/
theorem exchange_moves_attack (s : Stage E) (actor target : Rank) (targetId : Ident) :
    (s.exchange actor target targetId).Moves (s.attack actor target targetId) := by
  rw [attack_eq]
  unfold exchange
  split
  · split
    · exact .refl s
    · exact reap_moves _ target
  · exact .refl s

/-- With the death of a target that it starves, an attack takes two steps at most. -/
theorem attack_steps (s : Stage E) (actor target : Rank) (targetId : Ident) :
    s.Steps (s.attack actor target targetId) :=
  (s.exchange_moves actor target targetId).steps.trans
    (s.exchange_moves_attack actor target targetId).steps

/-- Replicating is one step at most, and it is not refused. -/
theorem replicate_moves (s : Stage E) (rank : Rank) :
    Outcome.Ensures (s.replicate rank) s.Moves := by
  refine (s.replicate_cases rank).mono fun s' h => ?_
  cases h with
  | refused => exact .refl s
  | @delivered _ _ _ _ _ source hparent hheavy hroom hreproduced hlineage hnewborn hoperator =>
    -- the parent pays when the child's body is there and the child is not yet
    have harrives := World.Arrives.child hparent hheavy hroom hreproduced hlineage hnewborn
    rw [← hoperator] at harrives
    exact .step (.born harrives ((World.Quiet.memory _ source s.world.similarity).trans (.setMass _ _ _)))

theorem replicate_ensures (s : Stage E) (rank : Rank) :
    Outcome.Ensures (s.replicate rank) s.Steps :=
  (s.replicate_moves rank).mono fun _ h => h.steps

/-- Carrying out a request takes steps. -/
theorem interact_ensures (actor : Rank) (s : Stage E) (i : Interaction) :
    Outcome.Ensures (interact actor s i) s.Steps := by
  cases i with
  | attack target targetId => exact .pure (s.attack_steps actor target targetId)
  | replicate => exact s.replicate_ensures actor

/-- All requests of a turn together take steps. -/
theorem requests_ensures (actor : Rank) (requests : List Interaction) (s : Stage E) :
    Outcome.Ensures (requests.foldlM (interact actor) s) s.Steps :=
  .foldlM Steps.refl Steps.trans (interact_ensures actor) requests s

/-- The metabolism of a creature has been charged, and nobody has been taken out for it yet. -/
def charge (s : Stage E) (rank : Rank) : Stage E :=
  { s with
    world := s.world.modifyCreature rank (·.starve (s.world.config.starvationRate s.world.tick)) }

/-- The charge is quiet. -/
theorem charge_moves (s : Stage E) (rank : Rank) : s.Moves (s.charge rank) :=
  .quiet (.modify fun c _ => c.starve_lives _)

/-- What is left of it then is to take the creature out if it has starved. -/
theorem charge_moves_metabolize (s : Stage E) (rank : Rank) : (s.charge rank).Moves (s.metabolize rank) :=
  reap_moves _ rank

/-- Metabolism takes two steps at most, the charge and a death. -/
theorem metabolize_steps (s : Stage E) (rank : Rank) : s.Steps (s.metabolize rank) :=
  (s.charge_moves rank).steps.trans (s.charge_moves_metabolize rank).steps

/-! ## Turns -/

/-- **A turn takes steps**, and it is not refused. -/
theorem turn_ensures (s : Stage E) (rank : Rank) : Outcome.Ensures (s.turn rank) s.Steps := by
  unfold turn
  refine .ite (fun _ => ?_) fun _ => .pure (.refl s)
  refine .bind (.ofFault fun _ hrun => runGenes_steps hrun) fun (requests, s') hgenes => ?_
  -- feeding, laser and genes come before the requests, metabolism comes last
  have hbefore : s.Steps s' :=
    ((s.feed_steps rank).trans (tickLaser_steps _ rank)).trans hgenes
  refine .bind (requests_ensures rank requests s') ?_
  exact fun s'' hrequests => .pure ((hbefore.trans hrequests).trans (s''.metabolize_steps rank))

/-- And so do the turns of a tick. -/
theorem turns_ensures (s : Stage E) (ranks : List Rank) : Outcome.Ensures (s.turns ranks) s.Steps :=
  .foldlM Steps.refl Steps.trans turn_ensures ranks s

end Stage

namespace World

/-! ## The parts of a tick -/

/-- The world in which the changes of a tick begin: the clock is counted, and nothing is pending. -/
def counted (w : World E) : World E := { w with tick := w.tick + 1, pendingEvents := [] }

/-- The clock is counted on, as long as it fits its word. -/
theorem countTick_inv {w w' : World E} (h : w.countTick = .ok w') :
    w.tick + 1 < twoTo 64 ∧ w' = { w with tick := w.tick + 1 } := by
  unfold countTick at h
  split at h
  · cases h
    exact ⟨‹_›, rfl⟩
  · cases h

variable [Physics E]

/-- The stage at which the turns of a tick begin. -/
def opening (w : World E) : Outcome (Stage E) := do
  let w ← Outcome.ofFault w.countTick
  let before := w.pendingEvents
  let w ← Outcome.ofFault { w with pendingEvents := [] }.spawnFood
  return Stage.start w before

/-- The end of a tick, after the turns of the creatures of the given ranks. -/
def closing (ranks : List Rank) (stage : Stage E) : Outcome (List Event × World E) := do
  let (births, w) ← stage.world.refill
  let events := stage.events ++ births
  if ranks ≠ [] ∧ w.population = 0 then
    return (events ++ [.extinction w.tick], w)
  else
    return (events, w)

/-- A tick is its opening, the turns of all that are in view, and its end. -/
theorem update_eq (w : World E) :
    w.update = (do
      let start ← w.opening
      let stage ← start.turns (start.views.map (·.rank))
      closing (start.views.map (·.rank)) stage) := by
  unfold update opening closing
  simp only [bind_assoc, pure_bind]

/-- The turns of a tick begin as soon as food has appeared in the counted world. -/
theorem opening_inv {w : World E} {start : Stage E} (h : w.opening = .ok start) :
    ∃ w', w.counted.spawnFood = .ok w' ∧ start = Stage.start w' w.pendingEvents := by
  obtain ⟨w₁, hcount, h⟩ := except_bind_inv h
  obtain ⟨w₂, hfood, hpure⟩ := except_bind_inv h
  cases hpure
  obtain ⟨-, rfl⟩ := countTick_inv (Outcome.ofFault_inv hcount)
  exact ⟨w₂, Outcome.ofFault_inv hfood, rfl⟩

/-- With room on the clock, a tick opens with the food of the next tick. -/
theorem opening_of_lt {w : World E} (hclock : w.tick + 1 < twoTo 64) :
    w.opening = (do
      let w' ← Outcome.ofFault w.counted.spawnFood
      return Stage.start w' w.pendingEvents) := by
  unfold opening countTick
  rw [if_pos hclock]
  rfl

/-! ## Food and fresh creatures -/

/-- No pellet is due and nothing happens, or one is put where the source says. -/
theorem spawnFood_cases {w w' : World E} (h : w.spawnFood = .ok w') :
    w.config.spawnsFood w.tick w.foodCount = .ok false ∧ w' = w ∨
    ∃ place source pellet, w.config.spawnsFood w.tick w.foodCount = .ok true ∧
      (randomPlace w.config.world Pellet.radius).run w.source = .ok (place, source) ∧
      World.spawnPellet { w with source } place = .ok (pellet, w') := by
  obtain ⟨due, hdue, hrest⟩ := except_bind_inv h
  cases due with
  | false =>
    cases hrest
    exact .inl ⟨hdue, rfl⟩
  | true =>
    obtain ⟨⟨place, w₁⟩, hdraw, hrest⟩ := except_bind_inv hrest
    obtain ⟨⟨pellet, w₂⟩, hpellet, hpure⟩ := except_bind_inv hrest
    cases hpure
    obtain ⟨source, hplace, rfl⟩ := draw_inv hdraw
    exact .inr ⟨place, source, pellet, hdue, hplace, hpellet⟩

/-- The engine after a fresh creature was given a body and the mass of the fresh. -/
def freshEnclosure (w : World E) (seed : Seed) (c : Creature) : E :=
  (c.setMass w.config.world.freshSpawnMass (seed.bodied w.enclosure)).2

/-- A fresh creature is a newborn of an executable first program. It has what its birth yields, and its mass
is set once more before it is spawned. -/
theorem spawnFresh_newborn {P : Creature → Prop} (w : World E)
    (hroot : ∀ place, (Birth.root place w.tick w.config w.enclosure).Yields fun (birth, _) =>
      P birth.creature) :
    Outcome.Ensures w.spawnFresh fun (e, w') => ∃ place program c source,
      program.Executable ∧ c.Newborn (Birth.rootSeed place w.config program) w.tick w.enclosure ∧ P c ∧
      e = .birth c.id none c.lineage.generation w.tick ∧
      w' = { w with
        source
        enclosure := w.freshEnclosure (Birth.rootSeed place w.config program) c }.spawnCreature
          { c with mass := w.config.world.freshSpawnMass } := by
  unfold spawnFresh
  refine .bind (.ofFault fun _ hdraw => hdraw) fun (place, w₁) hdraw => ?_
  obtain ⟨source, -, rfl⟩ := draw_inv hdraw
  refine .bind (build_ensures ((Birth.root_ensures _ _ _ _).and_yields (hroot place)) _) ?_
  rintro ⟨⟨birth, enclosure⟩, w₂⟩ ⟨⟨⟨program, hprogram, hnewborn, rfl⟩, hP⟩, source', rfl⟩
  exact .pure ⟨place, program, birth.creature, source', hprogram, hnewborn, hP, rfl, rfl⟩

/-- What the spawning of a fresh creature preserves, filling up preserves. -/
theorem spawnMany_invariant {I : World E → Prop}
    (hfresh : ∀ w, I w → Outcome.Ensures w.spawnFresh fun (_, w') => I w') :
    ∀ (n : Nat) (w : World E), I w → Outcome.Ensures (w.spawnMany n) fun (_, w') => I w'
  | 0, _, hw => .pure hw
  | n + 1, w, hw => by
    unfold spawnMany
    refine .bind (hfresh w hw) fun (e, w₁) hfirst => ?_
    refine .bind (spawnMany_invariant hfresh n w₁ hfirst) fun (es, w₂) hothers => ?_
    exact .pure hothers

/-- A world is set up on an accepted configuration by filling up a bare one, whose events are pending. -/
theorem create_refill {config : Config} {enclosure : E} {entropy : BitVec 256} {w : World E}
    (h : create config enclosure entropy = .ok w) :
    config.Valid ∧ ∃ births w₁, (bare config enclosure entropy).refill = .ok (births, w₁) ∧
      w = { w₁ with pendingEvents := births } := by
  unfold create at h
  split at h
  · cases h
  · rename_i hvalid
    obtain ⟨⟨births, w₁⟩, hrefill, hpure⟩ := except_bind_inv h
    cases hpure
    refine ⟨?_, births, w₁, hrefill, rfl⟩
    -- a configuration that has been accepted is a valid one
    unfold Config.validate at hvalid
    split at hvalid
    · cases hvalid
    · assumption

variable [LawfulPhysics E]

/-- A pellet may appear; the creatures are left alone. -/
theorem spawnFood_inv {w w' : World E} (h : w.spawnFood = .ok w') :
    w.Course [] w' ∧ w'.creatures = w.creatures := by
  rcases spawnFood_cases h with ⟨-, rfl⟩ | ⟨place, source, pellet, -, -, hpellet⟩
  · exact ⟨.refl, rfl⟩
  · -- to draw the place takes nothing from the world but words
    refine ⟨(Course.quiet (.memory w source w.similarity)).trans (.single (.pellet hpellet)), ?_⟩
    obtain ⟨source', -, -, rfl⟩ := spawnPellet_inv hpellet
    rfl

/-- A fresh creature arrives in one change: the place of its body and its program were drawn before. -/
theorem spawnFresh_born (w : World E) :
    Outcome.Ensures w.spawnFresh fun (e, w') => ∃ seed c w₁, w.Arrives seed c [e] ∧
      Quiet { w with enclosure := seed.bodied w.enclosure } w₁ ∧ w' = w₁.spawnCreature c := by
  refine (w.spawnFresh_newborn (P := fun _ => True) fun _ => .any).mono ?_
  rintro ⟨e, w'⟩ ⟨place, program, c, source, hprogram, hnewborn, -, rfl, rfl⟩
  have harrives := Arrives.fresh (w := w) hprogram hnewborn
  exact ⟨_, _, _, harrives, (Quiet.memory _ source w.similarity).trans
    (.moved (Physics.setMass_sameBodies c w.config.world.freshSpawnMass _)), rfl⟩

/-- So its birth is a course of one change. -/
theorem spawnFresh_ensures (w : World E) :
    Outcome.Ensures w.spawnFresh fun (e, w') => w.Course [e] w' := by
  refine w.spawnFresh_born.mono ?_
  rintro ⟨e, w'⟩ ⟨seed, c, w₁, harrives, hquiet, rfl⟩
  exact .single (.born harrives hquiet)

/-- The births are told in the order in which they happen. -/
theorem spawnMany_ensures : ∀ (n : Nat) (w : World E),
    Outcome.Ensures (w.spawnMany n) fun (es, w') => w.Course es w'
  | 0, _ => .pure .refl
  | n + 1, w => by
    unfold spawnMany
    refine .bind w.spawnFresh_ensures fun (e, w₁) hfirst => ?_
    refine .bind (spawnMany_ensures n w₁) fun (es, w₂) hothers => ?_
    exact .pure (hfirst.trans hothers)

/-- All that filling up tells of is births. -/
theorem spawnMany_census (n : Nat) (w : World E) :
    Outcome.Ensures (w.spawnMany n) fun (es, _) => ∀ e ∈ es, e.Census := by
  induction n generalizing w with
  | zero => exact .pure (by simp)
  | succ n ih =>
    unfold spawnMany
    refine .bind w.spawnFresh_born ?_
    rintro ⟨e, w₁⟩ ⟨seed, c, w₀, harrives, -, -⟩
    refine .bind (ih w₁) ?_
    rintro ⟨es, w₂⟩ hes
    exact .pure (List.forall_mem_cons.mpr ⟨harrives.census e List.mem_cons_self, hes⟩)

/-- Filling up is a course of births. -/
theorem refill_ensures (w : World E) : Outcome.Ensures w.refill fun (es, w') => w.Course es w' :=
  spawnMany_ensures _ w

/-! ## The whole tick -/

/-- After the turns nothing is told but births and an extinction. -/
theorem closing_census {ranks : List Rank} {stage : Stage E} {events : List Event} {w' : World E}
    (h : closing ranks stage = .ok (events, w')) :
    ∃ rest, events = stage.events ++ rest ∧ ∀ e ∈ rest, e.Census := by
  obtain ⟨⟨births, w₁⟩, hrefill, hpure⟩ := except_bind_inv h
  have hbirths := (spawnMany_census _ _).of_ok hrefill
  dsimp only at hpure
  split at hpure
  · cases hpure
    refine ⟨births ++ [.extinction w'.tick], List.append_assoc _ _ _, fun e he => ?_⟩
    -- births are told first, and the extinction last
    rcases List.mem_append.mp he with hbirth | hlast
    · exact hbirths e hbirth
    · rw [List.mem_singleton.mp hlast]
      trivial
  · cases hpure
    exact ⟨births, rfl, hbirths⟩

/-- A tick begins with what was pending, and with a pellet that may have appeared. -/
theorem opening_ensures (w : World E) :
    Outcome.Ensures w.opening fun start => w.tick + 1 < twoTo 64 ∧
      ∃ w', start = Stage.start w' w.pendingEvents ∧ w.counted.Course [] w' ∧
        w'.creatures = w.creatures := by
  unfold opening
  refine .bind (.ofFault fun _ hcount => countTick_inv hcount) ?_
  rintro w₁ ⟨hclock, rfl⟩
  refine .bind (.ofFault fun _ hfood => hfood) fun w₂ hfood => ?_
  obtain ⟨hfed, hcreatures⟩ := spawnFood_inv hfood
  exact .pure ⟨hclock, w₂, rfl, hfed, hcreatures⟩

/-- **A tick is a course of changes.** It is not refused. It reports what was pending, then the events of
the course, and an extinction in the end if the last creatures died in it. -/
theorem update_ensures (w : World E) :
    Outcome.Ensures w.update fun (events, w') =>
      w.tick + 1 < twoTo 64 ∧ ∃ es, w.counted.Course es w' ∧ events = w.pendingEvents ++ es ++
        if w.population ≠ 0 ∧ w'.population = 0 then [.extinction w'.tick] else [] := by
  rw [update_eq]
  refine .bind w.opening_ensures ?_
  rintro start ⟨hclock, w₂, rfl, hfed, hcreatures⟩
  refine .bind (Stage.turns_ensures _ _) fun stage hturns => ?_
  obtain ⟨es, hcourse, hevents⟩ := hturns.advances
  refine .bind (refill_ensures _) fun (births, w₃) hrefill => ?_
  -- food, turns and refilling, one after the other
  have hwhole : w.counted.Course (es ++ births) w₃ := hfed.trans (hcourse.trans hrefill)
  have hlogged : stage.events ++ births = w.pendingEvents ++ (es ++ births) := by
    rw [hevents, ← List.append_assoc]
    rfl
  -- whoever was alive before the tick is in view when the turns begin
  have hranks : (Stage.start w₂ w.pendingEvents).views.map (·.rank) ≠ [] ↔ w.population ≠ 0 := by
    rw [ne_eq, ne_eq, ← List.length_eq_zero_iff, List.length_map]
    show ¬ (w₂.creatures.entries.map _).length = 0 ↔ ¬ w.creatures.entries.length = 0
    rw [List.length_map, hcreatures]
  refine .ite (fun hlast => .pure ⟨hclock, _, hwhole, ?_⟩) fun hlast => .pure ⟨hclock, _, hwhole, ?_⟩
  · rw [if_pos ⟨hranks.mp hlast.1, hlast.2⟩, ← hlogged]
  · rw [if_neg fun h => hlast ⟨hranks.mpr h.1, h.2⟩, List.append_nil, ← hlogged]

/-- So it comes from the bare world by a course of changes. -/
theorem create_inv {config : Config} {enclosure : E} {entropy : BitVec 256} {w : World E}
    (h : create config enclosure entropy = .ok w) :
    config.Valid ∧ ∃ births w₁, (bare config enclosure entropy).Course births w₁ ∧
      w = { w₁ with pendingEvents := births } := by
  obtain ⟨hvalid, births, w₁, hrefill, hw⟩ := create_refill h
  exact ⟨hvalid, births, w₁, (refill_ensures _).of_ok hrefill, hw⟩

end World

end Vivarium
