import Vivarium.Proofs.Creature.Turns
import Vivarium.Proofs.Turn.Nearest
import Vivarium.Proofs.World.Lasers

/-!
# What a turn leaves alone

While a creature acts, the others are seen through views that were captured before. That is sound because its
turn stays within narrow bounds: of itself it changes where its program stands, its delay, its heading and,
by moving, its hunger; of everything else it changes only the force on its own body. An attack is no more
than a request, and names somebody whom the creature could see at the nearest.

The bounds are stated for one instruction (`Effect.Confined`) and, with the states in which genes were
executed, for a turn as far as it has gone (`Turn.Confined`). A gene keeps them, so any number of genes does.

Main result: `turn_effects_are_confined`.
-/

namespace Vivarium

/-- The gene that the creature executes next. -/
def Creature.nextGene (c : Creature) : Gene := c.program.gene (c.program.wrap c.cursor)

/-- The creature while it executes that gene, with its time cost as delay. -/
def Creature.atGene (c : Creature) : Creature :=
  { c with cursor := c.program.wrap c.cursor, moveDelay := c.nextGene.timeCost }

theorem Creature.same_atGene (c : Creature) : c.Same c.atGene := ⟨rfl, rfl, rfl, rfl, rfl, rfl, rfl⟩

namespace Instruction

/-- Hunger after an instruction. Only a move costs any. -/
def hungerAfter (hunger : Float) : Instruction → Float
  | .move power => clampTo 0.0 1.0 (hunger + -power * Creature.moveCost)
  | _           => hunger

/-- The force with which an instruction pushes the body of a creature of some heading. Only a move pushes. -/
def force? (direction : Float) : Instruction → Option Vec
  | .move power => some (Vec.ofAngle direction power)
  | _           => none

end Instruction

/-! ## One instruction -/

/-- The bounds of an instruction of a creature at a position in its surroundings. -/
structure Effect.Confined (position : Vec) (s : Surroundings) (c : Creature) (i : Instruction)
    (effect : Effect) : Prop where
  frame   : ∃ direction pendingJump moveDelay, effect.creature =
    { c with direction, pendingJump, moveDelay, hunger := i.hungerAfter c.hunger }
  push_eq : effect.push = i.force? c.direction
  attack  : ∀ target targetId, effect.request = some (.attack target targetId) →
    ∃ v : CreatureView, v.rank = target ∧ v.id = targetId ∧
      IsNearest position (·.position) (s.Exposes c position) s.creatures v

/-- An instruction that neither moves nor asks for anything sets the heading, the jump and the delay. -/
theorem Effect.Confined.still {position : Vec} {s : Surroundings} {c d : Creature} {i : Instruction}
    (hhunger : i.hungerAfter c.hunger = c.hunger) (hforce : i.force? c.direction = none)
    (hd : ∃ direction pendingJump moveDelay, d = { c with direction, pendingJump, moveDelay }) :
    ({ creature := d } : Effect).Confined position s c i := by
  obtain ⟨direction, pendingJump, moveDelay, rfl⟩ := hd
  refine ⟨⟨direction, pendingJump, moveDelay, ?_⟩, hforce.symm, nofun⟩
  rw [hhunger]

theorem Creature.execute_confined (c : Creature) (position : Vec) (s : Surroundings) (i : Instruction) :
    (c.execute position s i).Ensures (Effect.Confined position s c i) := by
  unfold execute
  -- each instruction writes to its own field of the creature, and only an attack names somebody
  cases i with
  | move power =>
    exact .pure ⟨⟨c.direction, c.pendingJump, c.moveDelay, rfl⟩, rfl, nofun⟩
  | turn facing =>
    exact .bind .any fun direction _ =>
      .pure (.still rfl rfl ⟨direction, c.pendingJump, c.moveDelay, rfl⟩)
  | jump condition goal =>
    refine .ite (fun _ => .pure (.still rfl rfl ?_)) fun _ => .pure (.still rfl rfl ?_)
    · exact ⟨c.direction, some goal, c.moveDelay, rfl⟩
    · exact ⟨c.direction, c.pendingJump, c.moveDelay, rfl⟩
  | attack =>
    dsimp only
    split
    · rename_i v hnearest
      refine .pure ⟨⟨c.direction, c.pendingJump, c.moveDelay, rfl⟩, rfl, fun target targetId hrequest => ?_⟩
      cases hrequest
      exact ⟨v, rfl, rfl, nearestCreature_isNearest hnearest⟩
    · exact .pure (.still rfl rfl ⟨c.direction, c.pendingJump, s.config.combat.missDelay, rfl⟩)
  | replicate =>
    refine .ite (fun _ => .pure ?_) fun _ => .pure ?_
    · exact ⟨⟨c.direction, c.pendingJump, c.moveDelay, rfl⟩, rfl, fun _ _ hrequest => by cases hrequest⟩
    · exact .still rfl rfl ⟨c.direction, c.pendingJump, c.moveDelay, rfl⟩
  | wait => exact .pure (.still rfl rfl ⟨c.direction, c.pendingJump, c.moveDelay, rfl⟩)

/-! ## Any number of genes -/

namespace Turn

/-- The bounds of a turn of a creature `c` that has executed the genes at which the creature stood in the
states `ds`. -/
structure Confined (position : Vec) (s : Surroundings) (c : Creature) (ds : List Creature) (t : Turn) :
    Prop where
  frame     : ∃ cursor pendingJump moveDelay direction, t.creature =
    { c with
      cursor, pendingJump, moveDelay, direction
      hunger := ds.foldl (fun hunger d => d.nextGene.instruction.hungerAfter hunger) c.hunger }
  pushes_eq : t.pushes = ds.filterMap fun d => d.nextGene.instruction.force? d.direction
  attacks   : ∀ target targetId, .attack target targetId ∈ t.requests →
    ∃ v : CreatureView, v.rank = target ∧ v.id = targetId ∧
      IsNearest position (·.position) (s.Exposes c position) s.creatures v
  ops_eq    : t.ops = ds.length

variable {position : Vec} {s : Surroundings} {c : Creature} {ds es : List Creature} {t t' : Turn}
  {source source' : Source} {n : Nat}

/-- What is bounded so is still the same creature, with the mass and the laser it had. -/
theorem Confined.same (h : t.Confined position s c ds) :
    c.Same t.creature ∧ t.creature.mass = c.mass ∧ t.creature.laser = c.laser := by
  obtain ⟨cursor, pendingJump, moveDelay, direction, hcreature⟩ := h.frame
  rw [hcreature]
  exact ⟨⟨rfl, rfl, rfl, rfl, rfl, rfl, rfl⟩, rfl, rfl⟩

theorem Confined.start (position : Vec) (s : Surroundings) (c : Creature) :
    ({ creature := c } : Turn).Confined position s c [] :=
  ⟨⟨c.cursor, c.pendingJump, c.moveDelay, c.direction, rfl⟩, rfl, nofun, rfl⟩

/-- One more gene keeps a turn within its bounds. -/
theorem Confined.executeGene (h : t.Confined position s c ds) :
    (executeGene position s t).Ensures (·.Confined position s c (ds ++ [t.creature])) := by
  unfold Turn.executeGene
  refine .bind (t.creature.atGene.execute_confined position s t.creature.nextGene.instruction)
    fun effect heffect => ?_
  refine .bind .any fun next _ => .pure ⟨?_, ?_, fun target targetId hmem => ?_, ?_⟩
  -- what was free to change before is set anew, and hunger goes on from where it was
  · obtain ⟨cursor, pendingJump, moveDelay, direction, hcreature⟩ := h.frame
    obtain ⟨direction', pendingJump', moveDelay', heffect⟩ := heffect.frame
    refine ⟨next, none, moveDelay', direction', ?_⟩
    rw [heffect, List.foldl_append, List.foldl_cons, List.foldl_nil]
    change { t.creature with
      cursor := next, pendingJump := none, moveDelay := moveDelay', direction := direction'
      hunger := t.creature.nextGene.instruction.hungerAfter t.creature.hunger } = _
    generalize t.creature.nextGene.instruction = i
    rw [hcreature]
  · rw [h.pushes_eq, heffect.push_eq, List.filterMap_append, List.filterMap_cons, List.filterMap_nil]
    change _ ++ (t.creature.nextGene.instruction.force? t.creature.direction).toList = _
    cases t.creature.nextGene.instruction.force? t.creature.direction <;> rfl
  · rcases List.mem_append.mp hmem with hearlier | hadded
    · exact h.attacks target targetId hearlier
    · obtain ⟨v, hrank, hid, hnearest⟩ := heffect.attack target targetId (Option.mem_toList.mp hadded)
      -- the creature that attacks is the one that began the turn
      have hsame := h.same.1.trans t.creature.same_atGene
      exact ⟨v, hrank, hid, isNearest_exposes_congr hsame.symm hnearest⟩
  · rw [h.ops_eq, List.length_append]
    rfl

/-- Genes have been executed one after the other, at which the creature stood in the states `ds`, each of
them while no delay was left. -/
inductive Runs (position : Vec) (s : Surroundings) : List Creature → Turn → Source → Turn → Source → Prop
  | done {t : Turn} {source : Source} : Runs position s [] t source t source
  | gene {ds : List Creature} {t t₁ t₂ : Turn} {source source₁ source₂ : Source}
      (hready : t.creature.moveDelay = 0)
      (hgene : (executeGene position s t).run source = .ok (t₁, source₁))
      (hrest : Runs position s ds t₁ source₁ t₂ source₂) :
      Runs position s (t.creature :: ds) t source t₂ source₂

theorem Executes.runs (h : Executes position s n t source t' source') :
    ∃ ds, Runs position s ds t source t' source' := by
  induction h with
  | done => exact ⟨[], .done⟩
  | gene hready hgene _ ih =>
    obtain ⟨ds, hruns⟩ := ih
    exact ⟨_, .gene hready hgene hruns⟩

/-- However many genes are executed, the turn stays within its bounds. -/
theorem Runs.confined (h : Runs position s ds t source t' source') (ht : t.Confined position s c es) :
    t'.Confined position s c (es ++ ds) := by
  induction h generalizing es with
  | done =>
    rw [List.append_nil]
    exact ht
  | gene _ hgene _ ih =>
    rw [List.append_cons]
    exact ih (ht.executeGene _ _ _ hgene)

/-- The turn of a creature that executes the genes at which it stands in the states `ds`, none of them if it
has to wait. -/
inductive Takes (position : Vec) (s : Surroundings) (c : Creature) (source : Source) :
    List Creature → Turn → Source → Prop
  | waits (hdelay : 0 < c.moveDelay) :
      Takes position s c source [] { creature := { c with moveDelay := c.moveDelay - 1 } } source
  | runs {ds : List Creature} {t : Turn} {source' : Source} (hready : c.moveDelay = 0)
      (h : Runs position s ds { creature := c } source t source') : Takes position s c source ds t source'

theorem Takes.confined (h : Takes position s c source ds t source') : t.Confined position s c ds := by
  cases h with
  | waits => exact ⟨⟨c.cursor, c.pendingJump, c.moveDelay - 1, c.direction, rfl⟩, rfl, nofun, rfl⟩
  | runs _ hruns => exact hruns.confined (.start position s c)

end Turn

theorem Creature.takeTurn_takes {c : Creature} {position : Vec} {s : Surroundings} {source source' : Source}
    {t : Turn} (hrun : (c.takeTurn position s).run source = .ok (t, source')) :
    ∃ ds, Turn.Takes position s c source ds t source' := by
  -- a creature that is ready runs its genes, and any other waits
  by_cases hready : c.moveDelay = 0
  · rw [takeTurn_of_ready hready] at hrun
    obtain ⟨n, hexecutes, -, -⟩ := Turn.executeGenes_executes position s _ _ source hrun
    obtain ⟨ds, hruns⟩ := hexecutes.runs
    exact ⟨ds, .runs hready hruns⟩
  · rw [takeTurn_of_delay (Nat.pos_of_ne_zero hready)] at hrun
    cases hrun
    exact ⟨[], .waits (Nat.pos_of_ne_zero hready)⟩

/-! ## The turn in its world -/

/-- **The effects of a turn are confined**, whatever creature takes it, wherever it is, whatever it senses and
draws, and however many genes it executes. Of the creature nothing changes but the cursor, the pending jump,
the delay, the heading and, by the moves that it executed, hunger. Its own body is pushed once for each of
these moves, and that is all that is asked of the engine. Whoever it asks to attack is in view, another
creature, no kin and in range, and the nearest of those, the first of several equally near. In a world, the
turn draws on the world's source and may fill its memo, and everything else is left as it is. It may only be
given up, and then somewhere in the source all words are refused that a position could be made of. -/
theorem turn_effects_are_confined {E : Type} [Physics E] (c : Creature) (position : Vec) (s : Surroundings)
    (source : Source) :
    ((∃ t k ds, (c.takeTurn position s).run source = .ok (t, source.after k) ∧
        Turn.Takes position s c source ds t (source.after k) ∧ t.Confined position s c ds) ∨
      (c.takeTurn position s).run source = .error .exhausted ∧
        ∃ k, (source.after k).Barren c.program.length) ∧
    ∀ (stage : Stage E) (rank : Rank), stage.world.creatures.get? rank = some c →
      stage.world.placeOf c.body = position → (stage.surroundings c).1 = s → stage.world.source = source →
      ∃ similarity, stage.runGenes rank = (do
        let (t, source) ← (c.takeTurn position s).run source
        return (t.requests, { stage with world := { stage.world with
          creatures := stage.world.creatures.modify rank fun _ => t.creature
          enclosure := t.pushes.foldl (fun e force => Physics.push e c.body force) stage.world.enclosure
          source, similarity } })) := by
  constructor
  · refine (c.takeTurn_settles position s source).imp_left ?_
    rintro ⟨t, k, hrun⟩
    obtain ⟨ds, htakes⟩ := Creature.takeTurn_takes hrun
    exact ⟨t, k, ds, hrun, htakes, htakes.confined⟩
  · rintro stage rank hc rfl rfl rfl
    exact Stage.runGenes_eq hc

/-- A program that moves, attacks in the same turn and then waits. -/
def Program.raiding : Program where
  genes     := ⟨default, 0, 0, .move 0.5⟩ :: ⟨default, 13, 2, .attack⟩ ::
    List.replicate 13 ⟨default, Instruction.wait.catalogIndex, 1, .wait⟩
  isProgram := { shortest_le := by decide, le_longest := by decide, catalogued := by decide }

/-- A creature with such a program to whom nobody is kin, and two others at the same distance from it. -/
def raid : List Call :=
  [.insertCreature { program := .raiding, traits := { familyThreshold := 1.0 }
                     position := ⟨100.0, 100.0⟩, mass := 120.0 },
    .insertCreature { program := .idle, position := ⟨130.0, 140.0⟩, mass := 120.0 },
    .insertCreature { program := .idle, position := ⟨130.0, 60.0⟩, mass := 120.0 }]

/-- It moves once and asks to attack the first of the two. -/
theorem turn_effects_are_confined_raid :
    ∃ h c victim t ds similarity,
      History.run .deserted (Enclosure.empty 1280.0 720.0) 0 raid = .ok h ∧
      h.world.creatures.get? ⟨1⟩ = some c ∧ h.world.creatures.get? ⟨2⟩ = some victim ∧
      (c.takeTurn (h.world.placeOf c.body) ((Stage.start h.world []).surroundings c).1).run h.world.source =
        .ok (t, h.world.source) ∧
      t.Confined (h.world.placeOf c.body) ((Stage.start h.world []).surroundings c).1 c ds ∧
      ds.length = 2 ∧ t.pushes.length = 1 ∧ t.requests = [.attack ⟨2⟩ victim.id] ∧
      (Stage.start h.world []).runGenes ⟨1⟩ = .ok (t.requests, { Stage.start h.world [] with
        world := { h.world with
          creatures := h.world.creatures.modify ⟨1⟩ fun _ => t.creature
          enclosure := t.pushes.foldl (fun e force => e.push c.body force) h.world.enclosure
          similarity } }) := by
  -- the turn of the first creature is computed, and what it is confined to is taken from the theorem
  have hcheck : (History.run .deserted (Enclosure.empty 1280.0 720.0) 0 raid).toOption.any (fun h =>
      (h.world.creatures.get? ⟨1⟩).any fun c => (h.world.creatures.get? ⟨2⟩).any fun victim =>
        ((c.takeTurn (h.world.placeOf c.body) ((Stage.start h.world []).surroundings c).1).run
          h.world.source).toOption.any fun (t, source) =>
            decide (source = h.world.source ∧ t.ops = 2 ∧ t.pushes.length = 1 ∧
              t.requests = [.attack ⟨2⟩ victim.id])) = true := by
    decide +kernel
  obtain ⟨h, hrun, hcheck⟩ := except_any_inv hcheck
  obtain ⟨c, hc, hcheck⟩ := (Option.any_eq_true _ _).mp hcheck
  obtain ⟨victim, hvictim, hcheck⟩ := (Option.any_eq_true _ _).mp hcheck
  obtain ⟨⟨t, source⟩, hturn, hcheck⟩ := except_any_inv hcheck
  obtain ⟨rfl, hops, hpushes, hrequests⟩ := of_decide_eq_true hcheck
  obtain ⟨hbounds, hworld⟩ := turn_effects_are_confined (E := Enclosure) c (h.world.placeOf c.body)
    ((Stage.start h.world []).surroundings c).1 h.world.source
  obtain ⟨similarity, hgenes⟩ := hworld (Stage.start h.world []) ⟨1⟩ hc rfl rfl rfl
  rcases hbounds with ⟨t', k, ds, hturn', -, hconfined⟩ | ⟨hgiven, -⟩
  · obtain ⟨rfl, -⟩ := Prod.mk.inj (Except.ok.inj (hturn.symm.trans hturn'))
    rw [hturn] at hgenes
    exact ⟨h, c, victim, t, ds, similarity, hrun, hc, hvictim, hturn, hconfined,
      hconfined.ops_eq.symm.trans hops, hpushes, hrequests, hgenes⟩
  · cases hturn.symm.trans hgiven

end Vivarium
