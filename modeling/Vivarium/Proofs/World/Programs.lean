import Vivarium.Proofs.World.History

/-!
# Every living creature can be executed

What evolution makes of executable programs is executable, and first programs are. So in every state that
a world reaches by ticks, each living creature has a program of a fitting length, whose genes agree with
the catalog and jump inside the program, and between the ticks the program stands at one of its genes. No
tick is ever refused.

Main result: `living_creatures_are_executable`.
-/

namespace Vivarium

/-- The creature has an executable program, which stands at one of its genes. -/
structure Creature.Runnable (c : Creature) : Prop extends Creature.Seated c where
  shortest_le : shortestProgram ≤ c.program.length
  le_longest  : c.program.length ≤ longestProgram
  executable  : c.program.Executable

/-- The bounds on its length are part of a program. -/
theorem Creature.Seated.runnable {c : Creature} (h : c.Seated) (hprogram : c.program.Executable) :
    c.Runnable :=
  ⟨h, c.program.isProgram.shortest_le, c.program.isProgram.le_longest, hprogram⟩

/-- A runnable creature stays so while it lives. -/
theorem Creature.Lives.runnable {c d : Creature} (hlives : c.Lives d) (h : c.Runnable) : d.Runnable := by
  refine (hlives.seated h.toSeated).runnable ?_
  rw [hlives.program_eq]
  exact h.executable

variable {E : Type}

namespace World

/-- All living creatures are runnable. -/
def Runnable (w : World E) : Prop := ∀ rank c, w.creatures.get? rank = some c → c.Runnable

namespace Runnable

variable {w w' : World E}

/-- Nothing but the table of creatures matters. -/
theorem of_creatures_eq (h : w.Runnable) (heq : w'.creatures = w.creatures) : w'.Runnable := by
  unfold Runnable
  rw [heq]
  exact h

theorem spawnCreature (h : w.Runnable) {c : Creature} (hc : c.Runnable) :
    (w.spawnCreature c).Runnable := by
  intro rank d hd
  change (w.creatures.insert _ c).get? rank = some d at hd
  rw [Table.get?_insert] at hd
  split at hd
  · cases hd
    exact hc
  · exact h rank d hd

variable [Physics E]

theorem removeCreature (h : w.Runnable) {rank : Rank} {c : Creature}
    (hremoved : w.removeCreature rank = some (c, w')) : w'.Runnable := by
  obtain ⟨-, rfl⟩ := removeCreature_inv hremoved
  intro rank' d hd
  change (w.creatures.erase rank).get? rank' = some d at hd
  rw [Table.get?_erase] at hd
  split at hd
  · cases hd
  · exact h rank' d hd

variable [LawfulPhysics E]

theorem quiet (h : w.Runnable) (hquiet : w.Quiet w') : w'.Runnable := by
  intro rank d hd
  cases hget : w.creatures.get? rank with
  | none =>
    -- nobody came, so nobody is there now who was not there before
    have hgone : rank ∉ w'.creatures.keys := hquiet.keys_eq ▸ Table.get?_eq_none_iff.mp hget
    exact absurd (Table.mem_keys_of_get? hd) hgone
  | some c =>
    obtain ⟨c', hc', hlives⟩ := hquiet.lives rank c hget
    rw [hc', Option.some.injEq] at hd
    exact hd ▸ hlives.runnable (h rank c hget)

/-- **Every change leaves all living creatures runnable**: they stay so, and so is whoever is born. -/
theorem change {es : List Event} (h : w.Runnable) (hchange : w.Change es w') : w'.Runnable := by
  -- only a birth brings a program into the world
  cases hchange with
  | quiet hquiet => exact h.quiet hquiet
  | struck _ _ hquiet => exact h.quiet hquiet
  | pellet hspawn =>
    obtain ⟨source, -, -, rfl⟩ := spawnPellet_inv hspawn
    exact h.of_creatures_eq rfl
  | eaten _ hremoved hquiet =>
    obtain ⟨-, rfl⟩ := removePellet_inv hremoved
    refine quiet ?_ hquiet
    exact h.of_creatures_eq rfl
  | died _ hremoved => exact h.removeCreature hremoved
  | born harrives hquiet =>
    have hborn := harrives.seated.runnable (harrives.executable fun rank d hd => (h rank d hd).executable)
    refine spawnCreature (quiet ?_ hquiet) hborn
    exact h.of_creatures_eq rfl

theorem course {es : List Event} (h : w.Runnable) (hcourse : w.Course es w') : w'.Runnable := by
  induction hcourse with
  | refl => exact h
  | step _ hchange ih => exact ih.change hchange

end Runnable

end World

variable [Physics E] [LawfulPhysics E]

/-- **Every program that evolution can produce is executable.** In every state that a world reaches from
its creation by ticks, each living creature is runnable, and whatever tick is called for next, it is not
refused. -/
theorem living_creatures_are_executable {config : Config} {enclosure : E} {entropy : BitVec 256}
    {ticks : List TickCall} {h : History E}
    (hrun : History.run config enclosure entropy (ticks.map .tick) = .ok h) :
    (∀ rank c, h.world.creatures.get? rank = some c → c.Runnable) ∧
      ∀ t cause, h.world.tickBy t ≠ .error (.refused cause) := by
  have hrunnable : h.world.Runnable := by
    -- nobody is there to begin with, and each tick is a course of changes
    refine History.run_induction hrun (P := fun h => h.world.Runnable) (fun w hw => ?_) ?_
    · obtain ⟨-, es, w₁, hcourse, rfl⟩ := World.create_inv hw
      have hbare : (World.bare config enclosure entropy).Runnable := fun _ _ hc => by cases hc
      exact (hbare.course hcourse).of_creatures_eq rfl
    · intro h c h' hc hbefore hcall
      obtain ⟨t, -, rfl⟩ := List.mem_map.mp hc
      obtain ⟨⟨events, w'⟩, htick, hpure⟩ := except_bind_inv hcall
      cases hpure
      obtain ⟨es, hcourse, -⟩ := (h.world.tickBy_ensures t).of_ok htick
      have hcounted : h.world.counted.Runnable := hbefore.of_creatures_eq rfl
      exact hcounted.course hcourse
  exact ⟨hrunnable, fun t => (h.world.tickBy_ensures t).not_refused⟩

/-- A world that is kept at one creature. -/
def Config.sparse : Config := { world := { seed := some 7, populationFloor := 1 } }

theorem living_creatures_are_executable_sparse :
    ∃ h, History.run .sparse (Enclosure.empty 1280.0 720.0) 0 ([.advance 16.0].map .tick) = .ok h ∧
      h.world.population = 1 ∧ (∀ rank c, h.world.creatures.get? rank = some c → c.Runnable) ∧
      ∀ t cause, h.world.tickBy t ≠ .error (.refused cause) := by
  have hcheck : (match
      History.run .sparse (Enclosure.empty 1280.0 720.0) 0 ([.advance 16.0].map .tick) with
      | .ok h => decide (h.world.population = 1)
      | .error _ => false) = true := by decide +kernel
  split at hcheck
  · rename_i h hrun
    obtain ⟨hrunnable, haccepted⟩ := living_creatures_are_executable hrun
    exact ⟨h, hrun, of_decide_eq_true hcheck, hrunnable, haccepted⟩
  · cases hcheck

end Vivarium
