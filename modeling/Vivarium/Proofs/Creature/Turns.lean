import Vivarium.Proofs.Creature.Life
import Vivarium.Proofs.Random.Attempts

/-!
# What a turn does

A creature that has a delay left waits, and nothing else happens. Otherwise it executes genes, of which
each but the last has left no delay behind, until one does or the budget is spent. Whatever cursor and jump
the creature came with, afterwards the program stands at one of its genes and no jump is pending, because that
is how each single gene leaves it.

A turn draws headings, for which one word is enough, and positions in the program, for jumps past its end.
So a turn is given up only on a source that refuses all words a position could be made of.

Main result: `turn_ends_with_delay_or_budget`.
-/

namespace Vivarium

namespace Turn

/-- A number of genes have been executed one after the other, each of them while no delay was left. -/
inductive Executes (position : Vec) (s : Surroundings) : Nat → Turn → Source → Turn → Source → Prop
  | done {t : Turn} {source : Source} : Executes position s 0 t source t source
  | gene {n : Nat} {t t₁ t₂ : Turn} {source source₁ source₂ : Source}
      (hready : t.creature.moveDelay = 0)
      (hgene : (executeGene position s t).run source = .ok (t₁, source₁))
      (hrest : Executes position s n t₁ source₁ t₂ source₂) :
      Executes position s (n + 1) t source t₂ source₂

variable {position : Vec} {s : Surroundings} {t t' : Turn} {source source' : Source} {n : Nat}

/-! ## One gene -/

/-- A gene is counted, and leaves the program at a gene with no jump pending, wherever it stood before. -/
theorem executeGene_seated (position : Vec) (s : Surroundings) (t : Turn) :
    (executeGene position s t).Ensures fun t' => t'.ops = t.ops + 1 ∧ t'.creature.Seated := by
  unfold executeGene
  refine .bind .any fun effect _ => ?_
  exact .bind (Creature.nextCursor_ensures _ _ _) fun next hnext => .pure ⟨rfl, hnext, rfl⟩

/-- To face somewhere draws a heading at most. -/
theorem facing_settles (size : Nat) (c : Creature) (position : Vec) (s : Surroundings) (facing : Facing) :
    (c.facing position s facing).Settles size := by
  unfold Creature.facing
  -- only a random heading is drawn, and the others are computed
  cases facing with
  | random => exact Draw.heading_settles size
  | fixed direction => exact .pure
  | toFood =>
    dsimp only
    split <;> exact .pure
  | toward who =>
    dsimp only
    split <;> exact .pure
  | awayFrom who =>
    dsimp only
    split <;> exact .pure

/-- An instruction draws no more than that. -/
theorem execute_settles (size : Nat) (c : Creature) (position : Vec) (s : Surroundings) (i : Instruction) :
    (c.execute position s i).Settles size := by
  unfold Creature.execute
  -- a turn is the one instruction that may draw
  cases i with
  | move power => exact .pure
  | turn facing => exact .bind (facing_settles size c position s facing) .any fun _ _ => .pure
  | jump condition goal => exact .ite (fun _ => .pure) fun _ => .pure
  | attack =>
    dsimp only
    split <;> exact .pure
  | replicate => exact .ite (fun _ => .pure) fun _ => .pure
  | wait => exact .pure

/-- Only a jump past the end draws a position. -/
theorem nextCursor_settles (p : Program) (i : Nat) (goal : Option Nat) :
    (nextCursor p i goal).Settles p.length := by
  unfold nextCursor
  cases goal with
  | none => exact .pure
  | some goal => exact .ite (fun _ => .pure) fun _ => Draw.position_settles p.length_pos

/-- A gene may draw a place of the program when its jump leads outside. -/
theorem executeGene_settles (position : Vec) (s : Surroundings) (t : Turn) :
    (executeGene position s t).Settles t.creature.program.length := by
  unfold executeGene
  refine .bind (execute_settles _ _ position s _) (Creature.execute_ensures _ position s _)
    fun effect heffect => ?_
  -- an instruction does not change the program, in which the cursor moves on
  have hprogram : effect.creature.program = t.creature.program := heffect.program_eq
  dsimp only
  rw [← hprogram]
  exact .bind (nextCursor_settles _ _ _) .any fun _ _ => .pure

/-! ## Genes one after the other -/

namespace Executes

/-- As many genes are counted as are executed. -/
theorem ops_eq (h : Executes position s n t source t' source') : t'.ops = t.ops + n := by
  induction h with
  | done => rfl
  | @gene n t t₁ t₂ source source₁ source₂ hready hgene hrest ih =>
    have hcounted := (executeGene_seated position s t source t₁ source₁ hgene).1
    omega

/-- And they are part of the creature's life. -/
theorem lives (h : Executes position s n t source t' source') : t.creature.Lives t'.creature := by
  induction h with
  | done => exact .refl _
  | @gene n t t₁ t₂ source source₁ source₂ hready hgene hrest ih =>
    exact (Creature.executeGene_ensures position s t source t₁ source₁ hgene).trans ih

/-- After one gene at least, the program stands at a gene, and this stays so. -/
theorem seated (h : Executes position s n t source t' source') (hn : 0 < n) : t'.creature.Seated := by
  cases h with
  | done => exact absurd hn (Nat.lt_irrefl 0)
  | @gene n t t₁ t₂ source source₁ source₂ hready hgene hrest =>
    exact hrest.lives.seated (executeGene_seated position s t source t₁ source₁ hgene).2

end Executes

/-- **A run of genes** ends with a delay or when the budget is spent. -/
theorem executeGenes_executes (position : Vec) (s : Surroundings) :
    ∀ (budget : Nat) (t : Turn) (source : Source) {t' : Turn} {source' : Source},
      (executeGenes position s budget t).run source = .ok (t', source') →
        ∃ n, Executes position s n t source t' source' ∧ n ≤ budget ∧
          (0 < t'.creature.moveDelay ∨ n = budget)
  | 0, t, source, t', source', hrun => by
    cases hrun
    exact ⟨0, .done, Nat.le_refl 0, .inr rfl⟩
  | budget + 1, t, source, t', source', hrun => by
    unfold executeGenes at hrun
    -- a delay ends the turn, and otherwise one gene is executed on a smaller budget
    by_cases hready : t.creature.moveDelay = 0
    · rw [if_pos hready] at hrun
      obtain ⟨t₁, source₁, hgene, hrest⟩ := Draw.bind_inv hrun
      obtain ⟨n, hexecutes, hle, hend⟩ := executeGenes_executes position s budget t₁ source₁ hrest
      exact ⟨n + 1, .gene hready hgene hexecutes, Nat.succ_le_succ hle, hend.imp id (congrArg (· + 1))⟩
    · rw [if_neg hready] at hrun
      cases hrun
      exact ⟨0, .done, Nat.zero_le _, .inl (Nat.pos_of_ne_zero hready)⟩

/-- The induction is on the genes that may still be executed. -/
theorem executeGenes_settles (position : Vec) (s : Surroundings) :
    ∀ (budget : Nat) (t : Turn),
      (executeGenes position s budget t).Settles t.creature.program.length
  | 0, _ => .pure
  | budget + 1, t => by
    unfold executeGenes
    refine .ite (fun _ => ?_) fun _ => .pure
    refine .bind (executeGene_settles position s t) (Creature.executeGene_ensures position s t) fun t' ht' => ?_
    rw [← ht'.program_eq]
    exact executeGenes_settles position s budget t'

/-- How the turn of a creature ends that does not have to wait. -/
structure Completes (position : Vec) (s : Surroundings) (c : Creature) (source : Source) (t : Turn)
    (source' : Source) : Prop where
  ops_pos  : 0 < t.ops
  ops_le   : t.ops ≤ s.config.evolution.maxOpsPerTick
  executes : Executes position s t.ops { creature := c } source t source'
  same     : c.Same t.creature
  seated   : t.creature.Seated
  ended    : 0 < t.creature.moveDelay ∨ t.ops = s.config.evolution.maxOpsPerTick

end Turn

namespace Creature

variable {c : Creature} {position : Vec} {s : Surroundings} {source source' : Source} {t : Turn}

/-- A creature that waits does nothing else. -/
theorem takeTurn_of_delay (h : 0 < c.moveDelay) :
    c.takeTurn position s = pure
      { creature := { c with moveDelay := c.moveDelay - 1 }, pushes := [], requests := [], ops := 0 } := by
  unfold takeTurn
  rw [if_pos h]

theorem takeTurn_of_ready (h : c.moveDelay = 0) :
    c.takeTurn position s =
      Turn.executeGenes position s s.config.evolution.maxOpsPerTick { creature := c } := by
  unfold takeTurn
  rw [if_neg (by omega)]

/-- **A turn settles**: it returns, or all words are refused that a place of its program could be made of. -/
theorem takeTurn_settles (c : Creature) (position : Vec) (s : Surroundings) :
    (c.takeTurn position s).Settles c.program.length := by
  unfold takeTurn
  exact .ite (fun _ => .pure) fun _ => Turn.executeGenes_settles position s _ _

theorem takeTurn_completes (hbudget : 0 < s.config.evolution.maxOpsPerTick) (hready : c.moveDelay = 0)
    (hrun : (c.takeTurn position s).run source = .ok (t, source')) :
    t.Completes position s c source source' := by
  rw [takeTurn_of_ready hready] at hrun
  obtain ⟨n, hexecutes, hle, hend⟩ := Turn.executeGenes_executes position s _ _ source hrun
  have hops : t.ops = n := hexecutes.ops_eq.trans (Nat.zero_add n)
  -- without a single gene the creature would be ready still, and the budget spent
  have hpos : 0 < n := by
    by_contra hnone
    obtain rfl : n = 0 := by omega
    cases hexecutes
    have hdelay : ¬ 0 < c.moveDelay := by omega
    exact hend.elim hdelay fun hzero => by omega
  subst hops
  exact ⟨hpos, hle, hexecutes, hexecutes.lives.toSame, hexecutes.seated hpos, hend⟩

end Creature

/-- **A turn ends with a delay or when the budget is spent**, whatever program, cursor, pending jump and delay
the creature has and whatever it senses. With a delay it waits: one tick of the delay is over, and nothing is
drawn, pushed or requested. Otherwise it executes one gene at least and no more than the budget, each of them
while no delay is left; then it has a delay or has spent the budget, its program stands at a gene and no jump
is pending. It may only be given up, and then somewhere in the source all words are refused, of as many in
a row as the draw of a position is repeated. -/
theorem turn_ends_with_delay_or_budget (c : Creature) (position : Vec) (s : Surroundings)
    (hbudget : 0 < s.config.evolution.maxOpsPerTick) (source : Source) :
    (0 < c.moveDelay → (c.takeTurn position s).run source =
      .ok ({ creature := { c with moveDelay := c.moveDelay - 1 }, pushes := [], requests := [], ops := 0 },
        source)) ∧
    (c.moveDelay = 0 →
      (∃ t k, (c.takeTurn position s).run source = .ok (t, source.after k) ∧
        t.Completes position s c source (source.after k)) ∨
      (c.takeTurn position s).run source = .error .exhausted ∧
        ∃ k, (source.after k).Barren c.program.length) := by
  constructor
  · -- a delay is counted down, and no gene is executed
    intro hdelay
    rw [Creature.takeTurn_of_delay hdelay]
    rfl
  · intro hready
    refine (c.takeTurn_settles position s source).imp_left ?_
    rintro ⟨t, k, hrun⟩
    exact ⟨t, k, hrun, Creature.takeTurn_completes hbudget hready hrun⟩

/-- A creature whose genes do nothing and take no time. It stands past the end of its program, with a jump
pending. -/
def Creature.idle (moveDelay : Nat) : Creature :=
  { id          := default
    body        := default
    lineage     := {}
    traits      := {}
    program     :=
      { genes     := List.replicate 15 ⟨default, Instruction.wait.catalogIndex, 0, .wait⟩
        isProgram :=
          { shortest_le := by decide
            le_longest  := by decide
            catalogued  := by decide } }
    hue         := 0.0
    hunger      := 1.0
    mass        := 100.0
    direction   := 0.0
    cursor      := 99
    pendingJump := some 14
    moveDelay
    laser       := none
    birthTick   := 0 }

/-- A creature that idles spends the whole budget, or waits. -/
theorem turn_ends_with_delay_or_budget_idle :
    let s : Surroundings := { creatures := [], pellets := [], population := 1, config := {} }
    let source : Source := ⟨[], default⟩
    0 < s.config.evolution.maxOpsPerTick ∧
      (∃ t k, ((Creature.idle 0).takeTurn ⟨0.0, 0.0⟩ s).run source = .ok (t, source.after k) ∧
        t.Completes ⟨0.0, 0.0⟩ s (.idle 0) source (source.after k) ∧ t.ops = 50) ∧
      ((Creature.idle 3).takeTurn ⟨0.0, 0.0⟩ s).run source =
        .ok ({ creature := .idle 2, pushes := [], requests := [], ops := 0 }, source) := by
  intro s source
  have hbudget : 0 < s.config.evolution.maxOpsPerTick := by decide
  -- that the turn returns is computed, and what it returns is taken from the theorem
  have hreturns : (((Creature.idle 0).takeTurn ⟨0.0, 0.0⟩ s).run source).toOption.any
      (fun result => result.1.ops == 50) = true := by
    decide +kernel
  refine ⟨hbudget, ?_, (turn_ends_with_delay_or_budget (.idle 3) _ s hbudget source).1 (by decide)⟩
  obtain ⟨⟨t, rest⟩, hrun, hops⟩ := except_any_inv hreturns
  rcases (turn_ends_with_delay_or_budget (.idle 0) ⟨0.0, 0.0⟩ s hbudget source).2 rfl with
    ⟨t', k, hrun', hcompletes⟩ | ⟨hgiven, -⟩
  · cases hrun.symm.trans hrun'
    exact ⟨t, k, hrun, hcompletes, by simpa using hops⟩
  · cases hrun.symm.trans hgiven

end Vivarium
