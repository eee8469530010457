import Vivarium.Turn.Execute

/-!
# One turn

A creature that is still busy waits out one tick of its delay. Otherwise it executes genes from its
cursor on until one of them leaves a delay behind or the budget of the tick is spent. Each gene leaves
its time cost as delay; then the cursor moves on to the next gene, around the end, or to where the gene
jumps. A jump past the end of the program leads to a random gene.
-/

namespace Vivarium

/-- The index itself if it lies in the program, else the start. -/
def Program.wrap (p : Program) (i : Nat) : Fin p.length :=
  if h : i < p.length then ⟨i, h⟩ else ⟨0, p.length_pos⟩

/-- The gene at an index of the program. -/
def Program.gene (p : Program) (i : Fin p.length) : Gene := p.genes.get i

/-- A turn as far as it has gone. -/
structure Turn where
  creature : Creature
  /-- The forces on the creature's own body, in order. -/
  pushes   : List Vec := []
  /-- What the creature asked the world for, in order. -/
  requests : List Interaction := []
  /-- The number of genes executed. -/
  ops      : Nat := 0

namespace Turn

/-- Where the cursor goes from `i`: to the jump's target, if there is one. -/
def nextCursor (p : Program) (i : Nat) : Option Nat → Draw Nat
  | none    => return (i + 1) % p.length
  | some goal => if goal < p.length then return goal else Draw.position p.length

/-- Executes the gene at the cursor. -/
def executeGene (position : Vec) (s : Surroundings) (t : Turn) : Draw Turn := do
  let c := t.creature
  let cursor := c.program.wrap c.cursor
  let gene := c.program.gene cursor
  let effect ← { c with cursor, moveDelay := gene.timeCost }.execute position s gene.instruction
  let c := effect.creature
  let next ← nextCursor c.program c.cursor c.pendingJump
  return { creature := { c with cursor := next, pendingJump := none }
           pushes   := t.pushes ++ effect.push.toList
           requests := t.requests ++ effect.request.toList
           ops      := t.ops + 1 }

/-- Executes genes while there is no delay, at most `budget` of them. -/
def executeGenes (position : Vec) (s : Surroundings) : (budget : Nat) → Turn → Draw Turn
  | 0,          t => return t
  | budget + 1, t =>
    if t.creature.moveDelay = 0 then do
      executeGenes position s budget (← executeGene position s t)
    else
      return t

end Turn

/-- A creature's turn at a position in its surroundings. -/
def Creature.takeTurn (c : Creature) (position : Vec) (s : Surroundings) : Draw Turn :=
  if 0 < c.moveDelay then
    return { creature := { c with moveDelay := c.moveDelay - 1 } }
  else
    Turn.executeGenes position s s.config.evolution.maxOpsPerTick { creature := c }

end Vivarium
