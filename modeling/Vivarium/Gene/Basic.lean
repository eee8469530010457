import Vivarium.Ident
import Vivarium.Gene.Instruction

/-!
# Genes

A gene is an instruction with an identity of its own, by which jumps are repaired when the genes around
it move, and with the number of ticks that it keeps its creature busy. It also carries a catalog index;
a program only holds genes whose index is that of their instruction.
-/

namespace Vivarium

structure Gene where
  id          : Ident
  index       : Nat
  timeCost    : Nat
  instruction : Instruction
deriving DecidableEq, Repr, Inhabited

namespace Gene

/-- The letter of the gene in a genetic string, one of `A` to `P`. -/
def code (g : Gene) : Char := Char.ofNat (65 + g.index % catalogLength)

/-- The gene with its jump, if it has one, leading to `goal`. -/
def retarget (goal : Nat) (g : Gene) : Gene := { g with instruction := g.instruction.retarget goal }

end Gene

end Vivarium
