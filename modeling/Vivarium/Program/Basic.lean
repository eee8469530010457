import Vivarium.Refusal
import Vivarium.Gene.Basic

/-!
# Programs

A program is a list of 15 to 60 genes, each with the catalog index of its instruction. Both conditions
are part of the type; `Program.ofGenes` decides them, and names the length before the first gene that
does not fit.
-/

namespace Vivarium

/-- The conditions under which a list of genes is a program. -/
structure IsProgram (genes : List Gene) : Prop where
  shortest_le : shortestProgram ≤ genes.length
  le_longest  : genes.length ≤ longestProgram
  catalogued  : ∀ g ∈ genes, g.index = g.instruction.catalogIndex

/-- A program. -/
structure Program where
  genes     : List Gene
  isProgram : IsProgram genes
deriving DecidableEq

namespace Program

/-- The number of genes drawn for a creature without a parent. -/
def defaultLength : Nat := 20

/-- The first gene whose index is not that of its instruction. -/
def misfit? (genes : List Gene) : Option Gene :=
  genes.find? fun g => g.index != g.instruction.catalogIndex

/-- The program of a list of genes. -/
def ofGenes (genes : List Gene) : Except ProgramError Program :=
  if hlen : shortestProgram ≤ genes.length ∧ genes.length ≤ longestProgram then
    match hfit : misfit? genes with
    | some g => .error (.unknownGene g.index)
    | none   => .ok
      { genes
        isProgram :=
          { shortest_le := hlen.1
            le_longest  := hlen.2
            catalogued  := fun g hg => by
              have := List.find?_eq_none.mp hfit g hg
              simpa using this } }
  else
    .error (.length genes.length)

/-- The number of genes. -/
def length (p : Program) : Nat := p.genes.length

/-- The gene at an index. -/
def get? (p : Program) (i : Nat) : Option Gene := p.genes[i]?

/-- Whether the program has no genes, which none has. -/
def isEmpty (p : Program) : Bool := p.genes.isEmpty

/-- The letters of the genes in order. -/
def geneticString (p : Program) : String := String.ofList (p.genes.map Gene.code)

/-- A program has a first gene. -/
theorem length_pos (p : Program) : 0 < p.length :=
  Nat.lt_of_lt_of_le (by decide) p.isProgram.shortest_le

end Program

end Vivarium
