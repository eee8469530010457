import Vivarium.Gene.Catalog
import Vivarium.Program.Basic

/-!
# Building programs

A program is built from the catalog gene by gene, from given indices or from random ones. The genes are
drawn before their number is judged, so an unknown index is named before a bad length.
-/

namespace Vivarium.Program

/-- The program of genes that have been drawn. -/
def ofDrawn (genes : List Gene) : Build Program :=
  match ofGenes genes with
  | .ok p        => return p
  | .error cause => throw (.program cause)

/-- A program of `len` genes of random kinds. -/
def random (first : Bool) (len : Nat) : Build Program := do
  ofDrawn (← (List.range len).mapM fun _ => Catalog.drawAnyGene first len)

/-- The program whose genes have the given catalog indices. -/
def ofIndices (indices : List Nat) : Build Program := do
  ofDrawn (← indices.mapM fun i => Catalog.drawGene i indices.length)

end Vivarium.Program
