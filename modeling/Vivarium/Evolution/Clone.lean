import Vivarium.Gene.Catalog
import Vivarium.Program.Basic

/-!
# Cloning a program

A clone has the parent's genes in the parent's order, each with a fresh identity. The constants of the
instructions are either inherited or drawn anew from the catalog.
-/

namespace Vivarium

/-- The gene under a fresh identity. -/
def Gene.copy (g : Gene) : Draw Gene := do return { g with id := ← Draw.ident }

/-- The genes of a clone. -/
def Program.cloneGenes (parent : Program) (reclone : Bool) : Build (List Gene) :=
  parent.genes.mapM fun g =>
    if reclone then Catalog.drawGene g.index parent.length else g.copy

end Vivarium
