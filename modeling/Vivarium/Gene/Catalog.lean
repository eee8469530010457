import Vivarium.Geometry
import Vivarium.Refusal
import Vivarium.Random.Draw
import Vivarium.Gene.Basic

/-!
# The gene catalog

Sixteen rules, one per kind of instruction, in the order of `Instruction.catalogIndex`. A rule says how
long the gene keeps its creature busy and whether a creature without a parent may have it in its first
program. A gene is built from a rule by drawing the constants of its instruction, then its identity.
-/

namespace Vivarium

/-- One entry of the catalog. -/
structure Rule where
  index           : Nat
  name            : String
  timeCost        : Nat
  firstGeneration : Bool
deriving DecidableEq, Repr

/-- A drawing computation that the domain may refuse; words drawn before a refusal stay drawn. -/
abbrev Build := ExceptT Refusal Draw

namespace Catalog

/-- The catalog. -/
def rules : List Rule :=
  [ ⟨ 0, "move",                                      100, true⟩,
    ⟨ 1, "change direction to new random",              5, true⟩,
    ⟨ 2, "change direction to same random",             5, true⟩,
    ⟨ 3, "change direction to food in sight",          50, true⟩,
    ⟨ 4, "change direction to family in sight",        10, false⟩,
    ⟨ 5, "change direction away from family in sight", 10, false⟩,
    ⟨ 6, "change direction to enemy in sight",         10, false⟩,
    ⟨ 7, "change direction away from enemy in sight",  10, false⟩,
    ⟨ 8, "jump if family in sight",                     5, false⟩,
    ⟨ 9, "jump if enemy in sight",                      5, false⟩,
    ⟨10, "jump if food in sight",                       5, true⟩,
    ⟨11, "jump if hungry",                              5, false⟩,
    ⟨12, "jump if large",                               5, false⟩,
    ⟨13, "attack nearest",                             50, true⟩,
    ⟨14, "replicate",                                   5, true⟩,
    ⟨15, "wait",                                      100, false⟩ ]

/-- The rule at an index. -/
def rule? (index : Nat) : Except Refusal Rule :=
  match rules[index]? with
  | some rule => .ok rule
  | none      => .error (.unknownGene index)

/-- The indices that first programs are drawn from. -/
def firstGeneration : List Nat := (rules.filter (·.firstGeneration)).map (·.index)

/-! ## Drawing genes -/

/-- The least push of a move. -/
def minPower : Float := 0.0005

/-- The bound below which the push of a move stays. -/
def maxPower : Float := 0.005

/-- The instruction at `index` with constants drawn for a program of `programLength` genes. A jump leads
anywhere in the program; of an empty one, to its start. -/
def drawInstruction (index programLength : Nat) : Build Instruction := do
  let target : Draw Nat := Draw.position (max programLength 1)
  match index with
  | 0  => return .move (← Draw.real minPower maxPower)
  | 1  => return .turn .random
  | 2  => return .turn (.fixed (← Draw.real 0.0 fullTurn))
  | 3  => return .turn .toFood
  | 4  => return .turn (.toward .kin)
  | 5  => return .turn (.awayFrom .kin)
  | 6  => return .turn (.toward .stranger)
  | 7  => return .turn (.awayFrom .stranger)
  | 8  => return .jump (.near .kin) (← target)
  | 9  => return .jump (.near .stranger) (← target)
  | 10 => return .jump .nearFood (← target)
  | 11 =>
    let threshold ← Draw.fraction
    return .jump (.hungry threshold) (← target)
  | 12 =>
    let threshold ← Draw.shortNumber 100 500
    return .jump (.large (Float.ofNat threshold)) (← target)
  | 13 => return .attack
  | 14 => return .replicate
  | 15 => return .wait
  | i  => throw (.unknownGene i)

/-- A gene of the kind at `index`. -/
def drawGene (index programLength : Nat) : Build Gene := do
  let rule ← (rule? index : Except Refusal Rule)
  let instruction ← drawInstruction index programLength
  let id ← Draw.ident
  return { id, index, timeCost := rule.timeCost, instruction }

/-- A gene of a kind drawn from the whole catalog, or only from the first generation's part of it. -/
def drawAnyGene (first : Bool) (programLength : Nat) : Build Gene := do
  let indices := if first then firstGeneration else List.range catalogLength
  let i ← Draw.position indices.length
  drawGene (indices.getD i 0) programLength

end Catalog

end Vivarium
