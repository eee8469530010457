import Vivarium.Config.Basic
import Vivarium.Random.Draw
import Vivarium.Refusal
import Vivarium.Scalar.Power

/-!
# Mutation operators

Five operators change a child's program or traits. Each has a weight, and a program's length decides
which are eligible: a program at the maximum cannot grow, and one of at most 25 genes is not cut. One
operator is chosen among the eligible ones by a uniform draw below the sum of their weights.
-/

namespace Vivarium

inductive MutationOperator where
  | duplicateSegment
  | insertSegment
  | deleteSegment
  | mutateMemory
  | modifyTraits
deriving DecidableEq, Repr

namespace MutationOperator

/-- The operators in the order of their weights. -/
def table : List MutationOperator :=
  [duplicateSegment, insertSegment, deleteSegment, mutateMemory, modifyTraits]

/-- The name under which mutations are reported. -/
def name : MutationOperator → String
  | duplicateSegment => "duplicate gene segment"
  | insertSegment    => "random gene segment insertion"
  | deleteSegment    => "random gene segment deletion"
  | mutateMemory     => "random gene memory mutation"
  | modifyTraits     => "random trait modification"

/-- Whether the operator may run on a program of `len` genes. -/
def isEligible (len : Nat) : MutationOperator → Bool
  | duplicateSegment => len < longestProgram
  | insertSegment    => len < longestProgram
  | deleteSegment    => shortestProgram + 10 < len
  | mutateMemory     => true
  | modifyTraits     => true

/-- The eligible operators of positive weight, with their weights, in the order of the table. -/
def candidates (len : Nat) (weights : OperatorWeights) : List (MutationOperator × Nat) :=
  (table.zip weights.toList).filter fun (op, w) => 0 < w && op.isEligible len

/-- The sum of the candidates' weights. -/
def totalWeight : List (MutationOperator × Nat) → Nat
  | []             => 0
  | (_, w) :: rest => w + totalWeight rest

/-- The first candidate at which the running sum of weights exceeds `draw`. -/
def pick? (draw sum : Float) : List (MutationOperator × Nat) → Option MutationOperator
  | []             => none
  | (op, w) :: ops =>
    let sum := sum + Float.ofNat w
    if draw < sum then some op else pick? draw sum ops

/-- The operator for a program of `len` genes, if any is eligible. The sum of the weights has to fit
into 32 bits. -/
def select (len : Nat) (weights : OperatorWeights) : Draw (Option MutationOperator) := do
  let candidates := candidates len weights
  let total := totalWeight candidates
  if twoTo 32 ≤ total then throw .overflow
  else if total = 0 then return none
  else
    let draw ← Draw.real 0.0 (Float.ofNat total)
    return pick? draw 0.0 candidates

end MutationOperator

end Vivarium
