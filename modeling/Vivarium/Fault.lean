/-!
# How a computation ends early

Two kinds of ending are told apart. A *refusal* is an answer of the domain: a gene list that is no
program, a configuration that is not accepted. A *fault* breaks the computation off: a draw from an
empty range, a remainder by zero, a counter past its width. Refusals have texts; faults have none.
-/

namespace Vivarium

/-- Why a computation broke off. -/
inductive Fault where
  /-- A uniform draw from a range that holds nothing. -/
  | emptyRange
  /-- A uniform draw from a range whose width is not a finite number. -/
  | unboundedRange
  /-- A chance that is no number between zero and one. -/
  | badChance
  /-- A remainder by an interval of zero ticks. -/
  | zeroInterval
  /-- A clamp between bounds that are out of order. -/
  | crossedBounds
  /-- A counter or a sum past the largest value of its width. -/
  | overflow
  /-- A draw repeated so often that it was given up. -/
  | exhausted
deriving DecidableEq, Repr

/-- Why a list of genes is not a program. -/
inductive ProgramError where
  | length (len : Nat)
  | unknownGene (index : Nat)
deriving DecidableEq, Repr

end Vivarium
