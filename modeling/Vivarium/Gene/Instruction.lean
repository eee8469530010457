/-!
# Instructions

What one gene makes its creature do, together with the constants remembered when the gene was built.
There are sixteen kinds, numbered by `Instruction.catalogIndex` in the order of the gene catalog. Five of
them jump, and they alone have a target, an index into the program.
-/

namespace Vivarium

/-- The two groups into which a creature sorts all others. -/
inductive Company where
  | kin
  | stranger
deriving DecidableEq, Repr

/-- Where a turning creature faces. -/
inductive Facing where
  /-- A direction drawn anew each time. -/
  | random
  /-- The direction drawn when the gene was built. -/
  | fixed (direction : Float)
  | toFood
  | toward (who : Company)
  | awayFrom (who : Company)
deriving DecidableEq, Repr

/-- When a jump is taken. -/
inductive Condition where
  | near (who : Company)
  | nearFood
  /-- Hunger is below the threshold. -/
  | hungry (threshold : Float)
  /-- Mass is above the threshold. -/
  | large (threshold : Float)
deriving DecidableEq, Repr

inductive Instruction where
  /-- Push along the facing direction. -/
  | move (power : Float)
  | turn (facing : Facing)
  | jump (condition : Condition) (goal : Nat)
  | attack
  | replicate
  | wait
deriving DecidableEq, Repr, Inhabited

/-- The number of kinds, which is the length of the gene catalog. -/
def catalogLength : Nat := 16

namespace Instruction

/-- The position of the kind in the catalog. -/
def catalogIndex : Instruction → Nat
  | move _                     => 0
  | turn .random               => 1
  | turn (.fixed _)            => 2
  | turn .toFood               => 3
  | turn (.toward .kin)        => 4
  | turn (.awayFrom .kin)      => 5
  | turn (.toward .stranger)   => 6
  | turn (.awayFrom .stranger) => 7
  | jump (.near .kin) _        => 8
  | jump (.near .stranger) _   => 9
  | jump .nearFood _           => 10
  | jump (.hungry _) _         => 11
  | jump (.large _) _          => 12
  | attack                     => 13
  | replicate                  => 14
  | wait                       => 15

/-- Every instruction is one of those in the catalog. -/
theorem catalogIndex_lt (i : Instruction) : i.catalogIndex < catalogLength := by
  unfold catalogLength catalogIndex
  split <;> decide

/-- The index a jump leads to. -/
def target? : Instruction → Option Nat
  | jump _ goal => some goal
  | _         => none

/-- The instruction with its jump, if it is one, leading to `goal`. -/
def retarget (goal : Nat) : Instruction → Instruction
  | jump c _ => jump c goal
  | i        => i

@[simp] theorem catalogIndex_retarget (goal : Nat) (i : Instruction) :
    (i.retarget goal).catalogIndex = i.catalogIndex := by
  cases i with
  | jump c _ => cases c with
    | near who => cases who <;> rfl
    | _ => rfl
  | _ => rfl

@[simp] theorem target?_retarget (goal : Nat) (i : Instruction) :
    (i.retarget goal).target? = i.target?.map fun _ => goal := by
  cases i <;> rfl

end Instruction

end Vivarium
