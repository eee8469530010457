import Vivarium.Datum.Basic
import Vivarium.Program.Basic

/-!
# Instructions, genes and programs as data

An instruction without constants is the text of its name; one with constants is a record of one entry,
from the name to the constants. A list of genes is read as a program only if it is one.
-/

namespace Vivarium

namespace Instruction

/-- The data of an instruction. -/
def toDatum : Instruction → Datum
  | move power                 => .record [("Move", .record [("power", .ofFloat power)])]
  | turn .random               => .text "TurnRandom"
  | turn (.fixed direction)    => .record [("TurnFixed", .record [("direction", .ofFloat direction)])]
  | turn .toFood               => .text "TurnToFood"
  | turn (.toward .kin)        => .text "TurnToKin"
  | turn (.awayFrom .kin)      => .text "TurnFromKin"
  | turn (.toward .stranger)   => .text "TurnToStranger"
  | turn (.awayFrom .stranger) => .text "TurnFromStranger"
  | jump (.near .kin) goal     => .record [("JumpIfKin", .record [("to", .ofNat goal)])]
  | jump (.near .stranger) goal => .record [("JumpIfStranger", .record [("to", .ofNat goal)])]
  | jump .nearFood goal        => .record [("JumpIfFood", .record [("to", .ofNat goal)])]
  | jump (.hungry threshold) goal =>
    .record [("JumpIfHungry", .record [("threshold", .ofFloat threshold), ("to", .ofNat goal)])]
  | jump (.large threshold) goal =>
    .record [("JumpIfLarge", .record [("threshold", .ofFloat threshold), ("to", .ofNat goal)])]
  | attack                     => .text "Attack"
  | replicate                  => .text "Replicate"
  | wait                       => .text "Wait"

/-- The instruction without constants of a name. -/
def ofName? : String → Option Instruction
  | "TurnRandom"       => some (turn .random)
  | "TurnToFood"       => some (turn .toFood)
  | "TurnToKin"        => some (turn (.toward .kin))
  | "TurnFromKin"      => some (turn (.awayFrom .kin))
  | "TurnToStranger"   => some (turn (.toward .stranger))
  | "TurnFromStranger" => some (turn (.awayFrom .stranger))
  | "Attack"           => some attack
  | "Replicate"        => some replicate
  | "Wait"             => some wait
  | _                  => none

/-- The instruction with constants of a name. -/
def ofConstants (name : String) (constants : Parts) : Decoded Instruction :=
  let goal := constants.part "to" (Datum.toNat 64)
  let threshold := constants.part "threshold" Datum.toFloat
  match name with
  | "Move"           => return .move (← constants.part "power" Datum.toFloat)
  | "TurnFixed"      => return .turn (.fixed (← constants.part "direction" Datum.toFloat))
  | "JumpIfKin"      => return .jump (.near .kin) (← goal)
  | "JumpIfStranger" => return .jump (.near .stranger) (← goal)
  | "JumpIfFood"     => return .jump .nearFood (← goal)
  | "JumpIfHungry"   => return .jump (.hungry (← threshold)) (← goal)
  | "JumpIfLarge"    => return .jump (.large (← threshold)) (← goal)
  | _                => throw .malformed

/-- Reads an instruction. One without constants may also be a record from its name to null. -/
def ofDatum : Datum → Decoded Instruction
  -- an instruction without constants is written as its name, and read as a record of its name as well
  | .text name                      => match ofName? name with
    | some i => return i
    | none   => throw .malformed
  | .record [(name, .null)]         => match ofName? name with
    | some i => return i
    | none   => throw .malformed
  | .record [(name, .record fields)] => ofConstants name ⟨fields, false⟩
  | _                               => throw .malformed

end Instruction

namespace Gene

/-- The data of a gene. -/
def toDatum (g : Gene) : Datum :=
  .record
    [ ("id",          .ofIdent g.id),
      ("index",       .ofNat g.index),
      ("time_cost",   .ofNat g.timeCost),
      ("instruction", g.instruction.toDatum) ]

/-- Reads a gene. -/
def ofDatum (d : Datum) : Decoded Gene := do
  let parts ← Parts.of ["id", "index", "time_cost", "instruction"] false d
  return { id          := ← parts.part "id" Datum.toIdent
           index       := ← parts.part "index" (Datum.toNat 64)
           timeCost    := ← parts.part "time_cost" (Datum.toNat 32)
           instruction := ← parts.part "instruction" Instruction.ofDatum }

end Gene

namespace Program

/-- The data of a program. -/
def toDatum (p : Program) : Datum := .record [("genes", .ofList Gene.toDatum p.genes)]

/-- Reads a program. -/
def ofDatum (d : Datum) : Decoded Program := do
  let parts ← Parts.of ["genes"] false d
  match ofGenes (← parts.part "genes" (Datum.toList Gene.ofDatum)) with
  | .ok p        => return p
  | .error cause => throw (.program cause)

end Program

end Vivarium
