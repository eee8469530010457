import Vivarium.Datum.Basic
import Vivarium.World.Event

/-!
# Events as data

An event is a record whose entry `event` names its kind. It may also be written as a list, the kind
first and then the parts in their order.
-/

namespace Vivarium.Event

def toDatum : Event → Datum
  | birth id parentId generation tick => .record
    [ ("event", .text "Birth"), ("id", .ofIdent id), ("parent_id", .ofOption Datum.ofIdent parentId),
      ("gen", .ofNat generation), ("tick", .ofNat tick) ]
  | death id age tick => .record
    [ ("event", .text "Death"), ("id", .ofIdent id), ("age", .ofNat age), ("tick", .ofNat tick) ]
  | mutation id operator tick => .record
    [ ("event", .text "Mutation"), ("id", .ofIdent id), ("operator", .text operator),
      ("tick", .ofNat tick) ]
  | attack attacker target tick => .record
    [ ("event", .text "Attack"), ("attacker", .ofIdent attacker), ("target", .ofIdent target),
      ("tick", .ofNat tick) ]
  | foodEaten creature food tick => .record
    [ ("event", .text "FoodEaten"), ("creature", .ofIdent creature), ("food", .ofIdent food),
      ("tick", .ofNat tick) ]
  | extinction tick => .record [ ("event", .text "Extinction"), ("tick", .ofNat tick) ]

/-- Reads the parts of an event of a kind. -/
def ofParts (kind : String) (rest : Datum) : Decoded Event := do
  match kind with
  | "Birth" =>
    let parts ← Parts.of ["id", "parent_id", "gen", "tick"] false rest
    return .birth (← parts.part "id" Datum.toIdent) (← parts.optional "parent_id" Datum.toIdent)
      (← parts.part "gen" (Datum.toNat 32)) (← parts.part "tick" (Datum.toNat 64))
  | "Death" =>
    let parts ← Parts.of ["id", "age", "tick"] false rest
    return .death (← parts.part "id" Datum.toIdent) (← parts.part "age" (Datum.toNat 64))
      (← parts.part "tick" (Datum.toNat 64))
  | "Mutation" =>
    let parts ← Parts.of ["id", "operator", "tick"] false rest
    return .mutation (← parts.part "id" Datum.toIdent) (← parts.part "operator" Datum.toText)
      (← parts.part "tick" (Datum.toNat 64))
  | "Attack" =>
    let parts ← Parts.of ["attacker", "target", "tick"] false rest
    return .attack (← parts.part "attacker" Datum.toIdent) (← parts.part "target" Datum.toIdent)
      (← parts.part "tick" (Datum.toNat 64))
  | "FoodEaten" =>
    let parts ← Parts.of ["creature", "food", "tick"] false rest
    return .foodEaten (← parts.part "creature" Datum.toIdent) (← parts.part "food" Datum.toIdent)
      (← parts.part "tick" (Datum.toNat 64))
  | "Extinction" =>
    let parts ← Parts.of ["tick"] false rest
    return .extinction (← parts.part "tick" (Datum.toNat 64))
  | _ => throw .malformed

/-- Reads an event. -/
def ofDatum : Datum → Decoded Event
  | .record fields            => do
    match fields.lookup "event" with
    | some (.text kind) => ofParts kind (.record fields)
    | _                 => throw .malformed
  | .list (.text kind :: rest) => ofParts kind (.list rest)
  | _                         => throw .malformed

end Vivarium.Event
