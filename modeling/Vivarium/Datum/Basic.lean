import Vivarium.Ident
import Vivarium.Refusal
import Vivarium.Scalar.Binary
import Vivarium.Scalar.Power

/-!
# Structured data

The common ground of JSON texts and TOML documents: scalars, lists and records. Integers and reals are
told apart, because a real is never accepted where an integer is asked for; an integer is accepted for a
real. A record may be written as a list of its parts in their order.
-/

namespace Vivarium

inductive Datum where
  | null
  | bool (b : Bool)
  | int (n : Int)
  | real (x : Float)
  | text (s : String)
  | list (items : List Datum)
  | record (fields : List (String × Datum))
deriving Inhabited, BEq

/-- Why a datum could not be read. -/
inductive DecodeError where
  /-- It has not the form that is asked for. -/
  | malformed
  /-- It has the form of a program but is none. -/
  | program (cause : ProgramError)
deriving DecidableEq, Repr

abbrev Decoded := Except DecodeError

namespace Datum

/-! ## Writing -/

/-- A number; null where it is not finite. -/
def ofFloat (x : Float) : Datum := if x.isFinite then .real x else .null

def ofNat (n : Nat) : Datum := .int n

def ofIdent (i : Ident) : Datum := .text i.text

def ofOption (f : α → Datum) : Option α → Datum
  | some a => f a
  | none   => .null

def ofList (f : α → Datum) (xs : List α) : Datum := .list (xs.map f)

/-! ## Reading scalars -/

def toFloat : Datum → Decoded Float
  | int n  => .ok (floatOfInt n)
  | real x => .ok x
  | _      => .error .malformed

/-- An unsigned integer of so many bits. -/
def toNat (bits : Nat) : Datum → Decoded Nat
  | int n => if 0 ≤ n ∧ n < twoTo bits then .ok n.toNat else .error .malformed
  | _     => .error .malformed

def toBool : Datum → Decoded Bool
  | bool b => .ok b
  | _      => .error .malformed

def toText : Datum → Decoded String
  | text s => .ok s
  | _      => .error .malformed

def toIdent : Datum → Decoded Ident
  | text s => match Ident.ofText? s with
    | some i => .ok i
    | none   => .error .malformed
  | _      => .error .malformed

/-- Null, or whatever `f` reads. -/
def toOption (f : Datum → Decoded α) : Datum → Decoded (Option α)
  | null => .ok none
  | d    => (f d).map some

def toList (f : Datum → Decoded α) : Datum → Decoded (List α)
  | list items => items.mapM f
  | _          => .error .malformed

end Datum

/-! ## Reading records -/

/-- The parts of a record by name. A record written as a list has to have all of them. -/
structure Parts where
  entries    : List (String × Datum)
  positional : Bool

namespace Parts

/-- The parts of a datum that is a record with the given names, or a list in their order. Names that are
not known are passed over; `surplus` says whether surplus items of a list are too. -/
def of (names : List String) (surplus : Bool) : Datum → Decoded Parts
  | .record fields => .ok ⟨fields, false⟩
  | .list items    =>
    if surplus ∨ items.length ≤ names.length then .ok ⟨names.zip items, true⟩
    else .error .malformed
  | _              => .error .malformed

/-- The part of a name, if it is there. -/
def part? (p : Parts) (name : String) (decode : Datum → Decoded α) : Decoded (Option α) :=
  match p.entries.lookup name with
  | some d => (decode d).map some
  | none   => .ok none

/-- A part that has to be there. -/
def part (p : Parts) (name : String) (decode : Datum → Decoded α) : Decoded α := do
  match ← p.part? name decode with
  | some a => .ok a
  | none   => .error .malformed

/-- A part that may be null, or missing from a record. -/
def optional (p : Parts) (name : String) (decode : Datum → Decoded α) : Decoded (Option α) := do
  match ← p.part? name (Datum.toOption decode) with
  | some a => .ok a
  | none   => if p.positional then .error .malformed else .ok none

/-- A part with a default. -/
def withDefault (p : Parts) (name : String) (default : α) (decode : Datum → Decoded α) : Decoded α :=
  do return (← p.part? name decode).getD default

end Parts

end Vivarium
