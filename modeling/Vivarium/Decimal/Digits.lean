import Vivarium.Ident

/-!
# Digits

What digits are worth, and the number that a run of them writes. Only ASCII digits count.
-/

namespace Vivarium.Digits

def isDigit (c : Char) : Bool := '0' ≤ c && c ≤ '9'

/-- The value of a digit below `base`, which is sixteen at most. -/
def digitValue? (base : Nat) (c : Char) : Option Nat := (Ident.hexValue? c).filter (· < base)

/-- The number that digits write. -/
def number (base : Nat) (digits : List Nat) : Nat := digits.foldl (fun n d => base * n + d) 0

/-- The number that a text of digits below `base` writes; an empty text writes none. -/
def ofText? (base : Nat) (cs : List Char) : Option Nat :=
  if cs.isEmpty then none else (cs.mapM (digitValue? base)).map (number base)

end Vivarium.Digits
