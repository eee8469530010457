import Vivarium.Decimal.Shortest

/-!
# Writing doubles

A double is written with its shortest digits, with a point and at least one digit after it where the
decimal exponent is moderate, and else in scientific notation. Where "moderate" begins depends on the
notation, as do the texts of what is not finite.
-/

namespace Vivarium

/-- How doubles are written. -/
structure Notation where
  /-- The least decimal exponent that is written without an exponent. -/
  leastPlain : Int
  /-- The least decimal exponent above that is not. -/
  plainEnd   : Int
  tie        : Tie

namespace Notation

/-- Digits with a point after `10 ^ 0`, where the first digit stands at `10 ^ e`. -/
def plain (digits : List Char) (e : Int) : List Char :=
  if e < 0 then
    '0' :: '.' :: List.replicate (-e - 1).toNat '0' ++ digits
  else
    let whole := digits.take (e.toNat + 1)
    let fraction := digits.drop (e.toNat + 1)
    whole ++ List.replicate (e.toNat + 1 - digits.length) '0' ++ '.' ::
      (if fraction.isEmpty then ['0'] else fraction)

/-- Digits with a point after the first one, and the exponent of that one. -/
def scientific (digits : List Char) (e : Int) : List Char :=
  let mantissa := match digits with
    | []      => []
    | [d]     => [d]
    | d :: ds => d :: '.' :: ds
  mantissa ++ 'e' :: (toString e).toList

/-- The text of a finite double. -/
def finite (n : Notation) (x : Float) : String :=
  let b := Binary.ofFloat x
  let sign := if b.negative then ['-'] else []
  if b.mantissa = 0 then String.ofList (sign ++ ['0', '.', '0'])
  else
    let d := Decimal.shortest n.tie b
    let digits := Nat.toDigits 10 d.digits
    let e := d.exponent + digits.length - 1
    String.ofList <| sign ++
      if n.leastPlain ≤ e ∧ e < n.plainEnd then plain digits e else scientific digits e

end Notation

end Vivarium
