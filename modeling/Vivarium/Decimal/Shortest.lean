import Vivarium.Scalar.Binary
import Vivarium.Scalar.Power

/-!
# The shortest decimal of a double

Of all decimals that read back as a given double, the one with the fewest digits, and of those the
nearest to it. A decimal reads back as the double `m * 2 ^ q` if it lies in the interval of reals that
round to it, whose ends belong to it when `m` is even. For one, two, … digits the two neighbours of the
double on the grid of that many digits are tried, in exact arithmetic.
-/

namespace Vivarium

/-- A decimal: `digits * 10 ^ exponent`. -/
structure Decimal where
  digits   : Nat
  exponent : Int
deriving DecidableEq, Repr

/-- Which of two decimals at the same distance is taken. -/
inductive Tie where
  | up
  | even
deriving DecidableEq, Repr

namespace Shortest

/-- A positive double with its rounding interval, over a common denominator. -/
structure Target where
  value    : Nat
  low      : Nat
  high     : Nat
  scale    : Nat
  /-- Whether the ends of the interval belong to it. -/
  closed   : Bool

/-- The target of `m * 2 ^ q`. Below a power of two the doubles lie twice as close. -/
def Target.of (b : Binary) : Target :=
  let m := b.mantissa
  -- below a power of two the doubles are twice as dense
  let below := if m = twoTo 52 ∧ b.exponent ≠ -1074 then 1 else 2
  let up := twoTo b.exponent.toNat
  -- in quarters of the last place, so that what is halfway to a neighbour is whole
  { value  := 4 * m * up
    low    := (4 * m - below) * up
    high   := (4 * m + 2) * up
    scale  := 4 * twoTo (-b.exponent).toNat
    closed := m % 2 = 0 }

/-- An exponent above that of the value's first digit: one more than the value's binary logarithm times
the decimal logarithm of two. -/
def startExponent (b : Binary) : Int := (b.mantissa.log2 + 1 + b.exponent) * 30103 / 100000 + 1

/-- The exponent of the value's first digit, from `e` downwards. -/
def leadingExponent (t : Target) (e : Int) : (fuel : Nat) → Int
  | 0        => e
  | fuel + 1 =>
    if tenTo e.toNat * t.scale ≤ t.value * tenTo (-e).toNat then e
    else leadingExponent t (e - 1) fuel

/-- Whether `d * 10 ^ e` lies in the interval. -/
def Target.holds (t : Target) (d : Nat) (e : Int) : Bool :=
  let x := d * tenTo e.toNat * t.scale
  let k := tenTo (-e).toNat
  if t.closed then t.low * k ≤ x ∧ x ≤ t.high * k else t.low * k < x ∧ x < t.high * k

/-- The decimal on the grid of `10 ^ e` that reads back, if one of the value's two neighbours does. -/
def onGrid (tie : Tie) (t : Target) (e : Int) : Option Decimal :=
  let num := t.value * tenTo (-e).toNat
  let den := t.scale * tenTo e.toNat
  let d := num / den
  let rest := 2 * (num % den)
  -- of two candidates the nearer one, and of two that are as near the one that the tie prefers
  let preferUpper :=
    den < rest ∨ (den = rest ∧ (tie = .up ∨ d % 2 = 1))
  match t.holds d e, t.holds (d + 1) e with
  | true, true   => some ⟨if preferUpper then d + 1 else d, e⟩
  | true, false  => some ⟨d, e⟩
  | false, true  => some ⟨d + 1, e⟩
  | false, false => none

/-- The first grid with a hit, from the unit `10 ^ e` downwards. -/
def search (tie : Tie) (t : Target) (e : Int) : (fuel : Nat) → Decimal
  | 0        => ⟨0, 0⟩
  | fuel + 1 =>
    match onGrid tie t e with
    | some d => d
    | none   => search tie t (e - 1) fuel

/-- The same decimal without trailing zeros, of which there are at most `fuel`. -/
def trim (d : Decimal) : (fuel : Nat) → Decimal
  | 0        => d
  | fuel + 1 => if d.digits % 10 = 0 then trim ⟨d.digits / 10, d.exponent + 1⟩ fuel else d

end Shortest

/-- The shortest decimal of the absolute value of a finite double other than zero. Seventeen digits
always suffice. -/
def Decimal.shortest (tie : Tie) (b : Binary) : Decimal :=
  let t := Shortest.Target.of b
  Shortest.trim (Shortest.search tie t (Shortest.leadingExponent t (Shortest.startExponent b) 5) 18) 18

end Vivarium
