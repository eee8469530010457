import Vivarium.Scalar.Binary
import Vivarium.Scalar.Order

/-!
# The hue of a genetic string

Each pair of adjacent bytes falls into one of three bins, by the sum of the two modulo three. The bins
are read as red, green and blue, and the hue is that of the colour, in whole degrees from 0 to 359. So
the hue depends on the numbers of pairs in the bins alone.

A bin is counted without a bound. A counter of 32 bits would overflow in a string of more than `2 ^ 32`
bytes only; a genetic string has sixty letters at most, and no bin of it comes near that (`Program.fullest_le`).
-/

namespace Vivarium

/-- The adjacent pairs of a list, in order. -/
def adjacentPairs (xs : List α) : List (α × α) := xs.zip xs.tail

/-- How many adjacent pairs fall into each of the three bins. -/
structure Channels where
  red   : Nat
  green : Nat
  blue  : Nat
deriving DecidableEq, Repr

namespace Channels

/-- The bin of a pair. -/
def bin (pair : UInt8 × UInt8) : Nat := (pair.1.toNat + pair.2.toNat) % 3

/-- The bins of a string of bytes. -/
def ofBytes (bytes : List UInt8) : Channels :=
  let bins := (adjacentPairs bytes).map bin
  { red := bins.count 0, green := bins.count 1, blue := bins.count 2 }

/-- The fullest bin. -/
def fullest (c : Channels) : Nat := max c.red (max c.green c.blue)

/-- The position of a red hue, from its distance to red. Whole turns are taken off, of which there are
none in a distance of at most one sixth. -/
def redSextant (distance : Float) : Float := remainder distance 6.0

/-- The position on the wheel in sixths of a turn, from minus one to five: how far the hue lies from the
strongest of the three primaries, which stand at zero, two and four. Grey has position zero. -/
def sixths (c : Channels) : Float :=
  let full := Float.ofNat c.fullest
  let r := Float.ofNat c.red / full
  let g := Float.ofNat c.green / full
  let b := Float.ofNat c.blue / full
  let least := lesser (lesser r g) b
  let most  := greater (greater r g) b
  let spread := most - least
  -- all bins are as full as each other
  if spread == 0.0 then 0.0
  -- of two bins that are the fullest, red comes before green and green before blue
  else if most == r then redSextant ((g - b) / spread)
  else if most == g then (b - r) / spread + 2.0
  else (r - g) / spread + 4.0

/-- The hue in degrees: sixty degrees to a sixth, rounded to the nearest, a half upwards. Negative
positions are a full turn further on. Without any pair the hue is zero. -/
def degrees (c : Channels) : Int :=
  if c.fullest = 0 then 0
  else
    let d := floorInt (c.sixths * 60.0 + 0.5)
    if d < 0 then d + 360 else d

end Channels

/-- The hue of a genetic string. -/
def geneticHue (genetic : String) : Float :=
  floatOfInt (Channels.ofBytes genetic.toUTF8.toList).degrees

end Vivarium
