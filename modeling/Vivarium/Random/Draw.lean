import Vivarium.Fault
import Vivarium.Ident
import Vivarium.Random.Source
import Vivarium.Scalar.Power

/-!
# Draws

A draw reads words from a source and yields a value, or faults. Uniform integers are made by
multiplying a word with the size of the range and taking the high half, words whose low half lies above
a threshold being drawn again; uniform reals are made from the top bits of one word. A draw that may
have to be repeated carries a bound on its repetitions, so that every draw is a total function; the
bound is far above anything that a run reaches.
-/

namespace Vivarium

/-- A computation that draws from a source. -/
abbrev Draw := StateT Source (Except Fault)

namespace Draw

/-- How often a draw may be repeated before it is given up. -/
def patience : Nat := twoTo 62

/-! ## Words -/

/-- A 64-bit word. -/
def word64 : Draw UInt64 := fun s => .ok s.next64

/-- A 32-bit word. -/
def word32 : Draw UInt32 := fun s => .ok s.next32

/-- An identifier: two words, the low half first. -/
def ident : Draw Ident := do
  let low ← word64
  let high ← word64
  return ⟨high, low⟩

/-! ## Integers -/

/-- The largest low half that is accepted for a range of `size` values and words of `width` bits: all
ones after the range has been shifted up to the full width. -/
def threshold (width size : Nat) : Nat := size <<< (width - 1 - size.log2) - 1

/-- A number below `size` from words of `width` bits, with at most `fuel` attempts. -/
def attemptBelow (width size : Nat) (word : Draw Nat) : (fuel : Nat) → Draw Nat
  | 0        => throw .exhausted
  | fuel + 1 => do
    let product := (← word) * size
    if product % twoTo width ≤ threshold width size then
      return product / twoTo width
    else
      attemptBelow width size word fuel

/-- A uniform number in `[lo, hi)` from words of `width` bits. -/
def within (width : Nat) (word : Draw Nat) (lo hi : Nat) : Draw Nat := do
  if lo < hi then
    return lo + (← attemptBelow width (hi - lo) word patience)
  else
    throw .emptyRange

/-- A uniform number in `[lo, hi)` from 64-bit words. -/
def number (lo hi : Nat) : Draw Nat :=
  within 64 (do return (← word64).toNat) lo hi

/-- A uniform number in `[lo, hi)` from 32-bit words. -/
def shortNumber (lo hi : Nat) : Draw Nat :=
  within 32 (do return (← word32).toNat) lo hi

/-- A uniform position in a sequence of `len` items. -/
def position (len : Nat) : Draw Nat := number 0 len

/-! ## Reals -/

/-- The top 53 bits of a word, as a fraction in `[0, 1)`. -/
def fractionOfWord (w : UInt64) : Float :=
  (w >>> 11).toFloat * (1.0 / 9007199254740992.0)

/-- The top 52 bits of a word as the mantissa of a number in `[1, 2)`, less one. -/
def mantissaOfWord (w : UInt64) : Float :=
  Float.ofBits ((w >>> 12) ||| 0x3ff0000000000000) - 1.0

/-- A uniform fraction in `[0, 1)`. -/
def fraction : Draw Float := do return fractionOfWord (← word64)

/-- A number `v * scale + lo` below `hi`, with at most `fuel` attempts. -/
def attemptReal (lo hi scale : Float) : (fuel : Nat) → Draw Float
  | 0        => throw .exhausted
  | fuel + 1 => do
    let x := mantissaOfWord (← word64) * scale + lo
    if x < hi then return x else attemptReal lo hi scale fuel

/-- A uniform real in `[lo, hi)`. -/
def real (lo hi : Float) : Draw Float := do
  if lo < hi then
    let scale := hi - lo
    if scale.isFinite then attemptReal lo hi scale patience else throw .unboundedRange
  else
    throw .emptyRange

/-- The largest fraction that `mantissaOfWord` yields. -/
def largestMantissa : Float := mantissaOfWord 0xffffffffffffffff

/-- The first scale, counting down from `scale` by single steps of its last bit, under which no
fraction leads above `hi`. -/
def fitScale (lo hi scale : Float) : (fuel : Nat) → Float
  | 0        => scale
  | fuel + 1 =>
    if scale * largestMantissa + lo > hi then
      fitScale lo hi (Float.ofBits (scale.toBits - 1)) fuel
    else
      scale

/-- A uniform real in `[lo, hi]`. -/
def closedReal (lo hi : Float) : Draw Float := do
  if lo ≤ hi then
    let scale := (hi - lo) / largestMantissa
    -- a range that is wider than the largest double has no scale
    if scale.isFinite then
      return mantissaOfWord (← word64) * fitScale lo hi scale patience + lo
    else
      throw .unboundedRange
  else
    throw .emptyRange

/-- True with probability `p`. Certainty draws no word. -/
def chance (p : Float) : Draw Bool := do
  if 0.0 ≤ p ∧ p < 1.0 then
    return (← word64) < (p * 18446744073709551616.0).toUInt64
  else if p == 1.0 then
    return true
  else
    throw .badChance

end Draw

end Vivarium
