import Mathlib.Algebra.Order.Monoid.Unbundled.Pow
import Mathlib.Algebra.Order.Ring.Nat
import Mathlib.Data.Nat.Log
import Mathlib.Order.Monotone.Monovary
import Vivarium.Scalar.Power

/-!
# Rounding to 53 bits

A sum of doubles is computed exactly, as a whole number of the smallest subnormal, and then rounded. The
rounding drops the bits beyond the 53rd one at a time into a round bit and a sticky bit, and decides in
the end by these. What the bits amount to is the number of quarters of the last place; dropping a bit and
deciding are both monotone in it, so the rounding is. No closed formula of it is needed: that it is
monotone and leaves what has 53 bits alone is all that order laws of sums rest on.

Main results: `roundUnits_mono`, `roundUnits_of_fits`.
-/

namespace Vivarium.Double

open Float.Model Float.Model.UnpackedFloat

/-! ## Dropping bits -/

/-- What an extended mantissa amounts to, in quarters of its last place; less than one of them is as good
as one. -/
def quarters (em : ExtendedMantissa) : Nat :=
  4 * em.mantissa + 2 * em.roundBit.toNat + em.stickyBit.toNat

/-- What becomes of a number of quarters when the last place becomes twice as large. -/
def dropBit (q : Nat) : Nat := 2 * (q / 4) + min 1 (q % 4)

/-- The number of last places nearest to a number of quarters, the even one of two equally near. -/
def nearest (q : Nat) : Nat :=
  q / 4 + if q % 4 = 3 ∨ q % 4 = 2 ∧ q / 4 % 2 = 1 then 1 else 0

/-- One shift of an extended mantissa drops one bit, which is remembered in the quarters. -/
theorem quarters_shiftRightOne (em : ExtendedMantissa) :
    quarters em.shiftRightOne = dropBit (quarters em) := by
  obtain ⟨m, r, s⟩ := em
  have hbit : (m % 2 != 0).toNat = m % 2 := by
    rcases Nat.mod_two_eq_zero_or_one m with hm | hm <;> rw [hm] <;> rfl
  unfold quarters dropBit ExtendedMantissa.shiftRightOne
  cases r <;> cases s <;>
    simp only [hbit, Bool.or_true, Bool.or_false, Bool.toNat_true, Bool.toNat_false] <;> omega

/-- The rounded mantissa is the nearest whole number of the quarters. -/
theorem roundedMantissa_eq (em : ExtendedMantissa) : em.roundedMantissa = nearest (quarters em) := by
  obtain ⟨m, r, s⟩ := em
  unfold quarters nearest ExtendedMantissa.roundedMantissa
  cases r <;> cases s <;>
    simp only [ExtendedMantissa.accuracy, Accuracy.roundToNearestEven, Bool.toNat_true,
      Bool.toNat_false] <;>
    split <;> omega

/-- To drop a bit keeps the order. -/
theorem dropBit_mono : Monotone dropBit := by
  intro p q hpq
  unfold dropBit
  omega

/-- So does rounding to the nearest. -/
theorem nearest_mono : Monotone nearest := by
  intro p q hpq
  unfold nearest
  split <;> split <;> omega

/-- The number nearest to `n / 2 ^ s`, the even one of two equally near. -/
def rounded (n s : Nat) : Nat := nearest (dropBit^[s] (4 * n))

/-- Any shift drops as many bits as it is wide. -/
theorem quarters_shiftRight (em : ExtendedMantissa) (s : Nat) :
    quarters (em >>> s) = dropBit^[s] (quarters em) := by
  induction s with
  | zero => rfl
  | succ s ih =>
    rw [Function.iterate_succ_apply', ← ih]
    exact quarters_shiftRightOne (em >>> s)

/-- The bits that are dropped from a mantissa round it. -/
theorem roundedMantissa_shiftRight (n s : Nat) :
    ((ExtendedMantissa.ofMantissaAndAccuracy n .exact) >>> s).roundedMantissa = rounded n s := by
  rw [roundedMantissa_eq, quarters_shiftRight]
  rfl

/-- To drop bits and then round keeps the order. -/
theorem nearest_iterate_mono (s : Nat) : Monotone fun q => nearest (dropBit^[s] q) := fun _ _ h =>
  nearest_mono (dropBit_mono.iterate s h)

/-- So does rounding by any number of bits. -/
theorem rounded_mono (s : Nat) : Monotone (rounded · s) := fun _ _ h =>
  nearest_iterate_mono s (Nat.mul_le_mul_left 4 h)

/-- Zeros that are dropped leave nothing behind. -/
theorem dropBit_iterate_mul (q s : Nat) : dropBit^[s] (4 * (q * 2 ^ s)) = 4 * q := by
  induction s with
  | zero => rw [Function.iterate_zero_apply, Nat.pow_zero, Nat.mul_one]
  | succ s ih =>
    -- the last bit is a zero, so it is dropped for nothing
    have heven : dropBit (4 * (q * 2 ^ (s + 1))) = 4 * (q * 2 ^ s) := by
      have htwice : q * 2 ^ (s + 1) = 2 * (q * 2 ^ s) := by
        rw [Nat.pow_succ, ← Nat.mul_assoc, Nat.mul_comm]
      unfold dropBit
      omega
    rw [Function.iterate_succ_apply, heven, ih]

/-- Zero bits can be dropped without loss. -/
theorem rounded_mul (k s : Nat) : rounded (k * 2 ^ s) s = k := by
  unfold rounded
  rw [dropBit_iterate_mul]
  unfold nearest
  split <;> omega

/-- More zeros at the end, and as many bits dropped, come to the same. -/
theorem rounded_mul_add (n a s : Nat) : rounded (n * 2 ^ a) (s + a) = rounded n s := by
  unfold rounded
  rw [Function.iterate_add_apply, dropBit_iterate_mul]

/-- So much is left when bits are dropped, whatever they were. -/
theorem le_nearest_iterate {k q s : Nat} (h : 4 * (k * 2 ^ s) ≤ q) : k ≤ nearest (dropBit^[s] q) :=
  (rounded_mul k s).symm.le.trans (nearest_iterate_mono s h)

/-- And no more. -/
theorem nearest_iterate_le {k q s : Nat} (h : q ≤ 4 * (k * 2 ^ s)) : nearest (dropBit^[s] q) ≤ k :=
  (nearest_iterate_mono s h).trans (rounded_mul k s).le

/-- What is no less than a number of multiples is not rounded below it. -/
theorem le_rounded {k n s : Nat} (h : k * 2 ^ s ≤ n) : k ≤ rounded n s :=
  le_nearest_iterate (Nat.mul_le_mul_left 4 h)

/-- Nor is what is no more rounded above it. -/
theorem rounded_le {k n s : Nat} (h : n ≤ k * 2 ^ s) : rounded n s ≤ k :=
  nearest_iterate_le (Nat.mul_le_mul_left 4 h)

/-! ## Numbers of 53 bits -/

/-- The bits of a number beyond the 53rd. -/
def excess (n : Nat) : Nat := n.log2 - 52

/-- The number of units nearest to `n` that has no more than 53 bits before its trailing zeros. -/
def roundUnits (n : Nat) : Nat := rounded n (excess n) * 2 ^ excess n

/-- A number of up to 53 bits has none in excess. -/
theorem excess_eq_zero {n : Nat} (h : n < 2 ^ 53) : excess n = 0 := by
  have hlog : n.log2 ≤ 52 := by
    rcases Nat.eq_zero_or_pos n with rfl | hpos
    · decide
    · have := (Nat.log2_lt (by omega)).mpr (show n < 2 ^ 53 from h)
      omega
  unfold excess
  omega

/-- So rounding leaves it alone. -/
theorem roundUnits_of_lt {n : Nat} (h : n < 2 ^ 53) : roundUnits n = n := by
  unfold roundUnits
  rw [excess_eq_zero h, Nat.pow_zero, Nat.mul_one]
  have hmul := rounded_mul n 0
  rwa [Nat.pow_zero, Nat.mul_one] at hmul

/-- A large number and its rounding lie between the same powers of two. -/
theorem bounds_of_le {n : Nat} (h : 2 ^ 53 ≤ n) :
    2 ^ (excess n + 52) ≤ n ∧ n < 2 ^ (excess n + 53) ∧
      2 ^ 52 ≤ rounded n (excess n) ∧ rounded n (excess n) ≤ 2 ^ 53 := by
  have hpos : n ≠ 0 := by omega
  have hlog : 53 ≤ n.log2 := (Nat.le_log2 hpos).mpr h
  -- what is beyond 53 bits is in excess
  have hexcess : excess n + 52 = n.log2 := by
    unfold excess
    omega
  have hlow : 2 ^ (excess n + 52) ≤ n := by
    rw [hexcess]
    exact Nat.log2_self_le hpos
  have hhigh : n < 2 ^ (excess n + 53) := by
    rw [show excess n + 53 = n.log2 + 1 by omega]
    exact Nat.lt_log2_self
  have hrlow : 2 ^ 52 * 2 ^ excess n ≤ n :=
    calc 2 ^ 52 * 2 ^ excess n = 2 ^ (52 + excess n) := (Nat.pow_add 2 52 (excess n)).symm
      _ = 2 ^ (excess n + 52) := by rw [Nat.add_comm 52]
      _ ≤ n := hlow
  have hrhigh : n ≤ 2 ^ 53 * 2 ^ excess n :=
    calc n ≤ 2 ^ (excess n + 53) := hhigh.le
      _ = 2 ^ (53 + excess n) := by rw [Nat.add_comm 53]
      _ = 2 ^ 53 * 2 ^ excess n := Nat.pow_add 2 53 (excess n)
  exact ⟨hlow, hhigh, le_rounded hrlow, rounded_le hrhigh⟩

/-- What is left of a number has at most 53 bits, or is the first number of 54; it has 53 at least if bits
were dropped. -/
theorem rounded_bounds {n : Nat} (hn : 0 < n) :
    0 < rounded n (excess n) ∧ rounded n (excess n) ≤ 2 ^ 53 ∧
      (excess n = 0 ∨ 2 ^ 52 ≤ rounded n (excess n)) := by
  -- either nothing is in excess, or what is left fills the mantissa
  rcases Nat.lt_or_ge n (2 ^ 53) with hlt | hge
  · have hzero := excess_eq_zero hlt
    have hsame := roundUnits_of_lt hlt
    rw [roundUnits, hzero, Nat.pow_zero, Nat.mul_one] at hsame
    rw [hzero, hsame]
    exact ⟨hn, hlt.le, .inl rfl⟩
  · obtain ⟨-, -, hlow, hhigh⟩ := bounds_of_le hge
    exact ⟨by omega, hhigh, .inr hlow⟩

/-- **Rounding is monotone.** -/
theorem roundUnits_mono : Monotone roundUnits := by
  intro m n hmn
  rcases Nat.lt_or_ge n (2 ^ 53) with hn | hn
  · rw [roundUnits_of_lt hn, roundUnits_of_lt (Nat.lt_of_le_of_lt hmn hn)]
    exact hmn
  · obtain ⟨hnlow, hnhigh, hrlow, -⟩ := bounds_of_le hn
    have hnround : 2 ^ (excess n + 52) ≤ roundUnits n := by
      rw [Nat.add_comm, Nat.pow_add]
      exact Nat.mul_le_mul_right _ hrlow
    rcases Nat.lt_or_ge m (2 ^ 53) with hm | hm
    -- a number of 53 bits is left alone, and lies below the power of two that the other one reaches
    · rw [roundUnits_of_lt hm]
      rcases Nat.eq_zero_or_pos (excess n) with hzero | hpos
      · have hlt : n < 2 ^ 53 := by
          rw [hzero] at hnhigh
          exact hnhigh
        omega
      · have hpow : 2 ^ 53 ≤ 2 ^ (excess n + 52) := Nat.pow_le_pow_right (by decide) (by omega)
        have hm' : m < 2 ^ 53 := hm
        omega
    · obtain ⟨hmlow, hmhigh, -, hrhigh⟩ := bounds_of_le hm
      rcases Nat.lt_trichotomy (excess m) (excess n) with hlt | heq | hgt
      -- in different binades a power of two separates the two
      · calc roundUnits m ≤ 2 ^ 53 * 2 ^ excess m := Nat.mul_le_mul_right _ hrhigh
          _ = 2 ^ (53 + excess m) := (Nat.pow_add ..).symm
          _ ≤ 2 ^ (excess n + 52) := Nat.pow_le_pow_right (by decide) (by omega)
          _ ≤ roundUnits n := hnround
      -- in one binade the same bits are dropped
      · unfold roundUnits
        rw [heq]
        exact Nat.mul_le_mul_right _ (rounded_mono _ hmn)
      · have hpow : 2 ^ (excess n + 53) ≤ 2 ^ (excess m + 52) :=
          Nat.pow_le_pow_right (by decide) (by omega)
        omega

/-- **Rounding leaves alone** what has no more than 53 bits before its trailing zeros. -/
theorem roundUnits_of_fits {k : Nat} (h : k < 2 ^ 53) (s : Nat) :
    roundUnits (k * 2 ^ s) = k * 2 ^ s := by
  rcases Nat.eq_zero_or_pos k with rfl | hk
  · rw [Nat.zero_mul]
    rfl
  have hpos : k * 2 ^ s ≠ 0 := Nat.ne_of_gt (Nat.mul_pos hk (Nat.two_pow_pos s))
  -- no more bits are dropped than there are trailing zeros
  have hle : excess (k * 2 ^ s) ≤ s := by
    have hlog : (k * 2 ^ s).log2 < 53 + s := by
      rw [Nat.log2_lt hpos, Nat.pow_add]
      exact Nat.mul_lt_mul_of_pos_right h (Nat.two_pow_pos s)
    unfold excess
    omega
  obtain ⟨t, ht⟩ := Nat.exists_eq_add_of_le hle
  have hsplit : k * 2 ^ s = k * 2 ^ t * 2 ^ excess (k * 2 ^ s) := by
    rw [Nat.mul_assoc, ← Nat.pow_add, Nat.add_comm t, ← ht]
  unfold roundUnits
  generalize excess (k * 2 ^ s) = e at hsplit
  rw [hsplit, rounded_mul]

end Vivarium.Double
