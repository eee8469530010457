import Vivarium.Proofs.Scalar.Arithmetic

/-!
# Whole numbers as doubles

Up to `2 ^ 53` the whole numbers are doubles, and sums and differences that stay in this range are exact:
what is a multiple of one with no more than 53 bits in front is left alone by rounding. So on whole numbers
the arithmetic of doubles is that of the integers.

Main results: `IsWhole.add`, `IsWhole.sub`, `IsWhole.greater`.
-/

namespace Vivarium.Double

open Float.Model Float.Model.UnpackedFloat

/-- What one is worth. -/
@[irreducible] def unitsOfOne : Nat := magnitude 1 0

theorem unitsOfOne_pos : 0 < unitsOfOne := by
  unfold unitsOfOne
  exact magnitude_pos Nat.one_pos 0

theorem unitsOfOne_eq : unitsOfOne = 2 ^ (0 + 1074 : Int).toNat := by
  unfold unitsOfOne
  exact Nat.one_mul _

/-- A natural number is worth so many ones. -/
theorem mul_unitsOfOne (k : Nat) : k * unitsOfOne = magnitude k 0 := by
  rw [unitsOfOne_eq]
  rfl

/-- Powers of two with exponents that are integers. -/
theorem two_pow_toNat_add {c : Int} (a b : Int) (h : c = a + b) (ha : 0 ≤ a) (hb : 0 ≤ b) :
    2 ^ c.toNat = 2 ^ a.toNat * 2 ^ b.toNat := by
  rw [← Nat.pow_add]
  congr 1
  omega

/-- One is the power whose exponent lies 1074 up. -/
theorem two_pow_toNat_mul_unitsOfOne {c : Int} (a : Int) (h : c = a + 1074) (ha : 0 ≤ a) :
    2 ^ c.toNat = 2 ^ a.toNat * unitsOfOne := by
  rw [unitsOfOne_eq]
  exact two_pow_toNat_add _ _ h ha (by decide)

/-- Whole numbers of the range stay below the worth of infinity. -/
theorem mul_unitsOfOne_lt_limit {k : Nat} (h : k ≤ 2 ^ 53) : k * unitsOfOne < limit := by
  rw [mul_unitsOfOne]
  unfold limit
  have hpow : 2 ^ (0 + 1074 : Int).toNat < 2 ^ (971 + 1074 : Int).toNat :=
    Nat.pow_lt_pow_right (by decide) (by decide)
  calc magnitude k 0 ≤ magnitude (2 ^ 53) 0 := Nat.mul_le_mul_right _ h
    _ < magnitude (2 ^ 53) 971 := Nat.mul_lt_mul_of_pos_left hpow (by decide)

/-- As long as it is a double, it is not rounded. -/
theorem roundUnits_mul_unitsOfOne {k : Nat} (h : k ≤ 2 ^ 53) :
    roundUnits (k * unitsOfOne) = k * unitsOfOne := by
  rw [mul_unitsOfOne]
  rcases Nat.lt_or_eq_of_le h with hlt | rfl
  · exact roundUnits_of_fits hlt _
  -- the last number of the range has one bit, followed by zeros
  · rw [show 2 ^ 53 = 2 ^ 52 * 2 ^ 1 from rfl, magnitude_mul_two_pow _ _ (by decide)]
    exact roundUnits_of_fits (by decide) _

/-- Nor cut off. -/
theorem saturate_mul_unitsOfOne {n : Int} (h : n.natAbs ≤ 2 ^ 53) :
    saturate (n * unitsOfOne) = n * unitsOfOne := by
  have hround := roundUnits_mul_unitsOfOne h
  have hlimit := mul_unitsOfOne_lt_limit h
  have hnatAbs : (n * unitsOfOne).natAbs = n.natAbs * unitsOfOne := by
    rw [Int.natAbs_mul, Int.natAbs_natCast]
  -- a whole number within 53 bits is on the grid
  have hround' : roundInt (n * unitsOfOne) = n * unitsOfOne := by
    rw [roundInt, hnatAbs, hround, ← hnatAbs, Int.sign_mul_natAbs]
  unfold saturate cutOff
  rw [hround']
  omega

/-- The double is the whole number `n`. -/
def IsWhole (x : Float) (n : Int) : Prop := x.isFinite = true ∧ units x = n * unitsOfOne

instance (x : Float) (n : Int) : Decidable (IsWhole x n) :=
  inferInstanceAs (Decidable (x.isFinite = true ∧ units x = n * unitsOfOne))

namespace IsWhole

variable {x y : Float} {m n : Int}

theorem neg (hx : IsWhole x m) : IsWhole (-x) (-m) := by
  refine ⟨isFinite_neg hx.1, ?_⟩
  rw [units_neg, hx.2, Int.neg_mul]

/-- **Sums of whole numbers are exact.** -/
theorem add (hx : IsWhole x m) (hy : IsWhole y n) (h : (m + n).natAbs ≤ 2 ^ 53) :
    IsWhole (x + y) (m + n) := by
  obtain ⟨hnumber, hunits⟩ := units_add hx.1 hy.1
  -- the sum is whole before it is rounded, and small enough to be kept
  have hsum : units x + units y = (m + n) * unitsOfOne := by
    rw [hx.2, hy.2, Int.add_mul]
  rw [hsum, saturate_mul_unitsOfOne h] at hunits
  refine ⟨isFinite_iff.mpr ⟨hnumber, ?_⟩, hunits⟩
  have hlimit := mul_unitsOfOne_lt_limit h
  have hnatAbs : ((m + n) * unitsOfOne).natAbs = (m + n).natAbs * unitsOfOne := by
    rw [Int.natAbs_mul, Int.natAbs_natCast]
  rw [hunits]
  omega

/-- **Differences of whole numbers are exact.** -/
theorem sub (hx : IsWhole x m) (hy : IsWhole y n) (h : (m - n).natAbs ≤ 2 ^ 53) :
    IsWhole (x - y) (m - n) := by
  rw [sub_eq_add_neg, Int.sub_eq_add_neg]
  rw [Int.sub_eq_add_neg] at h
  exact hx.add hy.neg h

/-- Whole numbers compare as integers do. -/
theorem lt_iff (hx : IsWhole x m) (hy : IsWhole y n) : x < y ↔ m < n := by
  have hpos : (0 : Int) < unitsOfOne := Int.natCast_pos.mpr unitsOfOne_pos
  have hunits : units x < units y ↔ m < n := by
    rw [hx.2, hy.2]
    exact Int.mul_lt_mul_right hpos
  rw [Double.lt_iff, hunits]
  exact ⟨fun h => h.2.2, fun h => ⟨isNumber_of_isFinite hx.1, isNumber_of_isFinite hy.1, h⟩⟩

/-- Two doubles that are one whole number compare alike. -/
theorem le_congr (hx : IsWhole x n) (hy : IsWhole y n) {z : Float} : x ≤ z ↔ y ≤ z := by
  rw [Double.le_iff, Double.le_iff, hx.2, hy.2]
  exact and_congr_left fun _ => iff_of_true (isNumber_of_isFinite hx.1) (isNumber_of_isFinite hy.1)

theorem lt_congr (hx : IsWhole x n) (hy : IsWhole y n) {z : Float} : z < x ↔ z < y := by
  rw [Double.lt_iff, Double.lt_iff, hx.2, hy.2]
  exact and_congr_right fun _ =>
    and_congr_left fun _ => iff_of_true (isNumber_of_isFinite hx.1) (isNumber_of_isFinite hy.1)

/-- The larger of two whole numbers is the larger of the integers. -/
theorem greater (hx : IsWhole x m) (hy : IsWhole y n) : IsWhole (greater x y) (max m n) := by
  have hnumber : ¬ x.isNaN = true := by
    rw [isNumber_of_isFinite hx.1]
    exact Bool.false_ne_true
  unfold Vivarium.greater
  rw [if_neg hnumber]
  -- it returns its second argument only if that is larger
  split
  · rename_i hlt
    have hle := (hx.lt_iff hy).mp hlt
    rw [Int.max_eq_right hle.le]
    exact hy
  · rename_i hge
    have hle := mt (hx.lt_iff hy).mpr hge
    rw [Int.max_eq_left (by omega)]
    exact hx

end IsWhole

end Vivarium.Double
