import Vivarium.Proofs.Scalar.Within
import Vivarium.Scalar.Binary

/-!
# The whole part of a double

The bits of a finite double are read as a sign, a mantissa and an exponent. They are worth what the double is
worth, and the floor that is computed on them drops the bits behind the point: it is the quotient of that worth by
the worth of one. So a whole number is not above a double exactly if it is not above the double's floor.

Main results: `floorInt_eq`, `le_floorInt_iff`.
-/

namespace Vivarium

/-- The mantissa with its sign. -/
def Binary.signed (b : Binary) : Int := if b.negative then -b.mantissa else b.mantissa

namespace Double

open Float.Model Float.Model.UnpackedFloat

variable {x : Float}

/-! ## What the bits are worth -/

theorem toNat_unpackMantissa (b : BitVec Format.binary64.numBits) :
    (unpackMantissa b).toNat = b.toNat % 2 ^ 52 := by
  unfold unpackMantissa
  rw [BitVec.toNat_cast, BitVec.extractLsb_toNat]
  rfl

theorem toNat_unpackExponent (b : BitVec Format.binary64.numBits) :
    (unpackExponent b).toNat = b.toNat / 2 ^ 52 % 2048 := by
  unfold unpackExponent
  rw [BitVec.toNat_cast, BitVec.extractLsb_toNat, Nat.shiftRight_eq_div_pow]
  rfl

/-- The first bit is the sign. -/
theorem ofBitVec_unpackSign (b : BitVec Format.binary64.numBits) :
    Sign.ofBitVec (unpackSign b) = if 2 ^ 63 ≤ b.toNat then .negative else .positive := by
  have hlt : b.toNat < 2 ^ 64 := b.isLt
  -- the sign is the highest bit
  have hsign : (unpackSign b).toNat = b.toNat / 2 ^ 63 := by
    unfold unpackSign
    rw [BitVec.toNat_cast, BitVec.extractLsb_toNat, Nat.shiftRight_eq_div_pow]
    exact Nat.mod_eq_of_lt (Nat.div_lt_of_lt_mul (by simpa using hlt))
  have hzero : unpackSign b = 0#1 ↔ b.toNat < 2 ^ 63 := by
    rw [← BitVec.toNat_inj, hsign, BitVec.toNat_ofNat]
    omega
  unfold Sign.ofBitVec
  by_cases hpos : b.toNat < 2 ^ 63
  · rw [if_pos (hzero.mpr hpos), if_neg (Nat.not_le.mpr hpos)]
  · rw [if_neg (mt hzero.mp hpos), if_pos (Nat.not_lt.mp hpos)]

/-- The bits of a finite double say what it is worth. -/
theorem units_eq_of_bits (hx : x.isFinite = true) :
    units x = (Binary.ofFloat x).signed * (2 ^ ((Binary.ofFloat x).exponent + 1074).toNat : Nat) := by
  obtain ⟨b, hb⟩ : ∃ b : BitVec Format.binary64.numBits, b = x.toModel.toBits.toBitVec := ⟨_, rfl⟩
  have hbits : x.toBits.toNat = b.toNat := hb ▸ rfl
  have hunpack : x.toModel.unpack = unpack .binary64 b := hb ▸ rfl
  change x.toModel.unpack.isFinite = true at hx
  unfold units
  rw [hunpack, ← packComponents_unpackSign_unpackExponent_unpackMantissa b, unpack_packComponents] at hx ⊢
  rw [ofBitVec_unpackSign] at hx ⊢
  unfold Binary.signed Binary.ofFloat
  simp only [twoTo, Nat.pow_eq, hbits, decide_eq_true_eq]
  rw [← toNat_unpackMantissa, ← toNat_unpackExponent]
  generalize unpackMantissa b = m at hx ⊢
  generalize unpackExponent b = e at hx ⊢
  have hfield : e.toNat = 0 ↔ e = 0#11 := BitVec.toNat_eq_nat.trans (by simp)
  simp only [hfield]
  have happly (n : Nat) (f : Int) : (if 2 ^ 63 ≤ b.toNat then Sign.negative else .positive).apply (magnitude n f) =
      (if 2 ^ 63 ≤ b.toNat then -(n : Int) else n) * (2 ^ (f + 1074).toNat : Nat) := by
    unfold magnitude
    rw [Int.natCast_mul]
    split
    · exact (Int.neg_mul _ _).symm
    · rfl
  -- all ones stand for an infinity or for no number, all zeros for the smallest exponent
  by_cases hones : e = -1#11
  · rw [if_pos hones] at hx
    split at hx <;> cases hx
  · rw [if_neg hones]
    by_cases hsmallest : e = 0#11
    · rw [if_pos hsmallest, if_pos hsmallest, if_pos hsmallest]
      split
      · rename_i hzero
        subst hzero
        simp [valueOf]
      · exact happly _ _
    · rw [if_neg hsmallest, if_neg hsmallest, if_neg hsmallest]
      exact happly _ _

/-! ## The floor -/

theorem exponent_ofFloat (x : Float) : -1074 ≤ (Binary.ofFloat x).exponent := by
  unfold Binary.ofFloat
  dsimp only
  split <;> omega

/-- The floor drops the bits behind the point. -/
theorem floor_eq {b : Binary} (h : -1074 ≤ b.exponent) :
    b.floor = b.signed * (2 ^ (b.exponent + 1074).toNat : Nat) / unitsOfOne := by
  have hfloor : b.floor = if 0 ≤ b.exponent then b.signed * (2 ^ b.exponent.toNat : Nat)
      else b.signed / (2 ^ (-b.exponent).toNat : Nat) := rfl
  have hpos := unitsOfOne_pos
  rw [hfloor]
  -- with an exponent that is not negative the number is whole, otherwise bits are dropped
  split
  · rename_i he
    have hexp : 2 ^ (b.exponent + 1074).toNat = 2 ^ b.exponent.toNat * unitsOfOne :=
      two_pow_toNat_mul_unitsOfOne _ rfl he
    rw [hexp, Int.natCast_mul, ← Int.mul_assoc, Int.mul_ediv_cancel _ (by omega)]
  · rename_i he
    have hexp : unitsOfOne = 2 ^ (-b.exponent).toNat * 2 ^ (b.exponent + 1074).toNat := by
      rw [unitsOfOne_eq]
      exact two_pow_toNat_add _ _ (by omega) (by omega) (by omega)
    rw [hexp, Int.natCast_mul, Int.mul_ediv_mul_of_pos_left _ _ (Int.natCast_pos.mpr (Nat.two_pow_pos _))]

/-- **The floor of a double** is how often one goes into what the double is worth. -/
theorem floorInt_eq (hx : x.isFinite = true) : floorInt x = units x / unitsOfOne := by
  rw [units_eq_of_bits hx]
  exact floor_eq (exponent_ofFloat x)

/-- A whole number is not above a double exactly if it is not above the floor. -/
theorem le_floorInt_iff {n : Int} (hx : x.isFinite = true) : n ≤ floorInt x ↔ n * unitsOfOne ≤ units x := by
  rw [floorInt_eq hx]
  exact Int.le_ediv_iff_mul_le (Int.natCast_pos.mpr unitsOfOne_pos)

theorem Within.floorInt_le {k : Nat} (hx : Within x k) : floorInt x ≤ k := by
  have hle := hx.2
  rw [floorInt_eq hx.1]
  refine Int.ediv_le_of_le_mul (Int.natCast_pos.mpr unitsOfOne_pos) ?_
  rw [← Int.natCast_mul]
  omega

end Double

end Vivarium
