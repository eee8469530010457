import Vivarium.Proofs.Scalar.Within
import Vivarium.Random.Draw

/-!
# Fractions of 53 bits

A fraction is made of a word by scaling its 53 top bits down, which is exact: what is scaled is a whole number of
no more bits than a double has, so only its exponent is changed. So a fraction lies in `[0, 1)`, its worth
grows with the word, and it is zero for more than one word: for all those that have no other bits than the
eleven that are dropped.

Main results: `Draw.units_fractionOfWord`, `Draw.fractionOfWord_pos_iff`.
-/

namespace Vivarium

namespace Double

open Float.Model Float.Model.UnpackedFloat

/-- A positive whole number has all of its 53 bits, and many to spare behind the point. -/
theorem unpack_of_isWhole {x : Float} {k : Nat} (hx : IsWhole x k) (hk : 0 < k) :
    ∃ m e hm, x.toModel.unpack = .finite .positive m e hm ∧ Proper (.finite .positive m e hm) ∧
      -53 < e ∧ magnitude m e = magnitude k 0 := by
  have hworth : units x = magnitude k 0 := by
    rw [hx.2, ← mul_unitsOfOne, Int.natCast_mul]
  have hpositive : 0 < magnitude k 0 := magnitude_pos hk 0
  obtain ⟨m, e, hm, hunpack, hproper, hvalue⟩ := unpack_of_pos hx.1 (by omega)
  have hmagnitude : magnitude m e = magnitude k 0 := by omega
  refine ⟨m, e, hm, hunpack, hproper, ?_, hmagnitude⟩
  -- with a smaller exponent it would be worth less than one
  by_contra hsmall
  have hone : magnitude (1 * 2 ^ 52) (-52) = magnitude 1 0 := magnitude_mul_two_pow 1 52 (by decide)
  have hless : magnitude m e < magnitude (1 * 2 ^ 52) (-52) :=
    Nat.lt_of_lt_of_le (magnitude_lt_left hproper.1.lt e)
      (magnitude_le_of_exponent_lt (by decide) hproper.1.le (by omega))
  have hmore : magnitude 1 0 ≤ magnitude k 0 := Nat.mul_le_mul_right _ hk
  omega

theorem magnitude_sub_mul (m k : Nat) {e : Int} (he : -1074 ≤ e - k) :
    magnitude m (e - k) * 2 ^ k = magnitude m e := by
  have hbits : magnitude m (e - k) * 2 ^ k = magnitude (m * 2 ^ k) (e - k) := Nat.mul_right_comm m _ _
  rw [hbits, magnitude_mul_two_pow m k he, Int.sub_add_cancel]

/-- **A whole number times a power of two** below one is exact, however many of its bits that puts behind the
point. -/
theorem units_mul_two_pow {x y : Float} {k d : Nat} (hx : IsWhole x k) (hk : 0 < k)
    (hy : y.toModel.unpack = .finite .positive (2 ^ 52) (-52 - d) (by decide)) (hd : d ≤ 1021) :
    (x * y).isFinite = true ∧ units (x * y) = magnitude k (0 - d) := by
  obtain ⟨m, e, hm, hunpack, ⟨hsettled, hle⟩, he, hmagnitude⟩ := unpack_of_isWhole hx hk
  -- the exponent falls by `d`, and is still far above the least one, so that no bit is lost
  have hshifted : Settled m (e - d) :=
    ⟨hsettled.lt, by omega, .inr (hsettled.filled.resolve_left (by omega))⟩
  obtain ⟨n, f, hn, hround, hcanonical, hworth⟩ := roundWithAccuracy_mul_one .positive hm hshifted
  have hmul : mul .binary64 x.toModel.unpack y.toModel.unpack = .finite .positive n f hn := by
    rw [hunpack, hy, ← hround]
    show roundWithAccuracy .binary64 _ _ (e + (-52 - d)) _ = _
    congr 1
    omega
  -- scaled up again, both sides are the number that there was
  have hscaled : magnitude m (e - d) = magnitude k (0 - d) := by
    refine Nat.eq_of_mul_eq_mul_right (Nat.two_pow_pos d) ?_
    rw [magnitude_sub_mul m d (by omega), magnitude_sub_mul k d (by omega), hmagnitude]
  have hlimit : magnitude k (0 - d) < limit := hscaled ▸ hshifted.magnitude_lt (by omega)
  have hvalue : valueOf (.finite .positive n f hn) = magnitude k (0 - d) := by
    rw [valueOf, Sign.apply, hworth, hscaled]
  obtain ⟨hnumber, hunits⟩ := units_ofModel_pack (u := .finite .positive n f hn) hcanonical rfl
  rw [hvalue, cutOff] at hunits
  rw [← hmul] at hnumber hunits
  have hproduct : units (x * y) = magnitude k (0 - d) := hunits.trans (by omega)
  exact ⟨isFinite_iff.mpr ⟨hnumber, by omega, by omega⟩, hproduct⟩

end Double

namespace Draw

open Double

/-- **The fraction of a word** has the word's 53 top bits behind the point. -/
theorem units_fractionOfWord (w : UInt64) :
    (fractionOfWord w).isFinite = true ∧ units (fractionOfWord w) = magnitude (w.toNat / 2 ^ 11) (-53) := by
  have hw := w.toNat_lt
  have hbits : (w >>> 11).toNat = w.toNat / 2 ^ 11 := by
    rw [UInt64.toNat_shiftRight, Nat.shiftRight_eq_div_pow]
    rfl
  -- a zero has no leading bit that could be scaled, so it is looked at alone
  rcases Nat.eq_zero_or_pos (w >>> 11).toNat with hzero | hpos
  · have hnone : w >>> 11 = 0 := UInt64.toNat_inj.mp hzero
    have hworth : (fractionOfWord 0).isFinite = true ∧ units (fractionOfWord 0) = 0 := by decide
    have hsame : fractionOfWord w = fractionOfWord 0 := by
      unfold fractionOfWord
      rw [hnone]
      rfl
    rw [hsame, hworth.2, ← hbits, hzero]
    exact ⟨hworth.1, congrArg Nat.cast (Nat.zero_mul _).symm⟩
  · have hscale : (1.0 / 9007199254740992.0 : Float).toModel.unpack =
        .finite .positive (2 ^ 52) (-52 - (53 : Nat)) (by decide) := by rfl
    have hproduct := units_mul_two_pow (isWhole_toFloat (w := w >>> 11) (by omega)) hpos hscale (by decide)
    rw [hbits, show 0 - ((53 : Nat) : Int) = -53 from rfl] at hproduct
    exact hproduct

theorem fractionOfWord_nonneg (w : UInt64) : 0.0 ≤ fractionOfWord w := by
  obtain ⟨hfinite, hunits⟩ := units_fractionOfWord w
  refine nonneg_iff.mpr ⟨isNumber_of_isFinite hfinite, ?_⟩
  rw [hunits]
  exact Int.natCast_nonneg _

theorem fractionOfWord_lt_one (w : UInt64) : fractionOfWord w < 1.0 := by
  have hw := w.toNat_lt
  obtain ⟨hfinite, hunits⟩ := units_fractionOfWord w
  have hone : (1.0 : Float).isFinite = true ∧ units 1.0 = magnitude (2 ^ 53) (-53) := by decide +kernel
  refine lt_iff.mpr ⟨isNumber_of_isFinite hfinite, isNumber_of_isFinite hone.1, ?_⟩
  rw [hunits, hone.2]
  exact Int.ofNat_lt.mpr (magnitude_lt_left (by omega) _)

/-- A drawn fraction does not lie beyond one. -/
theorem within_fractionOfWord (w : UInt64) : Within (fractionOfWord w) 1 := by
  have hw := w.toNat_lt
  obtain ⟨hfinite, hunits⟩ := units_fractionOfWord w
  have hone : magnitude (1 * 2 ^ 53) (-53) = magnitude 1 0 := magnitude_mul_two_pow 1 53 (by decide)
  refine ⟨hfinite, ?_⟩
  rw [hunits, Int.natAbs_natCast, mul_unitsOfOne, ← hone]
  exact Nat.mul_le_mul_right _ (by omega)

/-- A fraction is zero just for the words without a bit among the 53 top ones. -/
theorem fractionOfWord_pos_iff (w : UInt64) : 0.0 < fractionOfWord w ↔ 2 ^ 11 ≤ w.toNat := by
  obtain ⟨hfinite, hunits⟩ := units_fractionOfWord w
  rw [pos_iff, hunits]
  constructor
  · rintro ⟨-, hpos⟩
    by_contra hsmall
    -- the eleven lowest bits are dropped, and nothing else is left of a small word
    rw [Nat.div_eq_of_lt (by omega)] at hpos
    have hnone : magnitude 0 (-53) = 0 := Nat.zero_mul _
    omega
  · intro hlarge
    have hbits : 0 < w.toNat / 2 ^ 11 := Nat.div_pos hlarge (by decide)
    exact ⟨isNumber_of_isFinite hfinite, Int.natCast_pos.mpr (magnitude_pos hbits _)⟩

/-- A zero, of either sign, is exceeded by all fractions that are not zero themselves. -/
theorem lt_fractionOfWord_iff {x : Float} (hx : (x == 0.0) = true) (w : UInt64) :
    x < fractionOfWord w ↔ 2 ^ 11 ≤ w.toNat := by
  obtain ⟨hnumber, -, hzero⟩ := beq_iff.mp hx
  rw [← fractionOfWord_pos_iff, lt_iff, pos_iff, hzero, units_zero]
  exact ⟨fun h => h.2, fun h => ⟨hnumber, h⟩⟩

end Draw
end Vivarium
