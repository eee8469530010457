import Vivarium.Proofs.Scalar.Doubling

/-!
# Doubles of natural numbers

The double of a natural number is the nearest one, however large the number is; it is finite for every
number that fits a word of 64 bits. Rounding commutes with doubling. Therefore twice the double of a number,
over the double of twice the number, is one, also where the doubles are rounded.

Main results: `Double.units_ofNat`, `Double.twice_ofNat_div`.
-/

namespace Vivarium

namespace Double

open Float.Model Float.Model.UnpackedFloat

section

variable {x y : Float}

/-! ## The nearest double -/

/-- A natural number of any size, as a decimal without a decimal point. -/
theorem ofScientific_spec {n : Nat} (hn : 0 < n) :
    Canonical (UnpackedFloat.ofScientific .binary64 n 0) ∧
      (UnpackedFloat.ofScientific .binary64 n 0).isNaN = false ∧
      valueOf (UnpackedFloat.ofScientific .binary64 n 0) = roundUnits (n * unitsOfOne) := by
  -- the number is shifted by 53 places first, so that none of its bits is lost before it is rounded
  have hshifted : 0 < n * 2 ^ 53 := Nat.mul_pos hn (by decide)
  have hexponent : (-53 : Int) ≤ Format.binary64.targetExponent (totalExponent (n * 2 ^ 53) (-53)) := by
    rw [targetExponent_eq, totalExponent, log2_mul_two_pow hn]
    omega
  obtain ⟨m, e, hm, hround, hsettled, hmagnitude⟩ :=
    roundWithAccuracy_spec .positive hshifted (by decide) hexponent
  have hproduct : UnpackedFloat.ofScientific .binary64 n 0 = .finite .positive m e hm := by
    have hbits : (2 : Int) ^ Format.binary64.exponentBits = 2048 := by decide
    rw [← hround]
    unfold UnpackedFloat.ofScientific
    rw [dif_neg (Nat.ne_of_gt hn), if_neg (by decide), if_neg (by omega), if_pos (by decide)]
    show roundWithAccuracy .binary64 (.positive * .positive) ((n <<< 53) * 1) (-53 + 0) .exact = _
    rw [Nat.shiftLeft_eq, Nat.mul_one]
    rfl
  rw [hproduct]
  refine ⟨hsettled, rfl, ?_⟩
  rw [valueOf, Sign.apply, hmagnitude, magnitude_mul_two_pow n 53 (by decide), mul_unitsOfOne]
  rfl

/-- **The double of a natural number** is the one that is nearest to it. -/
theorem units_ofNat (n : Nat) :
    IsNumber (Float.ofNat n) ∧ units (Float.ofNat n) = saturate (n * unitsOfOne) := by
  rcases Nat.lt_or_ge n (2 ^ 53) with hsmall | hlarge
  · -- small numbers keep all their bits
    obtain ⟨hfinite, hunits⟩ := isWhole_ofNat hsmall
    refine ⟨isNumber_of_isFinite hfinite, ?_⟩
    rw [saturate_mul_unitsOfOne (by omega), hunits]
  · -- what has more bits is rounded as a decimal with no fraction
    obtain ⟨hcanonical, hnumber, hvalue⟩ := ofScientific_spec (n := n) (by omega)
    have hslow : Float.ofNat n = .ofModel (.pack (UnpackedFloat.ofScientific .binary64 n 0)) := by
      show Float.ofScientific n false 0 = _
      unfold Float.ofScientific
      rw [dif_neg fun h => Nat.not_lt.mpr hlarge h.1]
      rfl
    rw [hslow, saturate, ← Int.natCast_mul, roundInt_natCast, ← hvalue]
    exact units_ofModel_pack hcanonical hnumber

theorem units_ofNat_of_lt {n : Nat} (hn : n < 2 ^ 64) :
    (Float.ofNat n).isFinite = true ∧ units (Float.ofNat n) = roundUnits (n * unitsOfOne) := by
  have hsettled : Settled (2 ^ 52) 12 := ⟨by decide, by decide, .inr (Nat.le_refl _)⟩
  -- the largest word rounds to a power of two, which is far below the limit
  have hle : n * unitsOfOne ≤ magnitude (2 ^ 52) 12 := by
    calc n * unitsOfOne = magnitude n 0 := mul_unitsOfOne n
      _ ≤ magnitude (2 ^ 52 * 2 ^ 12) 0 := Nat.mul_le_mul_right _ hn.le
      _ = magnitude (2 ^ 52) 12 := magnitude_mul_two_pow (2 ^ 52) 12 (by decide)
  have hround : roundUnits (n * unitsOfOne) ≤ magnitude (2 ^ 52) 12 :=
    (roundUnits_mono hle).trans_eq (roundUnits_of_fits (by decide) _)
  have hlimit := hsettled.magnitude_lt (by decide)
  obtain ⟨hnumber, hunits⟩ := units_ofNat n
  rw [saturate, ← Int.natCast_mul, roundInt_natCast, cutOff] at hunits
  exact ⟨isFinite_iff.mpr ⟨hnumber, by omega, by omega⟩, by omega⟩

theorem roundUnits_two_mul {n : Nat} (hn : 2 ^ 52 ≤ n) : roundUnits (2 * n) = 2 * roundUnits n := by
  have hpos : 0 < n := Nat.lt_of_lt_of_le (by decide) hn
  have hlog : 52 ≤ n.log2 := (Nat.le_log2 (Nat.ne_of_gt hpos)).mpr hn
  have hexcess : excess (n * 2 ^ 1) = excess n + 1 := by
    unfold excess
    rw [log2_mul_two_pow hpos]
    omega
  have hshifted : 2 * n = n * 2 ^ 1 := Nat.mul_comm 2 n
  rw [hshifted, roundUnits, hexcess, rounded_mul_add, roundUnits, Nat.pow_succ]
  ac_rfl

/-! ## Quotients of equals -/

/-- Doubles above zero that are worth the same are unpacked alike. -/
theorem unpack_eq_of_units (hx : x.isFinite = true) (hy : y.isFinite = true) (hpos : 0 < units x)
    (heq : units x = units y) : x.toModel.unpack = y.toModel.unpack := by
  obtain ⟨m, e, hm, hunpack, ⟨hsettled, -⟩, hworth⟩ := unpack_of_pos hx hpos
  obtain ⟨n, f, hn, hunpack', ⟨hsettled', -⟩, hworth'⟩ := unpack_of_pos hy (heq ▸ hpos)
  have hmagnitude : magnitude m e = magnitude n f := by omega
  have hcompare := hsettled.compare_eq hsettled'
  rw [hmagnitude, compare_eq_iff_eq.mpr rfl, Ordering.then_eq_eq] at hcompare
  obtain rfl := compare_eq_iff_eq.mp hcompare.1
  obtain rfl := compare_eq_iff_eq.mp hcompare.2
  rw [hunpack, hunpack']

theorem divCore_self {m : Nat} (hm : 0 < m) (e : Int) :
    divCore .binary64 m e m e = (2 ^ 53, -53, .exact) := by
  have htarget : Format.binary64.targetExponent 0 = -53 := by decide
  unfold divCore accuracyOfFraction
  simp only [Int.sub_self, htarget]
  rw [Nat.shiftLeft_eq, Nat.mul_div_cancel_left _ hm, Nat.mul_mod_right, if_pos rfl]
  rfl

theorem div_self_finite {m : Nat} (e : Int) (hm : 0 < m) :
    div .binary64 (.finite .positive m e hm) (.finite .positive m e hm) =
      roundWithAccuracy .binary64 (.positive / .positive) (2 ^ 53) (-53) .exact := by
  simp only [UnpackedFloat.div, divCore_self hm]

/-- **A quotient of equals is one.** -/
theorem div_eq_one (hx : x.isFinite = true) (hy : y.isFinite = true) (hpos : 0 < units x)
    (heq : units x = units y) : x / y = 1.0 := by
  obtain ⟨m, e, hm, hunpack, -, -⟩ := unpack_of_pos hx hpos
  show Float.ofModel (.pack (div .binary64 x.toModel.unpack y.toModel.unpack)) = 1.0
  rw [← unpack_eq_of_units hx hy hpos heq, hunpack, div_self_finite]
  decide +kernel

/-- **Twice a number over the number added to itself is one**, even where the doubles are rounded. -/
theorem twice_ofNat_div {n : Nat} (hpos : 0 < n) (hn : n + n < 2 ^ 64) :
    2.0 * Float.ofNat n / Float.ofNat (n + n) = 1.0 := by
  obtain ⟨hfinite, hunits⟩ := units_ofNat_of_lt (n := n) (by omega)
  obtain ⟨hfinite', hunits'⟩ := units_ofNat_of_lt hn
  -- a positive natural number has its bits far above the last place, so it does not round to zero
  have hlarge : 2 ^ 53 ≤ n * unitsOfOne := by
    rw [mul_unitsOfOne]
    calc 2 ^ 53 ≤ 2 ^ (0 + 1074 : Int).toNat := Nat.pow_le_pow_right (by decide) (by decide)
      _ ≤ magnitude n 0 := Nat.le_mul_of_pos_left _ hpos
  have hlow : 0 < roundUnits (n * unitsOfOne) := by
    have hmono := roundUnits_mono hlarge
    rw [← Nat.one_mul (2 ^ 53), roundUnits_of_fits (by decide) 53] at hmono
    omega
  -- doubling commutes with rounding, so the sum rounds to twice what its half rounds to
  have hsum : roundUnits ((n + n) * unitsOfOne) = 2 * roundUnits (n * unitsOfOne) := by
    rw [← Nat.two_mul, Nat.mul_assoc, roundUnits_two_mul (by omega)]
  have hroom := (isFinite_iff.mp hfinite').2.2
  obtain ⟨htwice, hdouble⟩ := units_two_mul hfinite (by omega) (by omega)
  exact div_eq_one htwice hfinite' (by omega) (by omega)

end

end Double

end Vivarium
