import Vivarium.Proofs.Scalar.Within

/-!
# Twice and half

Twice a double is exact unless it is too large, and half of one is rounded only if it is one of the smallest.
So what is at most another number when it is doubled is at most half of it.

Main results: `Double.units_two_mul`, `Double.le_half`.
-/

namespace Vivarium.Double

open Float.Model Float.Model.UnpackedFloat

section

variable {x y : Float}

theorem magnitude_succ (m : Nat) {e : Int} (he : -1074 ≤ e) : magnitude m (e + 1) = 2 * magnitude m e := by
  have hshifted : magnitude (m * 2) e = magnitude m (e + 1) := magnitude_mul_two_pow m 1 he
  rw [← hshifted]
  unfold magnitude
  ac_rfl

theorem units_two : units 2.0 = 2 * unitsOfOne := (isWhole_ofNat (n := 2) (by decide)).2

theorem isFinite_two : (2.0 : Float).isFinite = true := by decide

theorem unpack_two : (2.0 : Float).toModel.unpack = .finite .positive (2 ^ 52) (-51) (by decide) := by rfl

/-- Packing does not lead below a bound, unless infinity does. -/
theorem le_units_ofModel_pack {u : UnpackedFloat} {n : Int}
    (h : Canonical u ∧ u.isNaN = false ∧ n ≤ valueOf u) :
    IsNumber (.ofModel (.pack u)) ∧ min (limit : Int) n ≤ units (.ofModel (.pack u)) := by
  obtain ⟨hcanonical, hnumber, hle⟩ := h
  obtain ⟨hpacked, hunits⟩ := units_ofModel_pack hcanonical hnumber
  have hlimit := limit_pos
  refine ⟨hpacked, ?_⟩
  rw [hunits, cutOff]
  omega

/-! ## Twice -/

theorem le_units_two_mul (hx : x.isFinite = true) (hpos : 0 < units x) :
    min (limit : Int) (2 * units x) ≤ units (2.0 * x) := by
  obtain ⟨m, e, hm, hunpack, ⟨hsettled, hle⟩, hworth⟩ := unpack_of_pos hx hpos
  have he := hsettled.le
  have hproduct : mul .binary64 (2.0 : Float).toModel.unpack x.toModel.unpack =
      roundWithAccuracy .binary64 .positive (2 ^ 52 * m) (-51 + e) .exact := by
    rw [unpack_two, hunpack]
    rfl
  -- two has a single bit, so the product needs no more bits than the other factor
  have htwo : Settled (2 ^ 52) (-51) := ⟨by decide, by decide, .inr (Nat.le_refl _)⟩
  have hround := le_roundWithAccuracy (a := .exact) (b := m) (p := e + 1)
    (le_targetExponent_mul (by decide) hm htwo hsettled) (by omega) hsettled.lt (by omega) (by
      rw [show e + 1 - (-51 + e) = (52 : Nat) by omega, Int.toNat_natCast, Nat.mul_comm])
  rw [← hproduct] at hround
  have hbound := (le_units_ofModel_pack hround).2
  rw [magnitude_succ m he] at hbound
  rw [hworth]
  exact hbound

/-- **Twice a positive double is exact** where it is finite. -/
theorem units_two_mul (hx : x.isFinite = true) (hpos : 0 < units x) (hroom : 2 * units x < limit) :
    (2.0 * x).isFinite = true ∧ units (2.0 * x) = 2 * units x := by
  obtain ⟨m, e, hm, -, ⟨hsettled, hle⟩, hworth⟩ := unpack_of_pos hx hpos
  have he := hsettled.le
  have hlow := le_units_two_mul hx hpos
  -- doubling adds one to the exponent, and the product is not cut off
  have hdouble := magnitude_succ m he
  obtain ⟨hnumber, hhigh⟩ := natAbs_units_mul_le_of_mul_le (b := m) (p := e + 1) isFinite_two hx
    (by omega) hsettled.lt (by
      rw [units_two, hdouble, hworth, Int.natAbs_natCast]
      refine Nat.le_of_eq ?_
      rw [Int.natAbs_mul, Int.natAbs_natCast]
      show 2 * unitsOfOne * magnitude m e = _
      ac_rfl)
  exact ⟨isFinite_iff.mpr ⟨hnumber, by omega, by omega⟩, by omega⟩

/-! ## Half -/

/-- What half of a double is worth at least, as a number of 53 bits that the quotient of the mantissas by that
of two does not lie below. -/
theorem exists_le_half {n k : Nat} {d f : Int} (hn : 0 < n) (hsettled : Settled n f) (hk : f = d + k + -51)
    (hlow : min (f - -51) (-1074) ≤ d) (hshifted : d ≤ -1074 ∨ (2 ^ 52).log2 + 53 ≤ n.log2 + k) :
    ∃ b p, -1074 ≤ p ∧ b < 2 ^ 53 ∧ d ≤ p ∧ b * 2 ^ (p - d).toNat ≤ n * 2 ^ k / 2 ^ 52 ∧
      magnitude n f / 2 ≤ magnitude b p := by
  have hf := hsettled.le
  have hlt := hsettled.lt
  have hlog := (Nat.log2_lt (k := 53) (Nat.ne_of_gt hn)).mpr hlt
  rw [Nat.log2_two_pow] at hshifted
  by_cases hsmallest : f = -1074
  · -- a bit of the mantissa is lost
    subst hsmallest
    obtain rfl : d = -1074 := by omega
    obtain rfl : k = 51 := by omega
    have hsame (m : Nat) : magnitude m (-1074) = m := Nat.mul_one m
    refine ⟨n / 2, -1074, by decide, by omega, by decide, ?_, ?_⟩
    · rw [Int.sub_self, Int.toNat_zero, Nat.pow_zero]
      omega
    · rw [hsame, hsame]
  · -- only the exponent falls
    have hshift : k = (f - 1 - d).toNat + 52 := by omega
    have hexact : n * 2 ^ k / 2 ^ 52 = n * 2 ^ (f - 1 - d).toNat := by
      rw [hshift, Nat.pow_add, ← Nat.mul_assoc, Nat.mul_div_cancel _ (by decide)]
    have hdouble := magnitude_succ n (e := f - 1) (by omega)
    rw [Int.sub_add_cancel] at hdouble
    exact ⟨n, f - 1, by omega, hlt, by omega, Nat.le_of_eq hexact.symm, by omega⟩

/-- The halves of a double come to all of it, but for the last place of one of the smallest. -/
theorem le_units_half (hy : y.isFinite = true) (hpos : 0 < units y) :
    IsNumber (y / 2.0) ∧ units y / 2 ≤ units (y / 2.0) := by
  obtain ⟨n, f, hn, hunpack, ⟨hsettled, -⟩, hworth⟩ := unpack_of_pos hy hpos
  have hfinite := (isFinite_iff.mp hy).2.2
  obtain ⟨d, k, hlow, hk, hshifted, hdiv⟩ := div_eq_round (e := f) (f := -51) .positive .positive hn
    (n := 2 ^ 52) (by decide)
  -- a quotient by two keeps a half of the mantissa, in full or shifted by one
  obtain ⟨b, p, hp, hb, hdp, hbound, hhalf⟩ := exists_le_half hn hsettled hk hlow hshifted
  have hquotient : div .binary64 y.toModel.unpack (2.0 : Float).toModel.unpack =
      roundWithAccuracy .binary64 .positive (n * 2 ^ k / 2 ^ 52) d
        (accuracyOfFraction (n * 2 ^ k % 2 ^ 52) (2 ^ 52)) := by
    rw [unpack_two, hunpack]
    exact hdiv
  have hround := le_roundWithAccuracy (a := accuracyOfFraction (n * 2 ^ k % 2 ^ 52) (2 ^ 52))
    (le_targetExponent_div hn (by decide) hshifted) hp hb hdp hbound
  rw [← hquotient] at hround
  obtain ⟨hnumber, hlow⟩ := le_units_ofModel_pack hround
  exact ⟨hnumber, Int.le_trans (by omega) hlow⟩

/-- **What is at most a number when it is doubled is at most half of that number.** -/
theorem le_half (hx : 0.0 < x) (hy : y.isFinite = true) (hle : 2.0 * x ≤ y) : x ≤ y / 2.0 := by
  obtain ⟨hxnumber, hxpos⟩ := pos_iff.mp hx
  have hbelow := (isFinite_iff.mp hy).2.2
  have hunits := (le_iff.mp hle).2.2
  -- an infinite number has no double below a finite one
  have hxfinite : x.isFinite = true := by
    by_contra hinfinite
    have hproduct : mul .binary64 (2.0 : Float).toModel.unpack x.toModel.unpack = .infinity .positive := by
      rw [unpack_two, unpack_of_nonneg_infinite hxnumber hinfinite hxpos.le]
      rfl
    have htwice : units (2.0 * x) = units (.ofModel (.pack (.infinity .positive))) :=
      congrArg (fun u => units (.ofModel (.pack u))) hproduct
    rw [(units_ofModel_pack_infinity .positive).2, Sign.apply] at htwice
    omega
  have hlow := le_units_two_mul hxfinite hxpos
  obtain ⟨hnumber, hhalf⟩ := le_units_half hy (by omega)
  exact le_iff.mpr ⟨hxnumber, hnumber, by omega⟩

end

end Vivarium.Double
