import Vivarium.Proofs.Scalar.Within

/-!
# Products of doubles that are not negative

Rounding is monotone whatever the exponents are, so products of doubles that are not negative are. That
includes products among the smallest doubles, of which rounding may leave nothing.

Main results: `Double.mul_le_mul_right`, `Double.mul_nonneg`.
-/

namespace Vivarium.Double

open Float.Model Float.Model.UnpackedFloat

/-! ## Rounding is monotone -/

theorem log2_mono {m n : Nat} (hm : 0 < m) (h : m ≤ n) : m.log2 ≤ n.log2 :=
  (Nat.le_log2 (by omega)).mpr ((Nat.log2_self_le (by omega)).trans h)

/-- Of two exact mantissas with their exponents, the larger one is not rounded to less. -/
theorem valueOf_roundWithAccuracy_mono {m n : Nat} {d e : Int} (hde : d ≤ e) (hm : 0 < m) (hn : 0 < n)
    (hle : m ≤ n * 2 ^ (e - d).toNat) (hd : d ≤ Format.binary64.targetExponent (totalExponent m d))
    (he : e ≤ Format.binary64.targetExponent (totalExponent n e)) :
    valueOf (roundWithAccuracy .binary64 .positive m d .exact) ≤
      valueOf (roundWithAccuracy .binary64 .positive n e .exact) := by
  obtain ⟨t, ht⟩ : ∃ t, t = Format.binary64.targetExponent (totalExponent m d) := ⟨_, rfl⟩
  obtain ⟨u, hu⟩ : ∃ u, u = Format.binary64.targetExponent (totalExponent n e) := ⟨_, rfl⟩
  obtain ⟨k, hk⟩ : ∃ k : Nat, d + k = t := ⟨(t - d).toNat, by omega⟩
  obtain ⟨l, hl⟩ : ∃ l : Nat, e + l = u := ⟨(u - e).toNat, by omega⟩
  obtain ⟨-, -, -, hvalue⟩ := roundWithAccuracy_nearest .positive (a := .exact) ht hk
  obtain ⟨hfilled, -, -, hvalue'⟩ := roundWithAccuracy_nearest .positive (a := .exact) hu hl
  have htarget : t = max ((m.log2 : Int) + 1 + d - 53) (-1074) := ht
  have htarget' : u = max ((n.log2 : Int) + 1 + e - 53) (-1074) := hu
  have hsmall := nearest_le_of_target htarget hk (le_quarters m .exact).2
  have hlog := log2_mono hm hle
  rw [log2_mul_two_pow hn] at hlog
  rw [hvalue, hvalue']
  refine Int.ofNat_le.mpr ?_
  rcases Int.lt_or_le t u with hlt | hge
  · -- the larger one has the larger exponent, and all its bits
    exact (Nat.mul_le_mul_right _ hsmall).trans
      (magnitude_le_of_exponent_lt (hfilled.resolve_left (by omega)) (by omega) hlt)
  · -- both have the same exponent, so that one number of places is rounded
    obtain rfl : u = t := by omega
    have hshift : k = l + (e - d).toNat := by omega
    refine Nat.mul_le_mul_right _ ?_
    calc nearest (dropBit^[k] (4 * m)) ≤ rounded (n * 2 ^ (e - d).toNat) k := rounded_mono k hle
      _ = nearest (dropBit^[l] (4 * n)) := by rw [hshift, rounded_mul_add]; rfl

/-! ## Products -/

section

variable {x y z : Float}

theorem mul_comm (x y : Float) : x * y = y * x := by
  have hcomm (u v : UnpackedFloat) : mul .binary64 u v = mul .binary64 v u := by
    cases u with
    | notANumber => cases v <;> rfl
    | infinity s =>
      cases v with
      | notANumber => rfl
      | zero t => rfl
      | infinity t => cases s <;> cases t <;> rfl
      | finite t n f hn => cases s <;> cases t <;> rfl
    | zero s =>
      cases v with
      | notANumber => rfl
      | infinity t => rfl
      | zero t => cases s <;> cases t <;> rfl
      | finite t n f hn => cases s <;> cases t <;> rfl
    | finite s m e hm =>
      cases v with
      | notANumber => rfl
      | infinity t => cases s <;> cases t <;> rfl
      | zero t => cases s <;> cases t <;> rfl
      | finite t n f hn =>
        -- two finite factors: exact products do not depend on the order, nor do signs
        show roundWithAccuracy .binary64 (s * t) (m * n) (e + f) .exact =
          roundWithAccuracy .binary64 (t * s) (n * m) (f + e) .exact
        rw [Nat.mul_comm, Int.add_comm]
        cases s <;> cases t <;> rfl
  exact congrArg (fun u => Float.ofModel (.pack u)) (hcomm x.toModel.unpack y.toModel.unpack)

/-- A product of positive doubles is the rounded product of their mantissas. -/
theorem units_mul_of_pos {m k : Nat} {d f : Int} {hm : 0 < m} {hk : 0 < k}
    (hx : x.toModel.unpack = .finite .positive m d hm) (hz : z.toModel.unpack = .finite .positive k f hk) :
    IsNumber (x * z) ∧
      units (x * z) = cutOff (valueOf (roundWithAccuracy .binary64 .positive (m * k) (d + f) .exact)) := by
  have hxproper := proper x
  have hzproper := proper z
  rw [hx] at hxproper
  rw [hz] at hzproper
  have htarget := le_targetExponent_mul hm hk hxproper.1 hzproper.1
  -- the product is rounded to an exponent that is not below its own
  obtain ⟨l, hl⟩ : ∃ l : Nat, d + f + l = Format.binary64.targetExponent (totalExponent (m * k) (d + f)) :=
    ⟨(Format.binary64.targetExponent (totalExponent (m * k) (d + f)) - (d + f)).toNat, by omega⟩
  obtain ⟨-, hcanonical, hnumber, -⟩ := roundWithAccuracy_nearest .positive (a := .exact) rfl hl
  have hproduct : x * z = .ofModel (.pack (mul .binary64 x.toModel.unpack z.toModel.unpack)) := rfl
  rw [hproduct, hx, hz]
  exact units_ofModel_pack hcanonical hnumber

/-- What is worth nothing times something finite is worth nothing. -/
theorem units_mul_of_zero (hx : x.isFinite = true) (hzero : units x = 0) (hy : y.isFinite = true) :
    IsNumber (x * y) ∧ units (x * y) = 0 := by
  obtain ⟨hnumber, hle⟩ := natAbs_units_mul_le_of_mul_le (b := 0) (p := 0) hx hy (by decide) (by decide)
    (by rw [hzero, Int.natAbs_zero, Nat.zero_mul]; exact Nat.zero_le _)
  rw [magnitude, Nat.zero_mul] at hle
  exact ⟨hnumber, by omega⟩

theorem mul_nonneg (hx : x.isFinite = true) (hx0 : 0 ≤ units x) (hy : y.isFinite = true)
    (hy0 : 0 ≤ units y) : 0.0 ≤ x * y := by
  rcases Int.lt_or_eq_of_le hx0 with hxpos | hxzero
  · -- two positive numbers: the product is positive, or has been rounded to a positive zero
    rcases Int.lt_or_eq_of_le hy0 with hypos | hyzero
    · obtain ⟨t, ht, hproduct⟩ :=
        signOf?_mul (signOf?_of_pos (pos_iff.mpr ⟨isNumber_of_isFinite hx, hxpos⟩)) hy hypos.ne'
      rw [signOf?_of_pos (pos_iff.mpr ⟨isNumber_of_isFinite hy, hypos⟩)] at ht
      cases ht
      exact nonneg_of_signOf? hproduct
    · obtain ⟨hnumber, hunits⟩ := units_mul_of_zero hy hyzero.symm hx
      rw [mul_comm]
      exact nonneg_iff.mpr ⟨hnumber, hunits.ge⟩
  · obtain ⟨hnumber, hunits⟩ := units_mul_of_zero hx hxzero.symm hy
    exact nonneg_iff.mpr ⟨hnumber, hunits.ge⟩

/-- **Products are monotone** where nothing is negative. -/
theorem mul_le_mul_right (hx : x.isFinite = true) (hx0 : 0 ≤ units x) (hy : y.isFinite = true)
    (hle : units x ≤ units y) (hz : z.isFinite = true) (hz0 : 0 ≤ units z) : x * z ≤ y * z := by
  have hproduct := mul_nonneg hy (by omega) hz hz0
  obtain ⟨hnumber, hnonneg⟩ := nonneg_iff.mp hproduct
  rcases Int.lt_or_eq_of_le hx0 with hxpos | hxzero
  · rcases Int.lt_or_eq_of_le hz0 with hzpos | hzzero
    · -- all are positive: the exact products are in order, and rounding keeps them so
      obtain ⟨m, d, hm, hunpack, ⟨hsettled, -⟩, hworth⟩ := unpack_of_pos hx hxpos
      obtain ⟨n, e, hn, hunpack', ⟨hsettled', -⟩, hworth'⟩ := unpack_of_pos hy (by omega)
      obtain ⟨k, f, hk, hunpack'', ⟨hsettled'', -⟩, -⟩ := unpack_of_pos hz hzpos
      have hmagnitude : magnitude m d ≤ magnitude n e := by omega
      have hde : d ≤ e := by
        by_contra hlt
        have := hsettled'.magnitude_lt_of_exponent_lt hsettled (by omega)
        omega
      have hmantissa : m ≤ n * 2 ^ (e - d).toNat := by
        refine Nat.le_of_mul_le_mul_right (hmagnitude.trans_eq ?_) (Nat.two_pow_pos (d + 1074).toNat)
        have hd := hsettled.le
        rw [magnitude, Nat.mul_assoc, ← Nat.pow_add]
        congr 2
        omega
      have hround := valueOf_roundWithAccuracy_mono (d := d + f) (e := e + f) (by omega)
        (Nat.mul_pos hm hk) (Nat.mul_pos hn hk) (by
          rw [show e + f - (d + f) = e - d by omega, Nat.mul_right_comm]
          exact Nat.mul_le_mul_right k hmantissa)
        (le_targetExponent_mul hm hk hsettled hsettled'') (le_targetExponent_mul hn hk hsettled' hsettled'')
      obtain ⟨hxnumber, hxunits⟩ := units_mul_of_pos hunpack hunpack''
      refine le_iff.mpr ⟨hxnumber, hnumber, ?_⟩
      rw [hxunits, (units_mul_of_pos hunpack' hunpack'').2]
      unfold cutOff
      omega
    · -- a product with zero is zero
      obtain ⟨hxnumber, hxunits⟩ := units_mul_of_zero hz hzzero.symm hx
      rw [mul_comm] at hxnumber hxunits
      exact le_iff.mpr ⟨hxnumber, hnumber, by omega⟩
  · obtain ⟨hxnumber, hxunits⟩ := units_mul_of_zero hx hxzero.symm hz
    exact le_iff.mpr ⟨hxnumber, hnumber, by omega⟩

end

end Vivarium.Double
