import Vivarium.Proofs.Random.Attempts
import Vivarium.Proofs.Random.Fraction
import Vivarium.Proofs.Scalar.Bits
import Vivarium.Proofs.Scalar.Doubling
import Vivarium.Proofs.Scalar.Products
import Vivarium.Proofs.Scalar.Special

/-!
# Reals of a closed range

A real of a closed range is the fraction of a word, scaled to the size of the range and moved to its lower end.
The scale is the first one, going down by single steps, under which not even the largest fraction leads
beyond the upper end, and so no fraction does. Such a scale is found long before the steps run out: what
rounding adds is less than a factor of four, and within two mantissas' worth of steps a scale is
quartered, or else is zero.

Main result: `Draw.closedReal_bounds`.
-/

namespace Vivarium

namespace Double

open Float.Model Float.Model.UnpackedFloat

variable {x y : Float}

/-- Rounding less than doubles. -/
theorem roundUnits_le_two_mul (n : Nat) : roundUnits n ≤ 2 * n := by
  rcases Nat.eq_zero_or_pos n with rfl | hn
  · exact (roundUnits_of_lt (by decide)).le
  · have hpower := roundUnits_of_fits (k := 1) (by decide) (n.log2 + 1)
    rw [Nat.one_mul] at hpower
    calc roundUnits n ≤ roundUnits (2 ^ (n.log2 + 1)) := roundUnits_mono Nat.lt_log2_self.le
      _ = 2 * 2 ^ n.log2 := by rw [hpower, Nat.pow_succ, Nat.mul_comm]
      _ ≤ 2 * n := Nat.mul_le_mul_left 2 (Nat.log2_self_le hn.ne')

theorem saturate_le_two_mul {n : Int} (hn : 0 ≤ n) : saturate n ≤ 2 * n := by
  obtain ⟨m, rfl⟩ := Int.eq_ofNat_of_zero_le hn
  have hround := roundUnits_le_two_mul m
  rw [saturate, roundInt_natCast, cutOff]
  omega

/-- A finite double that is not negative is a mantissa of 53 bits with an exponent. -/
theorem exists_magnitude (hx : x.isFinite = true) (hnonneg : 0 ≤ units x) :
    ∃ m e, m < 2 ^ 53 ∧ -1074 ≤ e ∧ units x = magnitude m e := by
  rcases Int.lt_or_eq_of_le hnonneg with hpos | hzero
  · obtain ⟨m, e, hm, -, ⟨hsettled, -⟩, hworth⟩ := unpack_of_pos hx hpos
    exact ⟨m, e, hsettled.lt, hsettled.le, hworth⟩
  · exact ⟨0, 0, by decide, by decide, hzero.symm.trans (congrArg Nat.cast (Nat.zero_mul _).symm)⟩

end Double

namespace Draw

open Double

/-- Under this scale no fraction leads above `hi`. -/
def Fits (lo hi scale : Float) : Prop := ¬ scale * largestMantissa + lo > hi

instance (lo hi scale : Float) : Decidable (Fits lo hi scale) := inferInstanceAs (Decidable (¬ _))

/-- A single step of the last bit down. -/
def stepDown (x : Float) : Float := .ofBits (x.toBits - 1)

theorem toBits_stepDown {x : Float} (hlt : x.toBits.toNat < infinityBits) (hpos : 0 < x.toBits.toNat) :
    (stepDown x).toBits.toNat = x.toBits.toNat - 1 := by
  have hle : (1 : UInt64) ≤ x.toBits := UInt64.le_iff_toNat_le.mpr hpos
  have hpred : (x.toBits - 1).toNat = x.toBits.toNat - 1 := UInt64.toNat_sub_of_le _ _ hle
  rw [stepDown, toBits_ofBits (by omega), hpred]

theorem toBits_stepDown_iterate {x : Float} (hlt : x.toBits.toNat < infinityBits) {k : Nat}
    (hk : k ≤ x.toBits.toNat) : (stepDown^[k] x).toBits.toNat = x.toBits.toNat - k := by
  induction k with
  | zero => rfl
  | succ k ih =>
    have hprevious := ih (by omega)
    rw [Function.iterate_succ_apply', toBits_stepDown (by omega) (by omega), hprevious]
    omega

/-- **The scale is found** if some number of steps leads to one, and fewer are taken at most. -/
theorem fitScale_fits {lo hi : Float} {k fuel : Nat} (hk : k < fuel) (scale : Float)
    (hfits : Fits lo hi (stepDown^[k] scale)) :
    ∃ j ≤ k, fitScale lo hi scale fuel = stepDown^[j] scale ∧ Fits lo hi (stepDown^[j] scale) := by
  -- the induction is on the steps down that are needed, over the scale reached so far
  induction k generalizing fuel scale with
  | zero =>
    obtain ⟨fuel, rfl⟩ := Nat.exists_eq_add_one_of_ne_zero (by omega : fuel ≠ 0)
    exact ⟨0, Nat.le_refl 0, if_neg hfits, hfits⟩
  | succ k ih =>
    obtain ⟨fuel, rfl⟩ := Nat.exists_eq_add_one_of_ne_zero (by omega : fuel ≠ 0)
    by_cases hnow : Fits lo hi scale
    · exact ⟨0, Nat.zero_le _, if_neg hnow, hnow⟩
    · obtain ⟨j, hj, hfound, hfit⟩ := ih (by omega : k < fuel) (stepDown scale) hfits
      exact ⟨j + 1, by omega, (if_pos (Decidable.not_not.mp hnow)).trans hfound, hfit⟩

/-! ## Fractions and scales -/

theorem units_largestMantissa :
    largestMantissa.isFinite = true ∧ units largestMantissa = magnitude (2 ^ 52 - 1) (-52) := by
  have hlargest := units_mantissaOfWord 0xffffffffffffffff
  exact hlargest

theorem units_mantissaOfWord_nonneg (w : UInt64) : 0 ≤ units (mantissaOfWord w) := by
  rw [(units_mantissaOfWord w).2]
  exact Int.natCast_nonneg _

theorem units_mantissaOfWord_le (w : UInt64) : units (mantissaOfWord w) ≤ units largestMantissa := by
  have hw := w.toNat_lt
  rw [(units_mantissaOfWord w).2, units_largestMantissa.2]
  exact Int.ofNat_le.mpr (Nat.mul_le_mul_right _ (by omega))

section

variable {lo hi scale : Float}

/-- A scale that is no larger than the range fits. -/
theorem fits_of_le (hlo : lo.isFinite = true) (hhi : hi.isFinite = true) (hscale : scale.isFinite = true)
    (hnonneg : 0 ≤ units scale) (hle : units scale ≤ units hi - units lo) : Fits lo hi scale := by
  have hone : (1.0 : Float).isFinite = true := isFinite_one
  have hfraction : units largestMantissa ≤ units 1.0 := by
    rw [units_largestMantissa.2, units_one]
    exact Int.ofNat_le.mpr (Nat.mul_le_mul_right _ (by omega))
  have hlargest := units_mantissaOfWord_nonneg 0xffffffffffffffff
  -- no fraction of the scale is larger than the scale
  have hproduct : scale * largestMantissa ≤ scale * 1.0 := by
    rw [mul_comm scale, mul_comm scale]
    exact mul_le_mul_right units_largestMantissa.1 hlargest hone hfraction hscale hnonneg
  obtain ⟨hnumber, hsame⟩ := units_mul_one hscale
  have hbelow : scale * largestMantissa ≤ scale :=
    le_trans hproduct (le_iff.mpr ⟨hnumber, isNumber_of_isFinite hscale, hsame.le⟩)
  have hpositive := mul_nonneg hscale hnonneg units_largestMantissa.1 hlargest
  have hfinite := isFinite_of_nonneg_of_le hpositive hbelow hscale
  -- so the exact sum does not lie beyond the upper end, and rounding is monotone
  obtain ⟨hsum, hunits⟩ := units_add hfinite hlo
  refine not_lt_of_le (le_iff.mpr ⟨hsum, isNumber_of_isFinite hhi, ?_⟩)
  rw [hunits, ← saturate_units hhi]
  have := (le_iff.mp hbelow).2.2
  exact saturate_mono (by omega)

/-- **A scaled and moved fraction stays in the range** if the scale fits. -/
theorem bounds_of_fits (hlo : lo.isFinite = true) (hhi : hi.isFinite = true) (hscale : scale.isFinite = true)
    (hnonneg : 0 ≤ units scale) (hfits : Fits lo hi scale) (w : UInt64) :
    lo ≤ mantissaOfWord w * scale + lo ∧ mantissaOfWord w * scale + lo ≤ hi := by
  obtain ⟨hfraction, -⟩ := units_mantissaOfWord w
  have hproduct := mul_nonneg hfraction (units_mantissaOfWord_nonneg w) hscale hnonneg
  -- no mantissa is larger than the largest one, so no draw is larger than what was tested
  have hmono : mantissaOfWord w * scale ≤ scale * largestMantissa := by
    rw [mul_comm scale]
    exact mul_le_mul_right hfraction (units_mantissaOfWord_nonneg w) units_largestMantissa.1
      (units_mantissaOfWord_le w) hscale hnonneg
  have hupper := add_le_add_right hmono hlo
  constructor
  · have hlower := add_le_add_right hproduct hlo
    rw [Double.add_comm 0.0] at hlower
    obtain ⟨hzero, hsame⟩ := units_add_zero hlo
    exact le_trans (le_iff.mpr ⟨isNumber_of_isFinite hlo, hzero, hsame.ge⟩) hlower
  · exact le_trans hupper (le_of_not_lt (isNumber_of_isFinite hhi) (le_iff.mp hupper).2.1 hfits)

/-- What rounding makes of the scale is less than four times the range. -/
theorem units_scale_le (hlo : lo.isFinite = true) (hhi : hi.isFinite = true)
    (hle : units lo ≤ units hi) (hsize : (hi - lo).isFinite = true) :
    0 ≤ units ((hi - lo) / largestMantissa) ∧
      units ((hi - lo) / largestMantissa) ≤ 4 * (units hi - units lo) := by
  obtain ⟨hlargest, hunits⟩ := units_largestMantissa
  have hpositive : 0 < units largestMantissa := by
    rw [hunits]
    exact Int.natCast_pos.mpr (magnitude_pos (by decide) _)
  have hrounded : units (hi - lo) ≤ 2 * (units hi - units lo) :=
    (units_sub hhi hlo).2.trans_le (saturate_le_two_mul (by omega))
  have hnonneg := (nonneg_iff.mp (sub_nonneg hhi hlo hle)).2
  obtain ⟨m, e, hm, he, hworth⟩ := exists_magnitude hsize hnonneg
  have hdouble := magnitude_succ m he
  -- the largest fraction is more than a half
  have hhalf : unitsOfOne ≤ 2 * magnitude (2 ^ 52 - 1) (-52) := by
    have hone : magnitude (1 * 2 ^ 52) (-52) = magnitude 1 0 := magnitude_mul_two_pow 1 52 (by decide)
    unfold unitsOfOne
    rw [← hone]
    unfold magnitude
    generalize 2 ^ (-52 + 1074 : Int).toNat = a
    omega
  obtain ⟨hnumber, hquotient⟩ := natAbs_units_div_le_of_mul_le (b := m) (p := e + 1) hsize hlargest
    hpositive.ne' (by omega) hm (by
      rw [hworth, hunits, Int.natAbs_natCast, Int.natAbs_natCast, hdouble, Nat.mul_comm 2, Nat.mul_assoc]
      exact Nat.mul_le_mul_left _ hhalf)
  have hsign : 0 ≤ units ((hi - lo) / largestMantissa) := by
    rcases Int.lt_or_eq_of_le hnonneg with hpos | hzero
    · have hsigned := signOf?_of_pos (pos_iff.mpr ⟨isNumber_of_isFinite hsize, hpos⟩)
      have hlargestPos := pos_iff.mpr ⟨isNumber_of_isFinite hlargest, hpositive⟩
      exact (nonneg_iff.mp (div_nonneg hsigned hlargestPos hlargest)).2
    · omega
  exact ⟨hsign, by omega⟩

/-- **A scale that fits is found.** -/
theorem fitScale_of_range (hlo : lo.isFinite = true) (hhi : hi.isFinite = true)
    (hscale : scale.isFinite = true) (hnonneg : 0 ≤ units scale)
    (hbound : units scale ≤ 4 * (units hi - units lo)) :
    (fitScale lo hi scale patience).isFinite = true ∧ 0 ≤ units (fitScale lo hi scale patience) ∧
      Fits lo hi (fitScale lo hi scale patience) := by
  by_cases hnow : Fits lo hi scale
  · obtain ⟨fuel, hfuel⟩ := patience_eq
    have hfound : fitScale lo hi scale patience = scale := by
      rw [hfuel]
      exact if_neg hnow
    rw [hfound]
    exact ⟨hscale, hnonneg, hnow⟩
  · have hpos : 0 < units scale := by
      by_contra hnone
      exact hnow (fits_of_le hlo hhi hscale hnonneg (by omega))
    have hbits := toBits_lt_of_pos hscale hpos
    obtain ⟨-, hworth⟩ := units_of_toBits hbits
    have hsteps {k : Nat} (hk : k ≤ scale.toBits.toNat) :
        (stepDown^[k] scale).isFinite = true ∧
          units (stepDown^[k] scale) = worth (scale.toBits.toNat - k) := by
      have hdown := toBits_stepDown_iterate hbits hk
      rw [← hdown]
      exact units_of_toBits (by omega)
    -- a scale that is small enough lies so many steps down
    obtain ⟨k, hk, hlt, hsmall⟩ : ∃ k ≤ scale.toBits.toNat, k < patience ∧
        (worth (scale.toBits.toNat - k) : Int) ≤ units hi - units lo := by
      rcases Nat.lt_or_ge scale.toBits.toNat (3 * 2 ^ 52) with hfew | hmany
      · refine ⟨scale.toBits.toNat, Nat.le_refl _, Nat.lt_trans hfew (by decide), ?_⟩
        rw [Nat.sub_self]
        have hzero : worth 0 = 0 := rfl
        omega
      · refine ⟨2 * 2 ^ 52, by omega, by decide, ?_⟩
        have hquarter := worth_sub hmany
        omega
    obtain ⟨hfinite, hunits⟩ := hsteps hk
    obtain ⟨j, hj, hfound, hfit⟩ := fitScale_fits hlt scale
      (fits_of_le hlo hhi hfinite (by omega) (by omega))
    obtain ⟨hfinite', hunits'⟩ := hsteps (hj.trans hk)
    rw [hfound]
    exact ⟨hfinite', by omega, hfit⟩

end

/-- **A real of a closed range** lies in it. -/
theorem closedReal_bounds (lo hi : Float) : (closedReal lo hi).Ensures fun x => lo ≤ x ∧ x ≤ hi := by
  intro s x s' hrun
  unfold closedReal at hrun
  split at hrun
  · rename_i hle
    dsimp only at hrun
    split at hrun
    · rename_i hscale
      cases hrun
      -- a finite scale is that of a finite range
      have hsize := isFinite_of_div hscale units_largestMantissa.1
      obtain ⟨hhi, hlo⟩ := isFinite_of_sub hsize
      obtain ⟨hnonneg, hbound⟩ := units_scale_le hlo hhi (le_iff.mp hle).2.2 hsize
      obtain ⟨hfinite, hsign, hfits⟩ := fitScale_of_range hlo hhi hscale hnonneg hbound
      exact bounds_of_fits hlo hhi hfinite hsign hfits s.next64.1
    · cases hrun
  · cases hrun

end Draw

end Vivarium
