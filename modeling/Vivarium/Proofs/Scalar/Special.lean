import Vivarium.Proofs.Scalar.Within

/-!
# Zeros, infinities and what is no number

A double that equals zero is one of the two zeros. What is made of such doubles alone by subtraction, or by a
quotient and a sum, is worth nothing, if it is a number at all. And what is not finite does not become so by
sums and differences, nor by a division by something finite.

Main results: `Double.units_zero_div_add_zero`, `Double.isFinite_of_add`, `Double.isFinite_of_div`.
-/

namespace Vivarium.Double

open Float.Model Float.Model.UnpackedFloat

variable {x y z : Float}

/-! ## Zeros -/

theorem unpack_of_zero (hx : (x == 0.0) = true) : ∃ s, x.toModel.unpack = .zero s := by
  obtain ⟨hnumber, -, hunits⟩ := beq_iff.mp hx
  rw [units_zero] at hunits
  change x.toModel.unpack.isNaN = false at hnumber
  change valueOf x.toModel.unpack = 0 at hunits
  generalize x.toModel.unpack = u at hnumber hunits
  -- an infinity is worth the limit, and a finite number other than zero at least one unit
  cases u with
  | notANumber => cases hnumber
  | zero s => exact ⟨s, rfl⟩
  | infinity s =>
    have hlimit := limit_pos
    cases s <;> simp only [valueOf, Sign.apply] at hunits <;> omega
  | finite s m e hm =>
    have hpos := magnitude_pos hm e
    cases s <;> simp only [valueOf, Sign.apply] at hunits <;> omega

theorem sub_of_zero (hx : (x == 0.0) = true) (hy : (y == 0.0) = true) : (x - y == 0.0) = true := by
  have hfinite {v : Float} (hv : (v == 0.0) = true) : v.isFinite = true := by
    obtain ⟨s, hs⟩ := unpack_of_zero hv
    show v.toModel.unpack.isFinite = true
    rw [hs]
    rfl
  -- zero units less zero units are none
  obtain ⟨hnumber, hunits⟩ := units_sub (hfinite hx) (hfinite hy)
  rw [(beq_iff.mp hx).2.2, (beq_iff.mp hy).2.2, Int.sub_self, saturate_zero] at hunits
  exact beq_iff.mpr ⟨hnumber, isNumber_zero, hunits.trans units_zero.symm⟩

/-- A quotient of zero and a sum with zero is no number, or worth nothing. -/
theorem units_zero_div_add_zero (hx : (x == 0.0) = true) (hz : (z == 0.0) = true)
    (hnumber : IsNumber (x / y + z)) : units (x / y + z) = 0 := by
  obtain ⟨s, hs⟩ := unpack_of_zero hx
  obtain ⟨t, ht⟩ := unpack_of_zero hz
  have hquotient : (x / y).toModel.unpack = .notANumber ∨ ∃ r, (x / y).toModel.unpack = .zero r := by
    show unpack .binary64 (pack .binary64 (div .binary64 x.toModel.unpack y.toModel.unpack)) = _ ∨
      ∃ r, unpack .binary64 (pack .binary64 (div .binary64 x.toModel.unpack y.toModel.unpack)) = _
    rw [hs]
    cases y.toModel.unpack with
    | notANumber => exact .inl (Proper.unpack_pack (u := .notANumber) trivial)
    | zero r => exact .inl (Proper.unpack_pack (u := .notANumber) trivial)
    | infinity r => exact .inr ⟨s * r, Proper.unpack_pack (u := .zero (s * r)) trivial⟩
    | finite r m e hm => exact .inr ⟨s * r, Proper.unpack_pack (u := .zero (s * r)) trivial⟩
  have hsum : x / y + z = .ofModel (.pack (add .binary64 (x / y).toModel.unpack z.toModel.unpack)) := rfl
  rcases hquotient with hnone | ⟨r, hr⟩
  · -- what is no number stays so
    have hnan : (x / y + z).toModel.unpack = .notANumber := by
      rw [hsum, hnone]
      exact Proper.unpack_pack (u := .notANumber) trivial
    change (x / y + z).toModel.unpack.isNaN = false at hnumber
    rw [hnan] at hnumber
    cases hnumber
  · rw [hsum, hr, ht]
    have hadd : ∃ q, add .binary64 (.zero r) (.zero t) = .zero q := by cases r <;> cases t <;> exact ⟨_, rfl⟩
    obtain ⟨q, hq⟩ := hadd
    rw [hq]
    exact congrArg valueOf (Proper.unpack_pack (u := .zero q) trivial)

/-! ## What is finite -/

/-- What is not finite is not packed as something finite. -/
theorem isFinite_ofModel_pack {u : UnpackedFloat} (h : (Float.ofModel (.pack u)).isFinite = true) :
    u.isFinite = true := by
  change (unpack .binary64 (pack .binary64 u)).isFinite = true at h
  -- a rounded number may overflow when it is packed, but nothing that is not finite is packed as a number
  cases u with
  | notANumber =>
    rw [Proper.unpack_pack (u := .notANumber) trivial] at h
    cases h
  | infinity s =>
    rw [Proper.unpack_pack (u := .infinity s) trivial] at h
    cases h
  | zero s => rfl
  | finite s m e hm => rfl

/-- A finite sum is one of finite doubles. -/
theorem isFinite_of_add (h : (x + y).isFinite = true) : x.isFinite = true ∧ y.isFinite = true := by
  have hsum : (add .binary64 x.toModel.unpack y.toModel.unpack).isFinite = true := isFinite_ofModel_pack h
  show x.toModel.unpack.isFinite = true ∧ y.toModel.unpack.isFinite = true
  generalize x.toModel.unpack = u at hsum
  generalize y.toModel.unpack = v at hsum
  -- a sum with an infinity is infinite, or no number
  cases u with
  | notANumber => cases v <;> cases hsum
  | infinity s =>
    cases v with
    | infinity t => cases s <;> cases t <;> cases hsum
    | _ => cases hsum
  | zero s => cases v <;> first | exact ⟨rfl, rfl⟩ | cases hsum
  | finite s m e hm => cases v <;> first | exact ⟨rfl, rfl⟩ | cases hsum

theorem isFinite_of_sub (h : (x - y).isFinite = true) : x.isFinite = true ∧ y.isFinite = true := by
  rw [sub_eq_add_neg] at h
  obtain ⟨hx, hy⟩ := isFinite_of_add h
  change (-y).toModel.unpack.isFinite = true at hy
  rw [unpack_neg] at hy
  refine ⟨hx, ?_⟩
  show y.toModel.unpack.isFinite = true
  generalize y.toModel.unpack = v at hy
  cases v with
  | notANumber => cases hy
  | infinity s => cases hy
  | _ => rfl

/-- A finite quotient by something finite is one of something finite. -/
theorem isFinite_of_div (h : (x / y).isFinite = true) (hy : y.isFinite = true) : x.isFinite = true := by
  have hquotient : (div .binary64 x.toModel.unpack y.toModel.unpack).isFinite = true :=
    isFinite_ofModel_pack h
  change y.toModel.unpack.isFinite = true at hy
  show x.toModel.unpack.isFinite = true
  generalize x.toModel.unpack = u at hquotient
  generalize y.toModel.unpack = v at hquotient hy
  cases u with
  | notANumber => cases v <;> cases hquotient
  -- an infinity divided by anything finite stays one
  | infinity s =>
    cases v with
    | notANumber => cases hy
    | infinity t => cases hy
    | zero t => cases hquotient
    | finite t n f hn => cases hquotient
  | zero s => rfl
  | finite s m e hm => rfl

end Vivarium.Double
