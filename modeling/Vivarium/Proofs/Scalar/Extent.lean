import Vivarium.Proofs.Scalar.Within
import Vivarium.Proofs.Steady

/-!
# Extents and their margins

An extent is the length of a side. A margin is what is kept free at either end of it, and never more than
half of it. Doubles do not take that for granted: half of an extent may have been rounded up, so that less
than that is left beside it, and an extent may be too wide to draw a real from. `Spacious` excludes both. It
holds of every extent that is not extremely small or large.

Main results: `Spacious.of_bounds`, `Spacious.closedReal_steady`.
-/

namespace Vivarium

namespace Double

open Float.Model Float.Model.UnpackedFloat

section

variable {x y z : Float}

/-- What more is taken from, less is left of. -/
theorem sub_le_sub_left (hx : x.isFinite = true) (h : y ≤ z) : x - z ≤ x - y := by
  obtain ⟨hy, hz, hle⟩ := le_iff.mp h
  have hneg : -z ≤ -y := by
    refine le_iff.mpr ⟨isNumber_neg hz, isNumber_neg hy, ?_⟩
    rw [units_neg, units_neg]
    omega
  rw [sub_eq_add_neg, sub_eq_add_neg, add_comm x, add_comm x]
  exact add_le_add_right hneg hx

theorem lesser_le_left (hx : IsNumber x) (y : Float) : lesser x y ≤ x := by
  unfold lesser
  rw [if_neg (by rw [hx]; exact Bool.false_ne_true)]
  split
  · exact le_of_lt ‹_›
  · exact le_refl hx

theorem lesser_le_right (x : Float) (hy : IsNumber y) : lesser x y ≤ y := by
  unfold lesser
  split
  · exact le_refl hy
  · rename_i hnumber
    split
    · exact le_refl hy
    · exact le_of_not_lt hy (Bool.eq_false_iff.mpr hnumber) ‹_›

/-- What a finite double other than zero is worth, by its mantissa and exponent. -/
theorem natAbs_units_of_ne_zero (hx : x.isFinite = true) (hne : units x ≠ 0) :
    ∃ m e, Settled m e ∧ (units x).natAbs = magnitude m e := by
  obtain ⟨s, m, e, hm, hunpack⟩ := unpack_of_ne_zero hx hne
  have hproper := proper x
  rw [hunpack] at hproper
  refine ⟨m, e, hproper.1, ?_⟩
  rw [units, hunpack]
  exact natAbs_valueOf_finite s hm

/-- Half of a double with an even worth is a double, and division does not lead beyond it. -/
theorem natAbs_units_half_le (hx : x.isFinite = true) (heven : 2 ∣ (units x).natAbs) :
    IsNumber (x / 2.0) ∧ (units (x / 2.0)).natAbs * 2 ≤ (units x).natAbs := by
  have htwo : units 2.0 = 2 * unitsOfOne := by decide +kernel
  have hone := unitsOfOne_pos
  -- one bit less of the exponent, or of the mantissa where the exponent is the smallest
  obtain ⟨b, p, hb, hp, hhalf⟩ : ∃ b p, b < 2 ^ 53 ∧ -1074 ≤ p ∧ magnitude b p * 2 = (units x).natAbs := by
    by_cases hzero : units x = 0
    · exact ⟨0, -1074, by decide, by decide, by rw [hzero]; rfl⟩
    · obtain ⟨m, e, hsettled, hworth⟩ := natAbs_units_of_ne_zero hx hzero
      rw [hworth] at heven ⊢
      by_cases hsmallest : e = -1074
      · subst hsmallest
        obtain ⟨k, hk⟩ := heven
        have hmantissa (n : Nat) : magnitude n (-1074) = n := Nat.mul_one n
        rw [hmantissa] at hk ⊢
        have hlt := hsettled.lt
        exact ⟨k, -1074, by omega, by decide, by rw [hmantissa]; omega⟩
      · have hle := hsettled.le
        refine ⟨m, e - 1, hsettled.lt, by omega, ?_⟩
        unfold magnitude
        rw [Nat.mul_assoc, ← Nat.pow_succ]
        congr 2
        omega
  obtain ⟨hnumber, hle⟩ := natAbs_units_div_le_of_mul_le (y := 2.0) hx (by decide +kernel) (by omega) hp hb (by
    rw [← hhalf, htwo]
    refine Nat.le_of_eq ?_
    rw [Int.natAbs_mul, Int.natAbs_natCast, Nat.mul_assoc]
    rfl)
  exact ⟨hnumber, by omega⟩

end

end Double

open Double

/-! ## Ranges that reals are drawn from -/

/-- The largest width of a range that a real can be drawn from. -/
def Draw.widest : Float := .ofBits 0x7feffffffffffffd

/-- A range that is not wider has a finite scale. -/
theorem Draw.isFinite_scale {x : Float} (hx : 0.0 ≤ x) (h : x ≤ widest) :
    (x / largestMantissa).isFinite = true := by
  have hwidest : widest.isFinite = true := by decide +kernel
  -- the quotient of the widest width is no larger than the largest double
  have hworth : (units widest).natAbs * unitsOfOne ≤
      magnitude (2 ^ 53 - 1) 971 * (units largestMantissa).natAbs := by
    decide +kernel
  have hlarge : magnitude (2 ^ 53 - 1) 971 < limit := by decide +kernel
  have hle : (units x).natAbs ≤ (units widest).natAbs := by
    have hbound := (le_iff.mp h).2.2
    have hnonneg := (nonneg_iff.mp hx).2
    omega
  obtain ⟨hnumber, hscale⟩ := natAbs_units_div_le_of_mul_le (isFinite_of_nonneg_of_le hx h hwidest)
    (by decide +kernel) (by decide +kernel) (by decide) (by decide)
    ((Nat.mul_le_mul_right _ hle).trans hworth)
  exact isFinite_iff.mpr ⟨hnumber, by omega, by omega⟩

/-- One step of the last bit beyond the widest range the scale overflows. -/
example : (Draw.widest / Draw.largestMantissa).isFinite = true ∧
    (Float.ofBits 0x7feffffffffffffe / Draw.largestMantissa).isFinite = false := by
  decide +kernel

/-! ## Spacious extents -/

/-- There is an extent, beside its half there is as much left, and a real can be drawn from the whole. -/
structure Spacious (extent : Float) : Prop where
  pos       : 0.0 < extent
  half_le   : extent / 2.0 ≤ extent - extent / 2.0
  le_widest : extent ≤ Draw.widest

instance (extent : Float) : Decidable (Spacious extent) :=
  decidable_of_iff (0.0 < extent ∧ extent / 2.0 ≤ extent - extent / 2.0 ∧ extent ≤ Draw.widest)
    ⟨fun h => ⟨h.1, h.2.1, h.2.2⟩, fun h => ⟨h.pos, h.half_le, h.le_widest⟩⟩

namespace Spacious

variable {extent margin : Float}

/-- **Every extent is spacious** that is neither extremely small nor extremely large. -/
theorem of_bounds (hlow : 1e-300 ≤ extent) (hhigh : extent ≤ Draw.widest) : Spacious extent := by
  have hfinite : extent.isFinite = true :=
    isFinite_of_le_of_le (by decide +kernel) hlow hhigh (by decide +kernel)
  have hlarge : (2 : Int) ^ 53 ≤ units extent :=
    Int.le_trans (by decide +kernel) (le_iff.mp hlow).2.2
  -- so large a double has all the bits of its mantissa, and an even worth
  have heven : 2 ∣ (units extent).natAbs := by
    obtain ⟨m, e, hsettled, hworth⟩ := natAbs_units_of_ne_zero hfinite (by omega)
    have hlt := hsettled.lt
    have hle := hsettled.le
    have hexponent : e ≠ -1074 := by
      rintro rfl
      rw [show magnitude m (-1074) = m from Nat.mul_one m] at hworth
      omega
    rw [hworth, magnitude, show (e + 1074).toNat = (e + 1073).toNat + 1 by omega, Nat.pow_succ, ← Nat.mul_assoc]
    exact Nat.dvd_mul_left 2 _
  obtain ⟨hnumber, hhalf⟩ := natAbs_units_half_le hfinite heven
  have hbounds := isFinite_iff.mp hfinite
  have hhalfFinite : (extent / 2.0).isFinite = true := isFinite_iff.mpr ⟨hnumber, by omega, by omega⟩
  obtain ⟨hrest, hworth⟩ := units_sub hfinite hhalfFinite
  have hpos : 0.0 < extent := pos_iff.mpr ⟨isNumber_of_isFinite hfinite, by omega⟩
  refine ⟨hpos, le_iff.mpr ⟨hnumber, hrest, ?_⟩, hhigh⟩
  rw [hworth, ← saturate_units hhalfFinite]
  exact saturate_mono (by rw [saturate_units hhalfFinite]; omega)

theorem isFinite (h : Spacious extent) : extent.isFinite = true :=
  isFinite_of_nonneg_of_le (Double.le_of_lt h.pos) h.le_widest (by decide +kernel)

/-- A margin of at most half of the extent is at most what is left beside it. -/
theorem margin_le (h : Spacious extent) (hmargin : margin ≤ extent / 2.0) :
    margin ≤ extent - margin :=
  Double.le_trans hmargin (Double.le_trans h.half_le (Double.sub_le_sub_left h.isFinite hmargin))

/-- **Between the margins a real can be drawn**, whatever margin was asked for. -/
theorem closedReal_steady (h : Spacious extent) (hmargin : 0.0 ≤ margin) (hfinite : margin.isFinite = true) :
    (Draw.closedReal (lesser margin (extent / 2.0)) (extent - lesser margin (extent / 2.0))).Steady := by
  have hextent := h.isFinite
  have hhalf : 0.0 ≤ extent / 2.0 :=
    Double.div_nonneg (signOf?_of_pos h.pos) (by decide +kernel) (by decide +kernel)
  have hle := lesser_le_right margin (nonneg_iff.mp hhalf).1
  have hnonneg : 0.0 ≤ lesser margin (extent / 2.0) := by
    rcases lesser_eq margin (extent / 2.0) with heq | heq <;> rw [heq] <;> assumption
  have hkept : (lesser margin (extent / 2.0)).isFinite = true :=
    isFinite_of_nonneg_of_le hnonneg (lesser_le_left (nonneg_iff.mp hmargin).1 _) hfinite
  generalize lesser margin (extent / 2.0) = kept at hle hnonneg hkept
  have hroom : kept ≤ extent - kept := h.margin_le hle
  have hrest := isFinite_sub hextent (Double.le_of_lt h.pos) hkept hnonneg
  -- the range is not wider than the extent
  have hwidth := Double.sub_nonneg hrest hkept (le_iff.mp hroom).2.2
  refine Draw.closedReal_steady hroom (Draw.isFinite_scale hwidth ?_)
  exact Double.le_trans (Double.sub_le_self hrest hnonneg hkept)
    (Double.le_trans (Double.sub_le_self hextent hnonneg hkept) h.le_widest)

end Spacious

/-- Of three times the smallest positive double, the half is rounded up to two of it. -/
example : ¬ Spacious (Float.ofBits 3) := by decide +kernel

end Vivarium
