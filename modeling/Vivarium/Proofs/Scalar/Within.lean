import Vivarium.Proofs.Scalar.Whole

/-!
# Doubles within a whole bound

Products and quotients are not whole numbers of the smallest subnormal, so rounding them is more than
`roundUnits`. But rounding does not lead beyond a double, and whole numbers are doubles: what is bounded
by one stays so, whatever the operations. That is enough to say of a longer computation that it stays in
a range, and that nothing in it overflows.

Main results: `Within.mul`, `within_div`.
-/

namespace Vivarium.Double

open Float.Model Float.Model.UnpackedFloat

/-! ## Rounding -/

/-- A mantissa with what is known of the bits behind it lies between itself and the next one. -/
theorem le_quarters (m : Nat) (a : Accuracy) :
    4 * m ≤ quarters (.ofMantissaAndAccuracy m a) ∧ quarters (.ofMantissaAndAccuracy m a) < 4 * (m + 1) := by
  rcases a with _ | (_ | _ | _) <;>
    simp only [quarters, ExtendedMantissa.ofMantissaAndAccuracy, Bool.toNat_true, Bool.toNat_false] <;>
    omega

/-- No shift makes anything of a mantissa of zero. -/
theorem mantissa_shiftRight_zero (s : Nat) :
    ((ExtendedMantissa.ofMantissaAndAccuracy 0 .exact) >>> s).mantissa = 0 := by
  have hquarters := quarters_shiftRight (.ofMantissaAndAccuracy 0 .exact) s
  have hzero := dropBit_iterate_mul 0 s
  rw [Nat.zero_mul] at hzero
  rw [show quarters (.ofMantissaAndAccuracy 0 .exact) = 4 * 0 from rfl, hzero, quarters] at hquarters
  omega

/-- If nothing is left of the mantissa, rounding leaves a zero. -/
theorem roundWithAccuracy_of_zero (s : Sign) {m k : Nat} {e : Int} {a : Accuracy}
    (hk : k = (Format.binary64.targetExponent (totalExponent m e) - e).toNat)
    (hr : ((ExtendedMantissa.ofMantissaAndAccuracy m a) >>> k).roundedMantissa = 0) :
    roundWithAccuracy .binary64 s m e a = .zero s := by
  unfold roundWithAccuracy
  rw [show shiftToTargetExponent .binary64 m e a =
    ((ExtendedMantissa.ofMantissaAndAccuracy m a) >>> k, e + k) by
      rw [hk]; rfl]
  dsimp only
  rw [hr]
  exact dif_pos (mantissa_shiftRight_zero _)

section

variable {m q b k : Nat} {e t p : Int}

/-- Shifted to its target exponent, a mantissa has 53 bits at most. -/
theorem nearest_le_of_target (htarget : t = max ((m.log2 : Int) + 1 + e - 53) (-1074)) (hk : e + k = t)
    (hhigh : q < 4 * (m + 1)) : nearest (dropBit^[k] q) ≤ 2 ^ 53 := by
  refine nearest_iterate_le (hhigh.le.trans (Nat.mul_le_mul_left 4 ?_))
  calc m + 1 ≤ 2 ^ (m.log2 + 1) := Nat.lt_log2_self
    _ ≤ 2 ^ (53 + k) := Nat.pow_le_pow_right (by decide) (by omega)
    _ = 2 ^ 53 * 2 ^ k := Nat.pow_add 2 53 k

/-- It has no fewer, unless the target is the smallest exponent. -/
theorem le_mantissa_of_target (htarget : t = max ((m.log2 : Int) + 1 + e - 53) (-1074)) (hk : e + k = t)
    (ht : t ≠ -1074) : 2 ^ (52 + k) ≤ m := by
  have hm : m ≠ 0 := by
    rintro rfl
    rw [Nat.log2_zero] at htarget
    omega
  rw [← Nat.le_log2 hm]
  omega

/-- The target does not lie beyond the exponent of a bound of 53 bits: the mantissa would be too large. -/
theorem target_le_of_bound (htarget : t = max ((m.log2 : Int) + 1 + e - 53) (-1074)) (hk : e + k = t)
    (he : -2148 ≤ e) (hp : -1074 ≤ p) (hb : b < 2 ^ 53) (hlow : 4 * m ≤ q)
    (hbound : q * 2 ^ (e + 2148).toNat ≤ 4 * b * 2 ^ (p + 2148).toNat) : t ≤ p := by
  -- a larger target leaves a full mantissa, which the bound has no room for
  by_contra hlt
  have hm := le_mantissa_of_target htarget hk (by omega)
  have hexp : 2 ^ (53 + (p + 2148).toNat) ≤ 2 ^ (52 + k + (e + 2148).toNat) :=
    Nat.pow_le_pow_right (by decide) (by omega)
  have hproduct := Nat.mul_le_mul_right (2 ^ (e + 2148).toNat) hm
  have hstrict := Nat.mul_lt_mul_of_pos_right hb (Nat.two_pow_pos (p + 2148).toNat)
  have hquarters := Nat.mul_le_mul_right (2 ^ (e + 2148).toNat) hlow
  rw [Nat.pow_add 2 53] at hexp
  rw [Nat.pow_add 2 (52 + k)] at hexp
  rw [Nat.mul_assoc] at hquarters hbound
  omega

/-- So the bound is a number of the target exponent, and rounding does not lead beyond it. -/
theorem magnitude_nearest_le (hk : e + k = t) (he : -2148 ≤ e) (ht : -1074 ≤ t) (htp : t ≤ p)
    (hbound : q * 2 ^ (e + 2148).toNat ≤ 4 * b * 2 ^ (p + 2148).toNat) :
    magnitude (nearest (dropBit^[k] q)) t ≤ magnitude b p := by
  -- bits are dropped on the left until both sides have the target's exponent
  have hexp : (p + 2148).toNat = (p - t).toNat + k + (e + 2148).toNat := by omega
  have hq : q ≤ 4 * (b * 2 ^ (p - t).toNat * 2 ^ k) := by
    refine Nat.le_of_mul_le_mul_right (hbound.trans_eq ?_) (Nat.two_pow_pos (e + 2148).toNat)
    rw [hexp, Nat.pow_add, Nat.pow_add]
    simp only [Nat.mul_assoc]
  calc magnitude (nearest (dropBit^[k] q)) t ≤ magnitude (b * 2 ^ (p - t).toNat) t :=
        Nat.mul_le_mul_right _ (nearest_iterate_le hq)
    _ = magnitude b p := by
        rw [magnitude_mul_two_pow _ _ ht, Int.toNat_of_nonneg (by omega)]
        congr 1
        omega

end

/-- What rounding leaves of a mantissa: as many of its bits as fit, rounded to the nearest, with the target for
their exponent. They are 53, unless the exponent is the smallest. -/
theorem roundWithAccuracy_nearest (s : Sign) {m k : Nat} {e t : Int} {a : Accuracy}
    (ht : t = Format.binary64.targetExponent (totalExponent m e)) (hk : e + k = t) :
    (t = -1074 ∨ 2 ^ 52 ≤ nearest (dropBit^[k] (quarters (.ofMantissaAndAccuracy m a)))) ∧
      Canonical (roundWithAccuracy .binary64 s m e a) ∧
      (roundWithAccuracy .binary64 s m e a).isNaN = false ∧
      valueOf (roundWithAccuracy .binary64 s m e a) =
        s.apply (magnitude (nearest (dropBit^[k] (quarters (.ofMantissaAndAccuracy m a)))) t) := by
  obtain ⟨hlow, hhigh⟩ := le_quarters m a
  have htarget : t = max ((m.log2 : Int) + 1 + e - 53) (-1074) := ht
  have hshift : k = (Format.binary64.targetExponent (totalExponent m e) - e).toNat := by omega
  have hr := roundedMantissa_eq ((ExtendedMantissa.ofMantissaAndAccuracy m a) >>> k)
  rw [quarters_shiftRight] at hr
  generalize quarters (.ofMantissaAndAccuracy m a) = q at hlow hhigh hr
  have hsmall := nearest_le_of_target htarget hk hhigh
  have hfilled : t = -1074 ∨ 2 ^ 52 ≤ nearest (dropBit^[k] q) := by
    by_cases h : t = -1074
    · exact .inl h
    · refine .inr (le_nearest_iterate ((Nat.mul_le_mul_left 4 ?_).trans hlow))
      rw [← Nat.pow_add]
      exact le_mantissa_of_target htarget hk h
  refine ⟨hfilled, ?_⟩
  rcases Nat.eq_zero_or_pos (nearest (dropBit^[k] q)) with hzero | hpos
  · -- all of it has been rounded away
    rw [roundWithAccuracy_of_zero s hshift (hr.trans hzero), hzero, magnitude, Nat.zero_mul]
    exact ⟨trivial, rfl, by cases s <;> rfl⟩
  · obtain ⟨n, f, hn, hround, hsettled, hmagnitude⟩ := roundWithAccuracy_of_pos s hshift hr hpos hsmall
      (by omega) (hfilled.imp_left (by omega))
    rw [hround]
    rw [hk] at hmagnitude
    exact ⟨hsettled, rfl, congrArg (fun n : Nat => s.apply n) hmagnitude⟩

/-- **Rounding does not lead beyond a number of 53 bits.** The bound is the number `b * 2 ^ p`; exponents
are counted from one that is below that of any exact product or quotient. -/
theorem roundWithAccuracy_le (s : Sign) {m b : Nat} {e p : Int} {a : Accuracy} (he : -2148 ≤ e)
    (hle : e ≤ Format.binary64.targetExponent (totalExponent m e)) (hp : -1074 ≤ p) (hb : b < 2 ^ 53)
    (hbound : quarters (.ofMantissaAndAccuracy m a) * 2 ^ (e + 2148).toNat ≤
      4 * b * 2 ^ (p + 2148).toNat) :
    Canonical (roundWithAccuracy .binary64 s m e a) ∧
      (roundWithAccuracy .binary64 s m e a).isNaN = false ∧
      (valueOf (roundWithAccuracy .binary64 s m e a)).natAbs ≤ magnitude b p := by
  obtain ⟨hlow, -⟩ := le_quarters m a
  obtain ⟨t, ht⟩ : ∃ t, t = Format.binary64.targetExponent (totalExponent m e) := ⟨_, rfl⟩
  obtain ⟨k, hk⟩ : ∃ k : Nat, e + k = t := ⟨(t - e).toNat, by omega⟩
  have htarget : t = max ((m.log2 : Int) + 1 + e - 53) (-1074) := ht
  -- the target is no larger than the exponent of the bound, so the bound is on the grid that is rounded to
  have htp := target_le_of_bound htarget hk he hp hb hlow hbound
  obtain ⟨-, hcanonical, hnumber, hvalue⟩ := roundWithAccuracy_nearest s (a := a) ht hk
  refine ⟨hcanonical, hnumber, ?_⟩
  rw [hvalue, natAbs_apply]
  exact magnitude_nearest_le hk he (by omega) htp hbound

/-- **Nor does it lead below one.** -/
theorem le_roundWithAccuracy {m b : Nat} {e p : Int} {a : Accuracy}
    (hle : e ≤ Format.binary64.targetExponent (totalExponent m e)) (hp : -1074 ≤ p) (hb : b < 2 ^ 53)
    (hep : e ≤ p) (hbound : b * 2 ^ (p - e).toNat ≤ m) :
    Canonical (roundWithAccuracy .binary64 .positive m e a) ∧
      (roundWithAccuracy .binary64 .positive m e a).isNaN = false ∧
      (magnitude b p : Int) ≤ valueOf (roundWithAccuracy .binary64 .positive m e a) := by
  obtain ⟨hlow, -⟩ := le_quarters m a
  obtain ⟨t, ht⟩ : ∃ t, t = Format.binary64.targetExponent (totalExponent m e) := ⟨_, rfl⟩
  obtain ⟨k, hk⟩ : ∃ k : Nat, e + k = t := ⟨(t - e).toNat, by omega⟩
  have htarget : t = max ((m.log2 : Int) + 1 + e - 53) (-1074) := ht
  obtain ⟨hfilled, hcanonical, hnumber, hvalue⟩ := roundWithAccuracy_nearest .positive (a := a) ht hk
  refine ⟨hcanonical, hnumber, ?_⟩
  rw [hvalue]
  refine Int.ofNat_le.mpr ?_
  rcases Int.lt_or_le p t with hlt | hge
  · -- with a larger exponent than the bound's, all 53 bits are left
    exact (magnitude_lt_left hb p).le.trans
      (magnitude_le_of_exponent_lt (hfilled.resolve_left (by omega)) hp hlt)
  · have hshifted : b * 2 ^ (p - t).toNat * 2 ^ k = b * 2 ^ (p - e).toNat := by
      rw [Nat.mul_assoc, ← Nat.pow_add]
      congr 2
      omega
    calc magnitude b p = magnitude (b * 2 ^ (p - t).toNat) t := by
          rw [magnitude_mul_two_pow _ _ (by omega), Int.toNat_of_nonneg (by omega)]
          congr 1
          omega
      _ ≤ _ := Nat.mul_le_mul_right _ (le_nearest_iterate (by rw [hshifted]; omega))

/-! ## Products and quotients -/

section

variable {x y : Float}

/-- A finite number is worth its magnitude, with its sign. -/
theorem natAbs_valueOf_finite (s : Sign) {m : Nat} {e : Int} (hm : 0 < m) :
    (valueOf (.finite s m e hm)).natAbs = magnitude m e :=
  natAbs_apply s _

/-- Packing does not lead beyond a bound either. -/
theorem natAbs_units_ofModel_pack_le {u : UnpackedFloat} {n : Nat}
    (h : Canonical u ∧ u.isNaN = false ∧ (valueOf u).natAbs ≤ n) :
    IsNumber (.ofModel (.pack u)) ∧ (units (.ofModel (.pack u))).natAbs ≤ n := by
  obtain ⟨hcanonical, hnumber, hle⟩ := h
  obtain ⟨hpacked, hunits⟩ := units_ofModel_pack hcanonical hnumber
  have hlimit := limit_pos
  refine ⟨hpacked, ?_⟩
  rw [hunits, cutOff]
  omega

/-- An exact product does not have fewer bits than are kept of it. -/
theorem le_targetExponent_mul {m n : Nat} {e f : Int} (hm : 0 < m) (hn : 0 < n) (hx : Settled m e)
    (hy : Settled n f) :
    e + f ≤ Format.binary64.targetExponent (totalExponent (m * n) (e + f)) := by
  have he := hx.le
  have hf := hy.le
  have hproduct : m * n ≠ 0 := Nat.ne_of_gt (Nat.mul_pos hm hn)
  have hlog (h : 2 ^ 52 ≤ m * n) : 52 ≤ (m * n).log2 := (Nat.le_log2 hproduct).mpr h
  rw [targetExponent_eq, totalExponent]
  -- two smallest exponents are below any target, and a full mantissa makes the product long enough
  rcases hx.filled with hsmallest | hfilled
  · rcases hy.filled with hsmallest' | hfilled'
    · omega
    · have := hlog (hfilled'.trans (Nat.le_mul_of_pos_left n hm))
      omega
  · have := hlog (hfilled.trans (Nat.le_mul_of_pos_right m hn))
    omega

/-- **A product does not lie beyond a number of 53 bits** that the exact product does not exceed. -/
theorem natAbs_units_mul_le_of_mul_le {b : Nat} {p : Int} (hx : x.isFinite = true) (hy : y.isFinite = true)
    (hp : -1074 ≤ p) (hb : b < 2 ^ 53)
    (hle : (units x).natAbs * (units y).natAbs ≤ magnitude b p * unitsOfOne) :
    IsNumber (x * y) ∧ (units (x * y)).natAbs ≤ magnitude b p := by
  refine natAbs_units_ofModel_pack_le (u := mul .binary64 x.toModel.unpack y.toModel.unpack) ?_
  have hxproper := proper x
  have hyproper := proper y
  change x.toModel.unpack.isFinite = true at hx
  change y.toModel.unpack.isFinite = true at hy
  change (valueOf x.toModel.unpack).natAbs * (valueOf y.toModel.unpack).natAbs ≤ _ at hle
  generalize x.toModel.unpack = u at hx hle hxproper
  generalize y.toModel.unpack = v at hy hle hyproper
  cases u with
  | notANumber => cases hx
  | infinity _ => cases hx
  | zero _ =>
    cases v with
    | notANumber => cases hy
    | infinity _ => cases hy
    | _ => exact ⟨trivial, rfl, Nat.zero_le _⟩
  | finite s m e hm =>
    cases v with
    | notANumber => cases hy
    | infinity _ => cases hy
    | zero _ => exact ⟨trivial, rfl, Nat.zero_le _⟩
    | finite t n f hn =>
      rw [natAbs_valueOf_finite, natAbs_valueOf_finite] at hle
      have he := hxproper.1.le
      have hf := hyproper.1.le
      refine roundWithAccuracy_le (s * t) (by omega)
        (le_targetExponent_mul hm hn hxproper.1 hyproper.1) hp hb ?_
      -- before it is rounded the product is exact, so its bound is that of the mantissas
      have hquarters : quarters (.ofMantissaAndAccuracy (m * n) .exact) = 4 * (m * n) := rfl
      have hef : 2 ^ (e + f + 2148).toNat = 2 ^ (e + 1074).toNat * 2 ^ (f + 1074).toNat :=
        two_pow_toNat_add _ _ (by omega) (by omega) (by omega)
      have hp' : 2 ^ (p + 2148).toNat = 2 ^ (p + 1074).toNat * unitsOfOne :=
        two_pow_toNat_mul_unitsOfOne _ (by omega) (by omega)
      rw [hquarters, hef, hp']
      unfold magnitude at hle
      calc 4 * (m * n) * (2 ^ (e + 1074).toNat * 2 ^ (f + 1074).toNat)
          = 4 * (m * 2 ^ (e + 1074).toNat * (n * 2 ^ (f + 1074).toNat)) := by ac_rfl
        _ ≤ 4 * (b * 2 ^ (p + 1074).toNat * unitsOfOne) := Nat.mul_le_mul_left 4 hle
        _ = 4 * b * (2 ^ (p + 1074).toNat * unitsOfOne) := by ac_rfl

/-- **A product is bounded by the product of two bounds.** -/
theorem natAbs_units_mul_le {k l : Nat} {a b : Int} (hx : x.isFinite = true) (hy : y.isFinite = true)
    (hxk : (units x).natAbs ≤ magnitude k a) (hyl : (units y).natAbs ≤ magnitude l b) (ha : -1074 ≤ a)
    (hb : -1074 ≤ b) (hab : -1074 ≤ a + b) (hkl : k * l < 2 ^ 53) :
    IsNumber (x * y) ∧ (units (x * y)).natAbs ≤ magnitude (k * l) (a + b) := by
  refine natAbs_units_mul_le_of_mul_le hx hy hab hkl ((Nat.mul_le_mul hxk hyl).trans_eq ?_)
  have hexp : 2 ^ (a + 1074).toNat * 2 ^ (b + 1074).toNat = 2 ^ (a + b + 1074).toNat * unitsOfOne := by
    rw [← two_pow_toNat_mul_unitsOfOne (a + b + 1074) rfl (by omega)]
    exact (two_pow_toNat_add _ _ (by omega) (by omega) (by omega)).symm
  calc magnitude k a * magnitude l b
      = k * l * (2 ^ (a + 1074).toNat * 2 ^ (b + 1074).toNat) := by unfold magnitude; ac_rfl
    _ = magnitude (k * l) (a + b) * unitsOfOne := by rw [hexp]; unfold magnitude; ac_rfl

/-- Shifted so far, the dividend has 52 bits more than the divisor. -/
theorem two_pow_mul_le_of_log2 {m n k : Nat} (hm : 0 < m) (h : n.log2 + 53 ≤ m.log2 + k) :
    2 ^ 52 * n ≤ m * 2 ^ k :=
  calc 2 ^ 52 * n ≤ 2 ^ 52 * 2 ^ (n.log2 + 1) := Nat.mul_le_mul_left _ Nat.lt_log2_self.le
    _ = 2 ^ (n.log2 + 53) := by rw [← Nat.pow_add]; congr 1; omega
    _ ≤ 2 ^ (m.log2 + k) := Nat.pow_le_pow_right (by decide) h
    _ = 2 ^ m.log2 * 2 ^ k := Nat.pow_add ..
    _ ≤ m * 2 ^ k := Nat.mul_le_mul_right _ (Nat.log2_self_le (Nat.ne_of_gt hm))

/-- The dividend is shifted until the quotient does not have fewer bits than are kept of it. -/
theorem le_targetExponent_div {m n k : Nat} {d : Int} (hm : 0 < m) (hn : 0 < n)
    (h : d ≤ -1074 ∨ n.log2 + 53 ≤ m.log2 + k) :
    d ≤ Format.binary64.targetExponent (totalExponent (m * 2 ^ k / n) d) := by
  rw [targetExponent_eq, totalExponent]
  rcases h with hsmall | hshifted
  · omega
  · have hquotient : 2 ^ 52 ≤ m * 2 ^ k / n :=
      (Nat.le_div_iff_mul_le hn).mpr (two_pow_mul_le_of_log2 hm hshifted)
    have := (Nat.le_log2 (by omega)).mpr hquotient
    omega

section Quotient

variable {m n k b : Nat} {d e f p : Int}

/-- The shifted mantissas compare as the bound does with one, counted in the exponent of the quotient. -/
theorem shifted_mul_le (hd : -2148 ≤ d) (hk : e = d + k + f) (he : -1074 ≤ e) (hf : -1074 ≤ f)
    (hp : -1074 ≤ p) (hle : magnitude m e * unitsOfOne ≤ magnitude b p * magnitude n f) :
    m * 2 ^ k * 2 ^ (d + 2148).toNat ≤ b * 2 ^ (p + 2148).toNat * n := by
  -- all powers are of two, so they are compared by their exponents
  have hexp : 2 ^ k * 2 ^ (d + 2148).toNat * 2 ^ (f + 1074).toNat =
      2 ^ (e + 1074).toNat * unitsOfOne * unitsOfOne := by
    rw [unitsOfOne_eq, ← Nat.pow_add, ← Nat.pow_add, ← Nat.pow_add, ← Nat.pow_add]
    congr 1
    omega
  have hbound : 2 ^ (p + 2148).toNat = 2 ^ (p + 1074).toNat * unitsOfOne :=
    two_pow_toNat_mul_unitsOfOne _ (by omega) (by omega)
  refine Nat.le_of_mul_le_mul_right ?_ (Nat.two_pow_pos (f + 1074).toNat)
  calc m * 2 ^ k * 2 ^ (d + 2148).toNat * 2 ^ (f + 1074).toNat
      = m * (2 ^ k * 2 ^ (d + 2148).toNat * 2 ^ (f + 1074).toNat) := by ac_rfl
    _ = magnitude m e * unitsOfOne * unitsOfOne := by rw [hexp]; unfold magnitude; ac_rfl
    _ ≤ magnitude b p * magnitude n f * unitsOfOne := Nat.mul_le_mul_right _ hle
    _ = b * 2 ^ (p + 2148).toNat * n * 2 ^ (f + 1074).toNat := by
        rw [hbound]; unfold magnitude; ac_rfl

/-- The exponent of a bound is not below that of the quotient, which has as many bits as are kept of it. -/
theorem exponent_le_of_shifted (hm : 0 < m) (hd : -2148 ≤ d) (hp : -1074 ≤ p) (hb : b < 2 ^ 53)
    (hn : 0 < n) (hshifted : d ≤ -1074 ∨ n.log2 + 53 ≤ m.log2 + k)
    (hquotient : m * 2 ^ k * 2 ^ (d + 2148).toNat ≤ b * 2 ^ (p + 2148).toNat * n) : d ≤ p := by
  -- otherwise the quotient has more bits than the bound allows
  by_contra hlt
  have hbits := two_pow_mul_le_of_log2 hm (hshifted.resolve_left (by omega))
  have hpow : 2 * 2 ^ (p + 2148).toNat ≤ 2 ^ (d + 2148).toNat := by
    rw [← Nat.pow_succ']
    exact Nat.pow_le_pow_right (by decide) (by omega)
  have hstrict : b * n < 2 ^ 53 * n := Nat.mul_lt_mul_of_pos_right hb hn
  have hcycle := calc b * n * 2 ^ (p + 2148).toNat < 2 ^ 53 * n * 2 ^ (p + 2148).toNat :=
          Nat.mul_lt_mul_of_pos_right hstrict (Nat.two_pow_pos _)
      _ = 2 ^ 52 * n * (2 * 2 ^ (p + 2148).toNat) := by rw [Nat.pow_succ]; ac_rfl
      _ ≤ m * 2 ^ k * 2 ^ (d + 2148).toNat := Nat.mul_le_mul hbits hpow
      _ ≤ b * 2 ^ (p + 2148).toNat * n := hquotient
      _ = b * n * 2 ^ (p + 2148).toNat := by ac_rfl
  exact Nat.lt_irrefl _ hcycle

/-- A quotient with its remainder is bounded as the fraction is. -/
theorem quarters_accuracyOfFraction_le {n d c : Nat} (h : n ≤ c * d) :
    quarters (.ofMantissaAndAccuracy (n / d) (accuracyOfFraction (n % d) d)) ≤ 4 * c := by
  have hle : n / d ≤ c := Nat.div_le_of_le_mul (by rwa [Nat.mul_comm] at h)
  unfold accuracyOfFraction
  split
  · exact Nat.mul_le_mul_left 4 hle
  · rename_i hrest
    obtain ⟨-, hhigh⟩ := le_quarters (n / d) (.inexact (compare (2 * (n % d)) d))
    -- what is not divided without a rest is below the bound, and rounded up to it at most
    have hne : n / d ≠ c := by
      rintro rfl
      have hdiv := Nat.div_add_mod n d
      rw [Nat.mul_comm] at hdiv
      omega
    omega

/-- What is left of the quotient when it is rounded stays below the bound of the shifted mantissas. -/
theorem quarters_quotient_le (hd : -2148 ≤ d) (hdp : d ≤ p)
    (hquotient : m * 2 ^ k * 2 ^ (d + 2148).toNat ≤ b * 2 ^ (p + 2148).toNat * n) :
    quarters (.ofMantissaAndAccuracy (m * 2 ^ k / n) (accuracyOfFraction (m * 2 ^ k % n) n)) *
        2 ^ (d + 2148).toNat ≤
      4 * b * 2 ^ (p + 2148).toNat := by
  have hexp : 2 ^ (p + 2148).toNat = 2 ^ (p - d).toNat * 2 ^ (d + 2148).toNat :=
    two_pow_toNat_add _ _ (by omega) (by omega) (by omega)
  -- the powers of two are cancelled, and the quotient is bounded as a natural number
  have hwhole : m * 2 ^ k ≤ b * 2 ^ (p - d).toNat * n := by
    refine Nat.le_of_mul_le_mul_right (hquotient.trans_eq ?_) (Nat.two_pow_pos (d + 2148).toNat)
    rw [hexp]
    ac_rfl
  calc quarters _ * 2 ^ (d + 2148).toNat ≤ 4 * (b * 2 ^ (p - d).toNat) * 2 ^ (d + 2148).toNat :=
        Nat.mul_le_mul_right _ (quarters_accuracyOfFraction_le hwhole)
    _ = 4 * b * 2 ^ (p + 2148).toNat := by rw [hexp]; ac_rfl

/-- A division is the rounding of a quotient of mantissas. The dividend is shifted as long as that quotient
has fewer bits than are kept of it and its exponent is not the smallest. -/
theorem div_eq_round (s t : Sign) (hm : 0 < m) (hn : 0 < n) :
    ∃ (d : Int) (k : Nat), min (e - f) (-1074) ≤ d ∧ e = d + k + f ∧
      (d ≤ -1074 ∨ n.log2 + 53 ≤ m.log2 + k) ∧
      div .binary64 (.finite s m e hm) (.finite t n f hn) =
        roundWithAccuracy .binary64 (s / t) (m * 2 ^ k / n) d (accuracyOfFraction (m * 2 ^ k % n) n) := by
  obtain ⟨d, hd⟩ : ∃ d, d = min (e - f)
    (Format.binary64.targetExponent (totalExponent m e - totalExponent n f)) := ⟨_, rfl⟩
  obtain ⟨k, hk⟩ : ∃ k : Nat, k = (e - f - d).toNat := ⟨_, rfl⟩
  -- the mantissa is shifted as far as the division asks for
  have hdiv : div .binary64 (.finite s m e hm) (.finite t n f hn) =
      roundWithAccuracy .binary64 (s / t) (m * 2 ^ k / n) d (accuracyOfFraction (m * 2 ^ k % n) n) := by
    rw [hk, hd, ← Nat.shiftLeft_eq]
    rfl
  rw [targetExponent_eq, totalExponent, totalExponent] at hd
  exact ⟨d, k, by omega, by omega, by omega, hdiv⟩

end Quotient

/-- **A quotient does not lie beyond a number of 53 bits** that the exact quotient does not exceed. -/
theorem natAbs_units_div_le_of_mul_le {b : Nat} {p : Int} (hx : x.isFinite = true) (hy : y.isFinite = true)
    (hne : units y ≠ 0) (hp : -1074 ≤ p) (hb : b < 2 ^ 53)
    (hle : (units x).natAbs * unitsOfOne ≤ magnitude b p * (units y).natAbs) :
    IsNumber (x / y) ∧ (units (x / y)).natAbs ≤ magnitude b p := by
  refine natAbs_units_ofModel_pack_le (u := div .binary64 x.toModel.unpack y.toModel.unpack) ?_
  obtain ⟨t, n, f, hn, hunpack⟩ := unpack_of_ne_zero hy hne
  have hxproper := proper x
  have hyproper := proper y
  change x.toModel.unpack.isFinite = true at hx
  change (valueOf x.toModel.unpack).natAbs * _ ≤ _ * (valueOf y.toModel.unpack).natAbs at hle
  rw [hunpack] at hyproper hle ⊢
  generalize x.toModel.unpack = u at hx hle hxproper
  cases u with
  | notANumber => cases hx
  | infinity _ => cases hx
  | zero _ => exact ⟨trivial, rfl, Nat.zero_le _⟩
  | finite s m e hm =>
    rw [natAbs_valueOf_finite, natAbs_valueOf_finite] at hle
    have he := hxproper.1.le
    have hf := hyproper.1.le
    have hf' := hyproper.2
    obtain ⟨d, k, hlow, hk, hshifted, hdiv⟩ := div_eq_round (e := e) (f := f) s t hm hn
    -- how the exponent of the quotient was chosen does not matter from here on
    have hd : -2148 ≤ d := by omega
    have hquotient := shifted_mul_le hd hk he hf hp hle
    have hdp := exponent_le_of_shifted hm hd hp hb hn hshifted hquotient
    rw [hdiv]
    exact roundWithAccuracy_le _ hd (le_targetExponent_div hm hn hshifted) hp hb
      (quarters_quotient_le hd hdp hquotient)

/-- **A quotient by what is no smaller does not lie beyond one.** -/
theorem natAbs_units_div_le (hx : x.isFinite = true) (hy : y.isFinite = true) (hne : units y ≠ 0)
    (hle : (units x).natAbs ≤ (units y).natAbs) :
    IsNumber (x / y) ∧ (units (x / y)).natAbs ≤ magnitude 1 0 := by
  refine natAbs_units_div_le_of_mul_le hx hy hne (by decide) (by decide) ?_
  rw [← mul_unitsOfOne, Nat.one_mul, Nat.mul_comm]
  exact Nat.mul_le_mul_left _ hle

/-! ## Whole bounds -/

/-- The double is finite and lies between `-k` and `k`. -/
def Within (x : Float) (k : Nat) : Prop := x.isFinite = true ∧ (units x).natAbs ≤ k * unitsOfOne

instance (x : Float) (k : Nat) : Decidable (Within x k) :=
  inferInstanceAs (Decidable (x.isFinite = true ∧ (units x).natAbs ≤ k * unitsOfOne))

variable {k l : Nat}

/-- A number lies within `k` if it is worth no more than `k` ones, as long as `k` is a double. -/
theorem within_of_natAbs_le (hx : IsNumber x) (h : (units x).natAbs ≤ k * unitsOfOne) (hk : k ≤ 2 ^ 53) :
    Within x k := by
  have hlimit := mul_unitsOfOne_lt_limit hk
  exact ⟨isFinite_iff.mpr ⟨hx, by omega, by omega⟩, h⟩

/-- A whole number lies within its magnitude. -/
theorem IsWhole.within {n : Int} (h : IsWhole x n) : Within x n.natAbs := by
  refine ⟨h.1, ?_⟩
  rw [h.2, Int.natAbs_mul, Int.natAbs_natCast]

/-- A quotient lies within one if it is divided by what is no smaller. -/
theorem within_div (hx : x.isFinite = true) (hy : y.isFinite = true) (hne : units y ≠ 0)
    (hle : (units x).natAbs ≤ (units y).natAbs) : Within (x / y) 1 := by
  obtain ⟨hnumber, hquotient⟩ := natAbs_units_div_le hx hy hne hle
  rw [← mul_unitsOfOne] at hquotient
  exact within_of_natAbs_le hnumber hquotient (by decide)

namespace Within

/-- What lies within one is worth no more than one. -/
theorem units_le_one (h : Within x 1) : units x ≤ units 1.0 := by
  have hone : units 1.0 = unitsOfOne := by decide +kernel
  have hle := h.2
  omega

/-- And is at most one. -/
theorem le_one (h : Within x 1) : x ≤ 1.0 :=
  le_iff.mpr ⟨isNumber_of_isFinite h.1, by show (1.0 : Float).isNaN = false; decide, h.units_le_one⟩

/-- What lies within a bound lies within a larger one. -/
theorem mono (h : Within x k) (hkl : k ≤ l) : Within x l :=
  ⟨h.1, h.2.trans (Nat.mul_le_mul_right _ hkl)⟩

/-- Sums lie within the sum of the bounds, as long as this is a double. -/
theorem add (hx : Within x k) (hy : Within y l) (h : k + l ≤ 2 ^ 53) : Within (x + y) (k + l) := by
  obtain ⟨hnumber, hunits⟩ := units_add hx.1 hy.1
  have hxk := hx.2
  have hyl := hy.2
  have hsum : (k + l) * unitsOfOne = k * unitsOfOne + l * unitsOfOne := Nat.add_mul ..
  -- rounding is monotone, and keeps the two bounds as they are
  have hhigh : saturate (units x + units y) ≤ saturate (((k + l : Nat) : Int) * unitsOfOne) := by
    refine saturate_mono ?_
    rw [← Int.natCast_mul, hsum]
    omega
  have hlow : saturate ((-(k + l : Nat) : Int) * unitsOfOne) ≤ saturate (units x + units y) := by
    refine saturate_mono ?_
    rw [Int.neg_mul, ← Int.natCast_mul, hsum]
    omega
  rw [saturate_mul_unitsOfOne (by omega), ← hunits] at hhigh hlow
  rw [← Int.natCast_mul] at hhigh
  rw [Int.neg_mul, ← Int.natCast_mul] at hlow
  exact within_of_natAbs_le hnumber (by omega) h

/-- Products lie within the product of the bounds. -/
theorem mul (hx : Within x k) (hy : Within y l) (h : k * l < 2 ^ 53) : Within (x * y) (k * l) := by
  have hxk := hx.2
  have hyl := hy.2
  rw [mul_unitsOfOne] at hxk hyl
  obtain ⟨hnumber, hproduct⟩ :=
    natAbs_units_mul_le hx.1 hy.1 hxk hyl (by decide) (by decide) (by decide) h
  refine within_of_natAbs_le hnumber ?_ h.le
  rw [mul_unitsOfOne]
  exact hproduct

end Within

/-! ## Differences -/

/-- Zero lies between the limits. -/
theorem saturate_zero : saturate 0 = 0 := by
  rw [saturate, show roundInt 0 = 0 from rfl, cutOff]
  omega

/-- Saturation treats both signs alike. -/
theorem saturate_neg (n : Int) : saturate (-n) = -saturate n := by
  rw [saturate, saturate, roundInt_neg, cutOff, cutOff]
  omega

/-- **A difference of finite doubles** is the difference of their worths, rounded and cut off. -/
theorem units_sub (hx : x.isFinite = true) (hy : y.isFinite = true) :
    IsNumber (x - y) ∧ units (x - y) = saturate (units x - units y) := by
  have hadd := units_add hx (isFinite_neg hy)
  rw [units_neg] at hadd
  rw [sub_eq_add_neg, Int.sub_eq_add_neg]
  exact hadd

/-- A difference is not negative if less is subtracted. -/
theorem sub_nonneg (hx : x.isFinite = true) (hy : y.isFinite = true) (h : units y ≤ units x) :
    0.0 ≤ x - y := by
  obtain ⟨hnumber, hunits⟩ := units_sub hx hy
  refine nonneg_iff.mpr ⟨hnumber, ?_⟩
  have hmono := saturate_mono (show 0 ≤ units x - units y by omega)
  rwa [saturate_zero, ← hunits] at hmono

/-- Two doubles between two others are no further apart than these. -/
theorem natAbs_units_sub_le {lo hi : Float} (hlo : lo.isFinite = true) (hhi : hi.isFinite = true)
    (hx : x.isFinite = true) (hy : y.isFinite = true) (hlox : units lo ≤ units x)
    (hloy : units lo ≤ units y) (hxhi : units x ≤ units hi) (hyhi : units y ≤ units hi) :
    (units (x - y)).natAbs ≤ (units (hi - lo)).natAbs := by
  have hupper := saturate_mono (show units x - units y ≤ units hi - units lo by omega)
  have hlower := saturate_mono (show -(units hi - units lo) ≤ units x - units y by omega)
  rw [saturate_neg] at hlower
  rw [(units_sub hx hy).2, (units_sub hhi hlo).2]
  omega

/-- Differences lie within the sum of the bounds too. -/
theorem Within.sub (hx : Within x k) (hy : Within y l) (h : k + l ≤ 2 ^ 53) : Within (x - y) (k + l) := by
  rw [sub_eq_add_neg]
  refine hx.add ⟨isFinite_neg hy.1, ?_⟩ h
  rw [units_neg, Int.natAbs_neg]
  exact hy.2

/-- A magnitude lies within the bounds of its number. -/
theorem Within.abs (hx : Within x k) : Within x.abs k := by
  have habs := units_abs x
  have hbounds := isFinite_iff.mp hx.1
  have hle := hx.2
  exact ⟨isFinite_iff.mpr ⟨isNumber_abs hbounds.1, by omega, by omega⟩, by omega⟩

/-- A finite double differs from itself by nothing. -/
theorem sub_self (hx : x.isFinite = true) : x - x = 0.0 := by
  have hzero : UnpackedFloat.sub .binary64 x.toModel.unpack x.toModel.unpack = .zero .positive := by
    change x.toModel.unpack.isFinite = true at hx
    generalize x.toModel.unpack = u at hx
    cases u with
    | notANumber => cases hx
    | infinity _ => cases hx
    | zero s => cases s <;> rfl
    -- the two magnitudes cancel, and what is left is the zero that subtraction writes as positive
    | finite s m e hm =>
      unfold UnpackedFloat.sub
      dsimp only
      rw [Int.sub_self]
      rfl
  show Float.ofModel (.pack (UnpackedFloat.sub .binary64 x.toModel.unpack x.toModel.unpack)) = 0.0
  rw [hzero]
  rfl

/-! ## The larger and the smaller of two -/

/-- The greater of two numbers is worth the larger of the two values. -/
theorem units_greater (hx : IsNumber x) (hy : IsNumber y) :
    units (greater x y) = max (units x) (units y) := by
  unfold greater
  rw [if_neg (by rw [hx]; exact Bool.false_ne_true)]
  split <;> rename_i h <;> rw [lt_iff] at h
  · omega
  · have hle : ¬ units x < units y := fun hlt => h ⟨hx, hy, hlt⟩
    omega

/-- The lesser is worth the smaller. -/
theorem units_lesser (hx : IsNumber x) (hy : IsNumber y) :
    units (lesser x y) = min (units x) (units y) := by
  unfold lesser
  rw [if_neg (by rw [hx]; exact Bool.false_ne_true)]
  split <;> rename_i h <;> rw [lt_iff] at h
  · omega
  · have hle : ¬ units y < units x := fun hlt => h ⟨hy, hx, hlt⟩
    omega

/-- The lesser of two is one of them. -/
theorem lesser_eq (x y : Float) : lesser x y = x ∨ lesser x y = y := by
  unfold lesser
  split
  · exact .inr rfl
  · split
    · exact .inr rfl
    · exact .inl rfl

/-- The greater of two lies within what both lie within. -/
theorem Within.greater (hx : Within x k) (hy : Within y k) : Within (greater x y) k := by
  rcases greater_eq x y with h | h <;> rw [h] <;> assumption

/-- And so does the lesser. -/
theorem Within.lesser (hx : Within x k) (hy : Within y k) : Within (lesser x y) k := by
  rcases lesser_eq x y with h | h <;> rw [h] <;> assumption

/-! ## Natural numbers as doubles -/

/-- A factor of one adds bits that rounding drops again. -/
theorem targetExponent_mul_one {m : Nat} {e : Int} (hm : 0 < m) (h : Settled m e) :
    Format.binary64.targetExponent (totalExponent (m * 2 ^ 52) (e + -52)) = e := by
  have he := h.le
  have hlt := (Nat.log2_lt (k := 53) (Nat.ne_of_gt hm)).mpr h.lt
  rw [targetExponent_eq, totalExponent, log2_mul_two_pow hm]
  rcases h.filled with hsmallest | hfilled
  · omega
  · have := (Nat.le_log2 (Nat.ne_of_gt hm)).mpr hfilled
    omega

/-- Bits that a factor of one has added are dropped again. -/
theorem roundWithAccuracy_mul_one (s : Sign) {m : Nat} {e : Int} (hm : 0 < m) (h : Settled m e) :
    ∃ n f hn, roundWithAccuracy .binary64 s (m * 2 ^ 52) (e + -52) .exact = .finite s n f hn ∧
      Settled n f ∧ magnitude n f = magnitude m e := by
  have htarget := targetExponent_mul_one hm h
  have hle := h.le
  obtain ⟨n, f, hn, hround, hsettled, hmagnitude⟩ :=
    roundWithAccuracy_of_pos (m := m * 2 ^ 52) (k := 52) (r := m) (e := e + -52) s
      (by rw [htarget]; omega) ((roundedMantissa_shiftRight _ 52).trans (rounded_mul m 52)) hm
      h.lt.le (by omega) (h.filled.imp_left (by omega))
  refine ⟨n, f, hn, hround, hsettled, hmagnitude.trans ?_⟩
  congr 1
  omega

/-- **A product with one** is worth what the other factor is. -/
theorem units_mul_one (hx : x.isFinite = true) : IsNumber (x * 1.0) ∧ units (x * 1.0) = units x := by
  have hone : (1.0 : Float).toModel.unpack = .finite .positive (2 ^ 52) (-52) (by decide) := by rfl
  have hbounds := isFinite_iff.mp hx
  have hproper := proper x
  change x.toModel.unpack.isFinite = true at hx
  -- the exact product has zeros for its last bits, so there is nothing to round
  have hspec : Canonical (mul .binary64 x.toModel.unpack (1.0 : Float).toModel.unpack) ∧
      (mul .binary64 x.toModel.unpack (1.0 : Float).toModel.unpack).isNaN = false ∧
      valueOf (mul .binary64 x.toModel.unpack (1.0 : Float).toModel.unpack) = units x := by
    rw [hone, units]
    generalize x.toModel.unpack = u at hx hproper
    cases u with
    | notANumber => cases hx
    | infinity _ => cases hx
    | zero _ => exact ⟨trivial, rfl, rfl⟩
    | finite s m e hm =>
      obtain ⟨n, f, hn, hround, hsettled, hmagnitude⟩ := roundWithAccuracy_mul_one s hm hproper.1
      have hmul : mul .binary64 (.finite s m e hm) (.finite .positive (2 ^ 52) (-52) (by decide)) =
          .finite s n f hn := by
        rw [← hround]
        cases s <;> rfl
      rw [hmul]
      refine ⟨hsettled, rfl, ?_⟩
      rw [valueOf, hmagnitude, valueOf]
  obtain ⟨hcanonical, hnumber, hvalue⟩ := hspec
  obtain ⟨hpacked, hunits⟩ := units_ofModel_pack hcanonical hnumber
  refine ⟨hpacked, hunits.trans ?_⟩
  rw [hvalue, cutOff]
  omega

/-- A word of up to 53 bits is a whole number as a double. -/
theorem isWhole_toFloat {w : UInt64} (h : w.toNat ≤ 2 ^ 53) : IsWhole w.toFloat w.toNat := by
  obtain ⟨hcanonical, hfinite, hvalue⟩ :=
    normalize_spec (n := w.toNat) (e := 0) (by decide) .positive
  have hlimit := mul_unitsOfOne_lt_limit h
  -- a small word is on the grid already, so rounding keeps it
  have hround : roundInt ((w.toNat : Int) * 2 ^ (0 + 1074 : Int).toNat) = w.toNat * unitsOfOne := by
    rw [show (w.toNat : Int) * 2 ^ (0 + 1074 : Int).toNat = ((w.toNat * unitsOfOne : Nat) : Int) by
      rw [mul_unitsOfOne, magnitude, Int.natCast_mul, Int.natCast_pow]; rfl, roundInt_natCast,
      roundUnits_mul_unitsOfOne h, Int.natCast_mul]
  obtain ⟨hpacked, hunits⟩ := units_ofModel_pack hcanonical (isNaN_of_isFinite hfinite)
  have hunits' : units w.toFloat = w.toNat * unitsOfOne := by
    refine hunits.trans ?_
    rw [hvalue, hround, cutOff]
    omega
  exact ⟨isFinite_iff.mpr ⟨hpacked, by omega, by omega⟩, hunits'⟩

/-- **A natural number below `2 ^ 53` is a double.** -/
theorem isWhole_ofNat {n : Nat} (h : n < 2 ^ 53) : IsWhole (Float.ofNat n) n := by
  have hword : n.toUInt64.toNat = n := by
    rw [Nat.toUInt64_eq, UInt64.toNat_ofNat', Nat.mod_eq_of_lt (by omega)]
  have hwhole := isWhole_toFloat (w := n.toUInt64) (by omega)
  obtain ⟨hnumber, hunits⟩ := units_mul_one hwhole.1
  -- below the bound a literal is read as a word and multiplied by one
  have hproduct : Float.ofNat n = n.toUInt64.toFloat * 1.0 := by
    show Float.ofScientific n false 0 = _
    unfold Float.ofScientific
    rw [dif_pos ⟨h, by decide⟩]
    rfl
  rw [hword] at hwhole
  rw [hproduct, IsWhole, hunits, isFinite_iff, hunits]
  exact ⟨⟨hnumber, (isFinite_iff.mp hwhole.1).2⟩, hwhole.2⟩

end

end Vivarium.Double
