import Mathlib
import Vivarium.Proofs.Scalar.Rounding

/-!
# Doubles as whole numbers

Every finite double is a whole number of times the smallest subnormal, `2 ^ -1074`. This number is what a
double is worth here; an infinity is worth as much as the first number beyond the largest double. So
comparing two doubles is comparing two integers, and rounding an exact result is `roundUnits`, followed
by what packing does to a number that is too large.

Main results: `Proper.compare_eq`, `normalize_spec`, `valueOf_unpack_pack`.
-/

namespace Vivarium.Double

open Float.Model Float.Model.UnpackedFloat

/-! ## What an unpacked double is worth -/

/-- The number of times that `2 ^ -1074` goes into `m * 2 ^ e`. -/
def magnitude (m : Nat) (e : Int) : Nat := m * 2 ^ (e + 1074).toNat

/-- What infinity is worth: the first number beyond the largest double. -/
@[irreducible] def limit : Nat := magnitude (2 ^ 53) 971

/-- What an unpacked double is worth; not a number is worth nothing. -/
def valueOf : UnpackedFloat → Int
  | .notANumber     => 0
  | .infinity s     => s.apply limit
  | .zero _         => 0
  | .finite s m e _ => s.apply (magnitude m e)

/-- A mantissa and an exponent as rounding leaves them: the mantissa has at most 53 bits, and it has all
of them unless the exponent is the smallest. -/
structure Settled (m : Nat) (e : Int) : Prop where
  lt     : m < 2 ^ 53
  le     : -1074 ≤ e
  filled : e = -1074 ∨ 2 ^ 52 ≤ m

/-- An unpacked double as rounding leaves it. -/
def Canonical : UnpackedFloat → Prop
  | .finite _ m e _ => Settled m e
  | _               => True

/-- An unpacked double as unpacking yields it: its exponent is one that can be packed. -/
def Proper : UnpackedFloat → Prop
  | .finite _ m e _ => Settled m e ∧ e ≤ 971
  | _               => True

/-- What is not zero is worth something. -/
theorem magnitude_pos {m : Nat} (hm : 0 < m) (e : Int) : 0 < magnitude m e :=
  Nat.mul_pos hm (Nat.two_pow_pos _)

/-- With the same exponent, more is worth more. -/
theorem magnitude_lt_left {m n : Nat} (h : m < n) (e : Int) : magnitude m e < magnitude n e :=
  Nat.mul_lt_mul_of_pos_right h (Nat.two_pow_pos _)

/-- Zero bits at the end of a mantissa can go to the exponent. -/
theorem magnitude_mul_two_pow (m k : Nat) {e : Int} (he : -1074 ≤ e) :
    magnitude (m * 2 ^ k) e = magnitude m (e + k) := by
  unfold magnitude
  rw [Nat.mul_assoc, ← Nat.pow_add]
  congr 2
  omega

/-- The next exponent begins where the numbers of 53 bits end. -/
theorem magnitude_le_of_exponent_lt {n : Nat} {e f : Int} (hn : 2 ^ 52 ≤ n) (he : -1074 ≤ e)
    (hlt : e < f) : magnitude (2 ^ 53) e ≤ magnitude n f := by
  have hexp : (e + 1074).toNat + 1 ≤ (f + 1074).toNat := by omega
  calc magnitude (2 ^ 53) e = 2 ^ 52 * 2 ^ ((e + 1074).toNat + 1) := by
        unfold magnitude
        omega
    _ ≤ 2 ^ 52 * 2 ^ (f + 1074).toNat :=
        Nat.mul_le_mul_left _ (Nat.pow_le_pow_right (by decide) hexp)
    _ ≤ magnitude n f := Nat.mul_le_mul_right _ hn

/-- The limits are apart. -/
theorem limit_pos : 0 < limit := by
  unfold limit
  exact magnitude_pos (by decide) 971

namespace Settled

variable {m n : Nat} {e f : Int}

/-- Doubles stay below the worth of infinity. -/
theorem magnitude_lt (h : Settled m e) (he : e ≤ 971) : magnitude m e < limit := by
  refine Nat.lt_of_lt_of_le (magnitude_lt_left h.lt e) ?_
  unfold limit
  exact Nat.mul_le_mul_left _ (Nat.pow_le_pow_right (by decide) (by omega))

/-- What cannot be packed is worth at least as much as infinity. -/
theorem le_magnitude (h : Settled m e) (he : 971 < e) : limit ≤ magnitude m e := by
  unfold limit
  exact magnitude_le_of_exponent_lt (h.filled.resolve_left (by omega)) (by decide) he

/-! ## Comparing -/

/-- A number with a larger exponent is the larger one. -/
theorem magnitude_lt_of_exponent_lt (hm : Settled m e) (hn : Settled n f) (hlt : e < f) :
    magnitude m e < magnitude n f := by
  have hfilled : 2 ^ 52 ≤ n := hn.filled.resolve_left (by have := hm.le; omega)
  exact Nat.lt_of_lt_of_le (magnitude_lt_left hm.lt e)
    (magnitude_le_of_exponent_lt hfilled hm.le hlt)

/-- Exponents decide, and then mantissas. -/
theorem compare_eq (hm : Settled m e) (hn : Settled n f) :
    (compare e f).then (compare m n) = compare (magnitude m e) (magnitude n f) := by
  -- of two settled magnitudes the one with the larger exponent is larger, and the mantissas decide only
  -- where it is the same
  rcases lt_trichotomy e f with hlt | rfl | hgt
  · rw [compare_lt_iff_lt.mpr hlt, compare_lt_iff_lt.mpr (hm.magnitude_lt_of_exponent_lt hn hlt)]
    rfl
  · rw [compare_eq_iff_eq.mpr rfl, Ordering.eq_then]
    rcases lt_trichotomy m n with hlt | rfl | hgt
    · rw [compare_lt_iff_lt.mpr hlt, compare_lt_iff_lt.mpr (magnitude_lt_left hlt e)]
    · rw [compare_eq_iff_eq.mpr rfl, compare_eq_iff_eq.mpr rfl]
    · rw [compare_gt_iff_gt.mpr hgt, compare_gt_iff_gt.mpr (magnitude_lt_left hgt e)]
  · rw [compare_gt_iff_gt.mpr hgt, compare_gt_iff_gt.mpr (hn.magnitude_lt_of_exponent_lt hm hgt)]
    rfl

end Settled

/-- What two doubles of one sign are worth compares as their magnitudes do, or the other way round. -/
theorem compare_apply (s : Sign) (a b : Nat) :
    compare (s.apply a) (s.apply b) = match s with
      | .positive => compare a b
      | .negative => (compare a b).swap := by
  cases s with
  | positive => simp [Sign.apply, compare, compareOfLessAndEq]
  | negative =>
    dsimp only
    rw [Nat.compare_swap]
    simp [Sign.apply, compare, compareOfLessAndEq, eq_comm]

/-- A finite double is worth less than an infinity. -/
theorem Proper.valueOf_lt {u : UnpackedFloat} (h : Proper u) (hfinite : u.isFinite = true) :
    -(limit : Int) < valueOf u ∧ valueOf u < limit := by
  have hpos := limit_pos
  -- a settled mantissa with its largest exponent is still below the limit
  cases u with
  | notANumber => cases hfinite
  | infinity s => cases hfinite
  | zero s =>
    simp only [valueOf]
    omega
  | finite s m e hm =>
    have hlt := h.1.magnitude_lt h.2
    cases s <;> simp only [valueOf, Sign.apply] <;> omega

/-- **Comparing doubles is comparing what they are worth**, unless one is not a number. -/
theorem Proper.compare_eq {u v : UnpackedFloat} (hu : Proper u) (hv : Proper v)
    (hunan : u.isNaN = false) (hvnan : v.isNaN = false) :
    u.compare v = some (compare (valueOf u) (valueOf v)) := by
  have hlt {a b : Int} (h : a < b) : some Ordering.lt = some (compare a b) :=
    congrArg some (compare_lt_iff_lt.mpr h).symm
  have hgt {a b : Int} (h : b < a) : some Ordering.gt = some (compare a b) :=
    congrArg some (compare_gt_iff_gt.mpr h).symm
  have heq (a : Int) : some Ordering.eq = some (compare a a) :=
    congrArg some (compare_eq_iff_eq.mpr rfl).symm
  have hpos := limit_pos
  -- the finite doubles lie between the two infinities, and apart from zero
  cases u with
  | notANumber => cases hunan
  | infinity s =>
    cases v with
    | notANumber => cases hvnan
    | infinity t =>
      cases s <;> cases t
      · exact heq _
      · exact hlt (by simp only [valueOf, Sign.apply]; omega)
      · exact hgt (by simp only [valueOf, Sign.apply]; omega)
      · exact heq _
    | zero t =>
      cases s
      · exact hlt (by simp only [valueOf, Sign.apply]; omega)
      · exact hgt (by simp only [valueOf, Sign.apply]; omega)
    | finite t n f hn =>
      have hbounds := hv.valueOf_lt rfl
      cases s
      · exact hlt (by rw [show valueOf (.infinity .negative) = -(limit : Int) from rfl]; omega)
      · exact hgt hbounds.2
  | zero s =>
    cases v with
    | notANumber => cases hvnan
    | infinity t =>
      cases t
      · exact hgt (by simp only [valueOf, Sign.apply]; omega)
      · exact hlt (by simp only [valueOf, Sign.apply]; omega)
    | zero t => exact heq 0
    | finite t n f hn =>
      have hmagnitude := magnitude_pos hn f
      cases t
      · exact hgt (by simp only [valueOf, Sign.apply]; omega)
      · exact hlt (by simp only [valueOf, Sign.apply]; omega)
  | finite s m e hm =>
    cases v with
    | notANumber => cases hvnan
    | infinity t =>
      have hbounds := hu.valueOf_lt rfl
      cases s <;> cases t <;> first | exact hlt hbounds.2 | exact hgt hbounds.1
    | zero t =>
      have hmagnitude := magnitude_pos hm e
      cases s
      · exact hlt (by simp only [valueOf, Sign.apply]; omega)
      · exact hgt (by simp only [valueOf, Sign.apply]; omega)
    | finite t n f hn =>
      have hm' := magnitude_pos hm e
      have hn' := magnitude_pos hn f
      have hsettled := hu.1.compare_eq hv.1
      cases s <;> cases t
      · exact congrArg some ((compare_apply .negative _ _).trans (hsettled ▸ rfl)).symm
      · exact hlt (by simp only [valueOf, Sign.apply]; omega)
      · exact hgt (by simp only [valueOf, Sign.apply]; omega)
      · exact congrArg some (hsettled.trans (compare_apply .positive _ _).symm)

/-! ## Rounding -/

/-- A shift to the left adds as many bits as it is wide. -/
theorem log2_mul_two_pow {m : Nat} (hm : 0 < m) (k : Nat) : (m * 2 ^ k).log2 = m.log2 + k := by
  have hpos : m * 2 ^ k ≠ 0 := Nat.ne_of_gt (Nat.mul_pos hm (Nat.two_pow_pos k))
  rw [Nat.log2_eq_iff hpos, Nat.pow_add, Nat.add_right_comm, Nat.pow_add]
  exact ⟨Nat.mul_le_mul_right _ (Nat.log2_self_le (by omega)),
    Nat.mul_lt_mul_of_pos_right Nat.lt_log2_self (Nat.two_pow_pos k)⟩

/-- An exponent leaves 53 bits of the mantissa, or more among the subnormal numbers. -/
theorem targetExponent_eq (t : Int) : Format.binary64.targetExponent t = max (t - 53) (-1074) := rfl

/-- The exponent that a number is given is as far above the smallest as the number has bits in excess. -/
theorem targetExponent_totalExponent {m : Nat} (hm : 0 < m) {e : Int} (he : -1074 ≤ e) :
    Format.binary64.targetExponent (totalExponent m e) = (excess (magnitude m e) : Int) - 1074 := by
  rw [targetExponent_eq, totalExponent, excess, magnitude, log2_mul_two_pow hm]
  omega

/-- A mantissa that rounding has made 54 bits long is shifted by one bit more. -/
theorem shift_rounded {r : Nat} {e : Int} (hr : 0 < r) (hle : r ≤ 2 ^ 53) (he : -1074 ≤ e)
    (hfilled : e = -1074 ∨ 2 ^ 52 ≤ r) :
    ∃ m f a b, shiftToTargetExponent .binary64 r e .exact = (⟨m, a, b⟩, f) ∧
      0 < m ∧ Settled m f ∧ magnitude m f = magnitude r e := by
  have hlog := (Nat.log2_lt (k := 53) (Nat.ne_of_gt hr)).mpr
  unfold shiftToTargetExponent shiftToExponent
  rcases Nat.lt_or_eq_of_le hle with hlt | rfl
  -- no bit is in excess
  · have hshift : (Format.binary64.targetExponent (totalExponent r e) - e).toNat = 0 := by
      have := hlog hlt
      rw [targetExponent_eq, totalExponent]
      omega
    refine ⟨r, e, false, false, ?_, hr, ⟨hlt, he, hfilled⟩, rfl⟩
    dsimp only
    rw [hshift, Nat.cast_zero, Int.add_zero]
    rfl
  -- rounding carried into one more bit, and all that is shifted out is a zero
  · have hshift : (Format.binary64.targetExponent (totalExponent (2 ^ 53) e) - e).toNat = 1 := by
      rw [targetExponent_eq, totalExponent, Nat.log2_two_pow]
      omega
    refine ⟨2 ^ 52, e + 1, false, false, ?_, by decide, ⟨by decide, by omega, .inr (by decide)⟩, ?_⟩
    · dsimp only
      rw [hshift]
      rfl
    · rw [magnitude, magnitude, show (e + 1 + 1074).toNat = (e + 1074).toNat + 1 by omega]
      omega

/-- What rounding makes of a mantissa from which `k` bits are dropped, if anything is left of it. -/
theorem roundWithAccuracy_of_pos (s : Sign) {m k r : Nat} {e : Int} {a : Accuracy}
    (hk : k = (Format.binary64.targetExponent (totalExponent m e) - e).toNat)
    (hr : ((ExtendedMantissa.ofMantissaAndAccuracy m a) >>> k).roundedMantissa = r) (hpos : 0 < r)
    (hle : r ≤ 2 ^ 53) (he : -1074 ≤ e + k) (hfilled : e + k = -1074 ∨ 2 ^ 52 ≤ r) :
    ∃ n f hn, roundWithAccuracy .binary64 s m e a = .finite s n f hn ∧ Settled n f ∧
      magnitude n f = magnitude r (e + k) := by
  -- the rounded mantissa may have become one bit too long, and is shifted once more
  obtain ⟨n, f, a', b', hshift, hn, hsettled, hmagnitude⟩ := shift_rounded hpos hle he hfilled
  refine ⟨n, f, hn, ?_, hsettled, hmagnitude⟩
  unfold roundWithAccuracy
  rw [show shiftToTargetExponent .binary64 m e a =
    ((ExtendedMantissa.ofMantissaAndAccuracy m a) >>> k, e + k) by
      rw [hk]; rfl]
  dsimp only
  rw [hr, hshift]
  exact dif_neg (Nat.ne_of_gt hn)

/-- **Rounding a whole number of units** that has at least the bits to be rounded to. -/
theorem roundWithAccuracy_spec (s : Sign) {m : Nat} {e : Int} (hm : 0 < m) (he : -1074 ≤ e)
    (hle : e ≤ Format.binary64.targetExponent (totalExponent m e)) :
    ∃ n f hn, roundWithAccuracy .binary64 s m e .exact = .finite s n f hn ∧ Settled n f ∧
      magnitude n f = roundUnits (magnitude m e) := by
  have htarget := targetExponent_totalExponent hm he
  obtain ⟨k, hk⟩ : ∃ k : Nat, k = (Format.binary64.targetExponent (totalExponent m e) - e).toNat :=
    ⟨_, rfl⟩
  have hexcess : excess (magnitude m e) = k + (e + 1074).toNat := by omega
  -- the bits in excess are dropped
  have hrounded : ((ExtendedMantissa.ofMantissaAndAccuracy m .exact) >>> k).roundedMantissa =
      rounded (magnitude m e) (excess (magnitude m e)) := by
    rw [roundedMantissa_shiftRight, hexcess, magnitude, rounded_mul_add]
  obtain ⟨hpos, hsmall, hfilled⟩ := rounded_bounds (magnitude_pos hm e)
  obtain ⟨n, f, hn, hround, hsettled, hmagnitude⟩ := roundWithAccuracy_of_pos s hk hrounded hpos hsmall
    (by omega) (hfilled.imp_left (by omega))
  refine ⟨n, f, hn, hround, hsettled, ?_⟩
  rw [hmagnitude, magnitude, roundUnits, hexcess]
  congr 2
  omega

/-- Rounding settles a mantissa and an exponent that are worth the rounded units. -/
theorem round_spec (s : Sign) {m : Nat} {e : Int} (hm : 0 < m) (he : -1074 ≤ e) :
    ∃ n f hn, round .binary64 s m e = .finite s n f hn ∧ Settled n f ∧
      magnitude n f = roundUnits (magnitude m e) := by
  have htarget := targetExponent_totalExponent hm he
  obtain ⟨k, hk⟩ : ∃ k : Nat, k = (e - Format.binary64.targetExponent (totalExponent m e)).toNat :=
    ⟨_, rfl⟩
  -- the exponent is lowered first, which changes neither the magnitude nor the number of bits
  have hm' : 0 < m * 2 ^ k := Nat.mul_pos hm (Nat.two_pow_pos k)
  have hsame : magnitude (m * 2 ^ k) (e - k) = magnitude m e := by
    rw [magnitude_mul_two_pow m k (by omega), Int.sub_add_cancel]
  have htotal : totalExponent (m * 2 ^ k) (e - k) = totalExponent m e := by
    rw [totalExponent, totalExponent, log2_mul_two_pow hm]
    omega
  have hspec := roundWithAccuracy_spec s hm' (e := e - k) (by omega) (by rw [htotal]; omega)
  rw [hsame] at hspec
  unfold UnpackedFloat.round decreaseExponent
  dsimp only
  rw [← hk, Nat.shiftLeft_eq]
  exact hspec

/-- An exact worth, rounded. -/
def roundInt (n : Int) : Int := n.sign * roundUnits n.natAbs

/-- On natural numbers both roundings agree. -/
theorem roundInt_natCast (n : Nat) : roundInt n = roundUnits n := by
  rcases Nat.eq_zero_or_pos n with rfl | hpos
  · rfl
  · rw [roundInt, Int.sign_eq_one_of_pos (by omega), Int.one_mul, Int.natAbs_natCast]

/-- Rounding treats both signs alike. -/
theorem roundInt_neg (n : Int) : roundInt (-n) = -roundInt n := by
  rw [roundInt, roundInt, Int.sign_neg, Int.natAbs_neg, Int.neg_mul]

/-- Rounding keeps the order. -/
theorem roundInt_mono : Monotone roundInt := by
  intro m n hmn
  rcases Int.le_total 0 m with hm | hm
  · obtain ⟨k, rfl⟩ := Int.eq_ofNat_of_zero_le hm
    obtain ⟨l, rfl⟩ := Int.eq_ofNat_of_zero_le (hm.trans hmn)
    rw [roundInt_natCast, roundInt_natCast]
    -- both are rounded as natural numbers
    exact Int.ofNat_le.mpr (roundUnits_mono (Int.ofNat_le.mp hmn))
  · obtain ⟨k, hk⟩ := Int.eq_ofNat_of_zero_le (Int.neg_nonneg_of_nonpos hm)
    obtain rfl : m = -k := by omega
    rcases Int.le_total 0 n with hn | hn
    · -- the one is rounded to nothing above zero, the other to nothing below it
      obtain ⟨l, rfl⟩ := Int.eq_ofNat_of_zero_le hn
      rw [roundInt_neg, roundInt_natCast, roundInt_natCast]
      omega
    · obtain ⟨l, hl⟩ := Int.eq_ofNat_of_zero_le (Int.neg_nonneg_of_nonpos hn)
      obtain rfl : n = -l := by omega
      -- both are negative, and their magnitudes are in the opposite order
      have hle := roundUnits_mono (show l ≤ k by omega)
      rw [roundInt_neg, roundInt_neg, roundInt_natCast, roundInt_natCast]
      omega

/-- A sign is put before what was rounded. -/
theorem roundInt_apply (s : Sign) (n : Nat) : roundInt (s.apply n) = s.apply (roundUnits n) := by
  cases s with
  | positive => exact roundInt_natCast n
  | negative => exact (roundInt_neg n).trans (congrArg Neg.neg (roundInt_natCast n))

/-- What is worth what a double is worth is left alone. -/
theorem Proper.roundInt_eq {u : UnpackedFloat} (h : Proper u) (hfinite : u.isFinite = true) :
    roundInt (valueOf u) = valueOf u := by
  cases u with
  | notANumber => cases hfinite
  | infinity s => cases hfinite
  | zero s =>
    rw [valueOf, roundInt, Int.sign_zero, Int.zero_mul]
  | finite s m e hm =>
    simp only [valueOf]
    rw [roundInt_apply, magnitude, roundUnits_of_fits h.1.lt]

/-- What is finite is a number. -/
theorem isNaN_of_isFinite {u : UnpackedFloat} (h : u.isFinite = true) : u.isNaN = false := by
  cases u with
  | notANumber => cases h
  | _ => rfl

/-- An exact sum is rounded by its worth. -/
theorem normalize_spec {n e : Int} (he : -1074 ≤ e) (s : Sign) :
    Canonical (UnpackedFloat.normalize .binary64 n e s) ∧
      (UnpackedFloat.normalize .binary64 n e s).isFinite = true ∧
      valueOf (UnpackedFloat.normalize .binary64 n e s) = roundInt (n * 2 ^ (e + 1074).toNat) := by
  -- only the magnitude is rounded, and the sign is put before it
  have hround (t : Sign) {m : Nat} (hm : 0 < m) :
      Canonical (round .binary64 t m e) ∧ (round .binary64 t m e).isFinite = true ∧
        valueOf (round .binary64 t m e) = roundInt (t.apply (magnitude m e)) := by
    obtain ⟨k, f, hk, hround, hsettled, hmagnitude⟩ := round_spec t hm he
    rw [hround, roundInt_apply, ← hmagnitude]
    exact ⟨hsettled, rfl, rfl⟩
  unfold UnpackedFloat.normalize
  rcases lt_trichotomy n 0 with hneg | rfl | hpos
  · obtain ⟨m, rfl⟩ : ∃ m : Nat, n = -m := ⟨n.natAbs, by omega⟩
    rw [compare_lt_iff_lt.mpr hneg]
    dsimp only
    rw [Int.neg_neg, Int.toNat_natCast, Int.neg_mul]
    have hspec := hround .negative (m := m) (by omega)
    simpa [Sign.apply, magnitude] using hspec
  · rw [compare_eq_iff_eq.mpr rfl, Int.zero_mul]
    exact ⟨trivial, rfl, rfl⟩
  · obtain ⟨m, rfl⟩ := Int.eq_ofNat_of_zero_le hpos.le
    rw [compare_gt_iff_gt.mpr hpos]
    dsimp only
    rw [Int.toNat_natCast]
    have hspec := hround .positive (m := m) (by omega)
    simpa [Sign.apply, magnitude] using hspec

/-! ## Packing -/

/-- The exponent of a double as it is packed. -/
def biased (e : Int) : Nat := (e + 1075).toNat

/-- An exponent with its bias fits the eleven bits of its field. -/
theorem toNat_biased {e : Int} (he : e ≤ 971) : (BitVec.ofNat 11 (biased e)).toNat = biased e := by
  rw [BitVec.toNat_ofNat, Nat.mod_eq_of_lt]
  unfold biased
  omega

/-- No exponent in range is packed as that of an infinity. -/
theorem ofNat_biased_ne {e : Int} (he : e ≤ 971) : BitVec.ofNat 11 (biased e) ≠ -1#11 := by
  intro heq
  have hones : (-1#11 : BitVec 11).toNat = 2047 := by decide
  have htoNat := congrArg BitVec.toNat heq
  rw [toNat_biased he, hones] at htoNat
  unfold biased at htoNat
  omega

/-- A finite number is packed by its fields, unless it is too large: then it is packed as an infinity. -/
theorem pack_finite (s : Sign) {m : Nat} {e : Int} (hm : 0 < m) :
    pack .binary64 (.finite s m e hm) =
      if e ≤ 971 then
        packComponents .binary64 s (if m.log2 = 52 then BitVec.ofNat 11 (biased e) else 0#11)
          (BitVec.ofNat 52 m)
      else packedInfinity .binary64 s := by
  -- the exponent is stored with its bias, counted from the last bit of the mantissa
  have hbiased : (e + (Format.binary64.exponentBias : Int) +
      (Format.binary64.mantissaBitsWithoutImplicit : Int)).toNat = biased e := by
    show (e + 1023 + 52).toNat = (e + 1075).toNat
    omega
  have hbits : m.log2 + 1 = Format.binary64.mantissaBits ↔ m.log2 = 52 := by
    show m.log2 + 1 = 53 ↔ m.log2 = 52
    omega
  have hfits : 2 ^ Format.binary64.exponentBits ≤ biased e + 1 ↔ ¬ e ≤ 971 := by
    show 2 ^ 11 ≤ (e + 1075).toNat + 1 ↔ ¬ e ≤ 971
    omega
  unfold UnpackedFloat.pack
  dsimp only
  rw [hbiased]
  simp only [hbits, hfits]
  split_ifs <;> rfl

/-- The fields say what they stand for: an infinity or no number, a zero or a subnormal number, or else a number
whose leading bit is left out. -/
theorem unpack_packComponents (s : Sign) (e : BitVec 11) (m : BitVec 52) :
    unpack .binary64 (packComponents .binary64 s e m) =
      if e = -1#11 then if m = 0#52 then .infinity s else .notANumber
      else if e = 0#11 then
        if h : m = 0#52 then .zero s
        else .finite s m.toNat (-1074) (by simpa [BitVec.toNat_pos, BitVec.pos_iff_ne_zero])
      else .finite s (2 ^ 52 + m.toNat) (e.toNat - 1075) (by omega) := by
  -- a number that is not subnormal has a leading bit that is not stored
  have hmantissa : (1#1 ++ m).toNat = 2 ^ 52 + m.toNat := by
    rw [BitVec.toNat_append, ← Nat.shiftLeft_add_eq_or_of_lt m.isLt, Nat.shiftLeft_eq]
    rfl
  unfold UnpackedFloat.unpack
  simp only [unpackMantissa_packComponents, unpackExponent_packComponents, unpackSign_packComponents,
    Sign.ofBitVec_toBitVec, hmantissa]
  split_ifs with hones hinfinite hzero
  · rfl
  · rfl
  · rfl
  · subst hzero
    rfl
  · rfl

/-- A packed infinity is one. -/
theorem unpack_packedInfinity (s : Sign) :
    unpack .binary64 (packedInfinity .binary64 s) = .infinity s :=
  (unpack_packComponents s _ _).trans rfl

/-- A double as rounding leaves it is packed without loss if its exponent is in range. -/
theorem unpack_pack_finite (s : Sign) {m : Nat} {e : Int} (hm : 0 < m) (h : Settled m e)
    (he : e ≤ 971) : unpack .binary64 (pack .binary64 (.finite s m e hm)) = .finite s m e hm := by
  have hlt := h.lt
  have hle := h.le
  rw [pack_finite, if_pos he, unpack_packComponents]
  rcases Nat.lt_or_ge m (2 ^ 52) with hsub | hnormal
  -- a subnormal number is packed with the exponent zero, which stands for the smallest
  · have hlog : m.log2 ≠ 52 := by
      have := (Nat.log2_lt (k := 52) (Nat.ne_of_gt hm)).mpr hsub
      omega
    have hmantissa : (BitVec.ofNat 52 m).toNat = m := by
      rw [BitVec.toNat_ofNat, Nat.mod_eq_of_lt hsub]
    have hne : BitVec.ofNat 52 m ≠ 0#52 := by
      intro heq
      rw [heq] at hmantissa
      exact Nat.ne_of_gt hm hmantissa.symm
    have hsmallest : e = -1074 := h.filled.resolve_right (by omega)
    simp only [hlog, if_false, hne, hmantissa, hsmallest]
    rfl
  -- of any other mantissa the first bit is left out, and put back
  · have hlog : m.log2 = 52 := by
      have := (Nat.log2_lt (k := 53) (Nat.ne_of_gt hm)).mpr hlt
      have := (Nat.le_log2 (k := 52) (Nat.ne_of_gt hm)).mpr hnormal
      omega
    have hmantissa : 2 ^ 52 + (BitVec.ofNat 52 m).toNat = m := by
      rw [BitVec.toNat_ofNat]
      omega
    have hbiased : ((biased e : Nat) : Int) = e + 1075 := by
      unfold biased
      omega
    have hne : BitVec.ofNat 11 (biased e) ≠ 0#11 := by
      intro heq
      have htoNat := congrArg BitVec.toNat heq
      rw [toNat_biased he, show (0#11).toNat = 0 from rfl] at htoNat
      omega
    simp only [hlog, if_true, ofNat_biased_ne he, hne, if_false, hmantissa, toNat_biased he, hbiased]
    congr 1
    omega

/-- Packing is without loss on what unpacking yields. -/
theorem Proper.unpack_pack {u : UnpackedFloat} (h : Proper u) :
    unpack .binary64 (pack .binary64 u) = u := by
  cases u with
  | notANumber => exact unpack_packedNaN
  | infinity s => exact unpack_packedInfinity s
  | zero s => exact unpack_packedZero
  | finite s m e hm => exact unpack_pack_finite s hm h.1 h.2

/-- What unpacking yields is proper. -/
theorem proper_unpack (b : BitVec Format.binary64.numBits) : Proper (unpack .binary64 b) := by
  rw [← packComponents_unpackSign_unpackExponent_unpackMantissa b, unpack_packComponents]
  generalize unpackExponent b = e
  generalize unpackMantissa b = m
  have hm : m.toNat < 2 ^ 52 := m.isLt
  have he : e.toNat < 2 ^ 11 := e.isLt
  -- only subnormals have the smallest exponent, and all others fill their mantissa
  split_ifs with hones hinfinite hzero
  · trivial
  · trivial
  · trivial
  · exact ⟨⟨by omega, by omega, .inl rfl⟩, by omega⟩
  · have hlow : e.toNat ≠ 0 := fun h => hzero (BitVec.eq_of_toNat_eq h)
    have hhigh : e.toNat ≠ 2047 := fun h => hones (BitVec.eq_of_toNat_eq (h.trans rfl))
    exact ⟨⟨by omega, by omega, .inr (by omega)⟩, by omega⟩

/-- What packing makes of an exact worth: it is cut off at the worth of infinity. -/
def cutOff (n : Int) : Int := max (-limit) (min limit n)

/-- To pack and unpack again cuts a value off at the limits. -/
theorem valueOf_unpack_pack {u : UnpackedFloat} (h : Canonical u) :
    valueOf (unpack .binary64 (pack .binary64 u)) = cutOff (valueOf u) := by
  have hpos := limit_pos
  -- what is not too large to be packed comes back as it was
  have hproper (hu : Proper u) (hvalue : -(limit : Int) ≤ valueOf u ∧ valueOf u ≤ limit) :
      valueOf (unpack .binary64 (pack .binary64 u)) = cutOff (valueOf u) := by
    rw [hu.unpack_pack, cutOff]
    omega
  cases u with
  | notANumber =>
    refine hproper h ?_
    simp only [valueOf]
    omega
  | infinity s =>
    refine hproper h ?_
    cases s <;> simp only [valueOf, Sign.apply] <;> omega
  | zero s =>
    refine hproper h ?_
    simp only [valueOf]
    omega
  | finite s m e hm =>
    rcases Int.lt_or_le 971 e with hlarge | hsmall
    · have hle := Settled.le_magnitude h hlarge
      rw [pack_finite, if_neg (by omega), unpack_packedInfinity, cutOff]
      cases s <;> simp only [valueOf, Sign.apply] <;> omega
    · have hlt := Settled.magnitude_lt h hsmall
      refine hproper ⟨h, hsmall⟩ ?_
      cases s <;> simp only [valueOf, Sign.apply] <;> omega

/-- The sign of an unpacked double that is a number. -/
def sign? : UnpackedFloat → Option Sign
  | .notANumber     => none
  | .infinity s     => some s
  | .zero s         => some s
  | .finite s _ _ _ => some s

/-- Packing keeps a number a number, and keeps its sign. -/
theorem sign?_unpack_pack (u : UnpackedFloat) :
    sign? (unpack .binary64 (pack .binary64 u)) = sign? u := by
  cases u with
  | notANumber => exact congrArg sign? unpack_packedNaN
  | infinity s => exact congrArg sign? (unpack_packedInfinity s)
  | zero s => exact congrArg sign? unpack_packedZero
  | finite s m e hm =>
    rw [pack_finite]
    split
    · rename_i he
      -- the exponent field of a finite number is not all ones
      have hne : (if m.log2 = 52 then BitVec.ofNat 11 (biased e) else 0#11) ≠ -1#11 := by
        split
        · exact ofNat_biased_ne he
        · decide
      rw [unpack_packComponents, if_neg hne]
      split_ifs <;> rfl
    · rw [unpack_packedInfinity]
      rfl

end Vivarium.Double
