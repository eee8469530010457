import Vivarium.Proofs.Scalar.Arithmetic

/-!
# What the bits of a double say

The bits of a double that is not negative count the doubles below it: down to the smallest exponent they are its
worth, and from there on the upper bits are the exponent and the lower ones the mantissa without its first
bit. So a step of the last bit leads to a neighbour, and a whole mantissa of such steps halves a double.

Main results: `Double.units_of_toBits`, `Double.toBits_ofBits`, `Double.worth_sub`.
-/

namespace Vivarium.Double

open Float.Model Float.Model.UnpackedFloat

/-- The bits of positive infinity. Below them are those of the finite doubles that are not negative. -/
def infinityBits : Nat := 2047 * 2 ^ 52

/-- What a double with the given bits is worth. -/
def worth (n : Nat) : Nat :=
  if n < 2 ^ 52 then n else magnitude (2 ^ 52 + n % 2 ^ 52) ((n / 2 ^ 52 : Nat) - 1075)

/-! ## Packed bits -/

theorem toNat_packComponents (e : BitVec 11) (m : BitVec 52) :
    (packComponents .binary64 .positive e m).toNat = e.toNat * 2 ^ 52 + m.toNat := by
  have hpacked : (packComponents .binary64 .positive e m).toNat = (0#1 ++ e).toNat <<< 52 ||| m.toNat :=
    BitVec.toNat_append _ _
  have hsign : (0#1 ++ e).toNat = e.toNat := by
    rw [BitVec.toNat_append]
    exact Nat.zero_or _
  rw [hpacked, hsign, ← Nat.shiftLeft_add_eq_or_of_lt m.isLt, Nat.shiftLeft_eq]

section

variable {w : UInt64}

theorem toNat_exponent (hw : w.toNat < infinityBits) :
    (BitVec.ofNat 11 (w.toNat / 2 ^ 52)).toNat = w.toNat / 2 ^ 52 := by
  unfold infinityBits at hw
  rw [BitVec.toNat_ofNat, Nat.mod_eq_of_lt (by omega)]

theorem toNat_mantissa (n : Nat) : (BitVec.ofNat 52 n).toNat = n % 2 ^ 52 := BitVec.toNat_ofNat _ _

theorem toBitVec_eq_packComponents (hw : w.toNat < infinityBits) :
    w.toBitVec = packComponents .binary64 .positive (BitVec.ofNat 11 (w.toNat / 2 ^ 52))
      (BitVec.ofNat 52 w.toNat) := by
  refine BitVec.eq_of_toNat_eq ?_
  rw [toNat_packComponents, toNat_exponent hw, toNat_mantissa]
  exact (Nat.div_add_mod' _ _).symm

theorem exponent_ne_ones (hw : w.toNat < infinityBits) : BitVec.ofNat 11 (w.toNat / 2 ^ 52) ≠ -1#11 := by
  intro heq
  have hvalue := congrArg BitVec.toNat heq
  rw [toNat_exponent hw, show (-1#11 : BitVec 11).toNat = 2047 by decide] at hvalue
  unfold infinityBits at hw
  omega

/-- Without bits of an exponent, the mantissa is taken as it is. -/
theorem unpack_of_subnormal (hw : w.toNat < 2 ^ 52) :
    unpack .binary64 w.toBitVec =
      if h : 0 < w.toNat then .finite .positive w.toNat (-1074) h else .zero .positive := by
  have hfinite : w.toNat < infinityBits := Nat.lt_trans hw (by decide)
  rw [toBitVec_eq_packComponents hfinite, unpack_packComponents, if_neg (exponent_ne_ones hfinite),
    Nat.div_eq_of_lt hw, if_pos rfl]
  have hmantissa : (BitVec.ofNat 52 w.toNat).toNat = w.toNat := by
    rw [toNat_mantissa, Nat.mod_eq_of_lt hw]
  -- an empty mantissa is zero, and any other is read without a leading bit
  by_cases hzero : BitVec.ofNat 52 w.toNat = 0#52
  · have hnone : w.toNat = 0 := hmantissa.symm.trans (congrArg BitVec.toNat hzero)
    rw [dif_pos hzero, dif_neg (by omega)]
  · have hsome : 0 < w.toNat := by
      rw [← hmantissa]
      refine Nat.pos_of_ne_zero fun hnone => hzero (BitVec.eq_of_toNat_eq ?_)
      exact hnone.trans rfl
    rw [dif_neg hzero, dif_pos hsome]
    simp only [hmantissa]

/-- With bits of an exponent, the mantissa has one bit more. -/
theorem unpack_of_normal (hlow : 2 ^ 52 ≤ w.toNat) (hw : w.toNat < infinityBits) :
    unpack .binary64 w.toBitVec =
      .finite .positive (2 ^ 52 + w.toNat % 2 ^ 52) ((w.toNat / 2 ^ 52 : Nat) - 1075) (by omega) := by
  have hne : BitVec.ofNat 11 (w.toNat / 2 ^ 52) ≠ 0#11 := by
    intro heq
    have hvalue := congrArg BitVec.toNat heq
    rw [toNat_exponent hw, show (0#11).toNat = 0 from rfl] at hvalue
    omega
  rw [toBitVec_eq_packComponents hw, unpack_packComponents, if_neg (exponent_ne_ones hw), if_neg hne]
  simp only [toNat_exponent hw, toNat_mantissa]

/-- **A word below infinity is written as it was read**, zero and the subnormals among them. -/
theorem pack_unpack (hw : w.toNat < infinityBits) :
    pack .binary64 (unpack .binary64 w.toBitVec) = w.toBitVec := by
  rcases Nat.lt_or_ge w.toNat (2 ^ 52) with hsub | hnormal
  · -- the exponent field is zero: this is a subnormal, or zero itself
    rw [unpack_of_subnormal hsub]
    split
    · rename_i hsome
      have hlog : w.toNat.log2 ≠ 52 := by
        have hlt := (Nat.log2_lt (k := 52) (Nat.ne_of_gt hsome)).mpr hsub
        omega
      rw [pack_finite, if_pos (by decide), if_neg hlog, toBitVec_eq_packComponents hw,
        Nat.div_eq_of_lt hsub]
    · rename_i hnone
      rw [toBitVec_eq_packComponents hw, show w.toNat = 0 by omega]
      rfl
  · -- otherwise the mantissa is read with its leading bit, which is not written again
    have hlow : 2 ^ 52 ≤ 2 ^ 52 + w.toNat % 2 ^ 52 := Nat.le_add_right _ _
    have hlog : (2 ^ 52 + w.toNat % 2 ^ 52).log2 = 52 := by
      have hhigh := (Nat.log2_lt (k := 53) (n := 2 ^ 52 + w.toNat % 2 ^ 52) (by omega)).mpr (by omega)
      have := (Nat.le_log2 (k := 52) (n := 2 ^ 52 + w.toNat % 2 ^ 52) (by omega)).mpr hlow
      omega
    have hbiased : biased ((w.toNat / 2 ^ 52 : Nat) - 1075) = w.toNat / 2 ^ 52 := by
      unfold biased
      omega
    have hmantissa : BitVec.ofNat 52 (2 ^ 52 + w.toNat % 2 ^ 52) = BitVec.ofNat 52 w.toNat := by
      refine BitVec.eq_of_toNat_eq ?_
      rw [toNat_mantissa, toNat_mantissa]
      omega
    have hexponent : ((w.toNat / 2 ^ 52 : Nat) : Int) - 1075 ≤ 971 := by
      unfold infinityBits at hw
      omega
    rw [unpack_of_normal hnormal hw, pack_finite, if_pos hexponent, if_pos hlog, hbiased, hmantissa,
      toBitVec_eq_packComponents hw]

/-- **Bits of a finite double** are kept as they are. -/
theorem toBits_ofBits (hw : w.toNat < infinityBits) : (Float.ofBits w).toBits = w :=
  UInt64.toBitVec_inj.mp (pack_unpack hw)

end

/-! ## Worth -/

section

variable {x : Float}

/-- **The worth of a double** is read off its bits. -/
theorem units_of_toBits (h : x.toBits.toNat < infinityBits) :
    x.isFinite = true ∧ units x = worth x.toBits.toNat := by
  show (unpack .binary64 x.toBits.toBitVec).isFinite = true ∧ valueOf (unpack .binary64 x.toBits.toBitVec) = _
  unfold worth
  rcases Nat.lt_or_ge x.toBits.toNat (2 ^ 52) with hsub | hnormal
  · rw [unpack_of_subnormal hsub, if_pos hsub]
    split
    · exact ⟨rfl, congrArg Nat.cast (Nat.mul_one _)⟩
    · exact ⟨rfl, (by omega : (0 : Int) = x.toBits.toNat)⟩
  · rw [unpack_of_normal hnormal h, if_neg (by omega)]
    exact ⟨rfl, rfl⟩

/-- The bits of a positive double lie below those of infinity. -/
theorem toBits_lt_of_pos (hx : x.isFinite = true) (hpos : 0 < units x) : x.toBits.toNat < infinityBits := by
  obtain ⟨m, e, hm, hunpack, -, -⟩ := unpack_of_pos hx hpos
  have hpacked (b : BitVec Format.binary64.numBits) : ∃ s f n, b = packComponents .binary64 s f n :=
    ⟨_, _, _, (packComponents_unpackSign_unpackExponent_unpackMantissa b).symm⟩
  obtain ⟨s, f, n, hbits⟩ := hpacked x.toBits.toBitVec
  have hparts : unpack .binary64 x.toBits.toBitVec = .finite .positive m e hm := hunpack
  rw [hbits, unpack_packComponents] at hparts
  -- with all ones in the exponent it would be an infinity or no number
  have hones : f ≠ -1#11 := by
    rintro rfl
    rw [if_pos rfl] at hparts
    split at hparts <;> cases hparts
  have hsign : s = .positive := by
    rw [if_neg hones] at hparts
    split_ifs at hparts <;> cases hparts <;> rfl
  have hexponent : f.toNat ≠ 2047 := fun heq => hones (BitVec.eq_of_toNat_eq (heq.trans rfl))
  have hvalue : x.toBits.toNat = f.toNat * 2 ^ 52 + n.toNat := by
    rw [← toNat_packComponents, ← hsign, ← hbits]
    rfl
  have hf : f.toNat < 2 ^ 11 := f.isLt
  have hn : n.toNat < 2 ^ 52 := n.isLt
  unfold infinityBits
  omega

/-- **Two mantissas' worth of steps** down quarter a double, if its exponent has that much to give. -/
theorem worth_sub {n : Nat} (h : 3 * 2 ^ 52 ≤ n) : 4 * worth (n - 2 * 2 ^ 52) = worth n := by
  have hexponent : (((n - 2 * 2 ^ 52) / 2 ^ 52 : Nat) : Int) - 1075 + (2 : Nat) = (n / 2 ^ 52 : Nat) - 1075 := by
    omega
  have hmantissa : (n - 2 * 2 ^ 52) % 2 ^ 52 = n % 2 ^ 52 := by omega
  unfold worth
  rw [if_neg (by omega), if_neg (by omega), hmantissa, ← hexponent, ← magnitude_mul_two_pow _ 2 (by omega),
    Nat.mul_comm]
  exact Nat.mul_right_comm _ _ _

end

end Vivarium.Double
