import Vivarium.Kinship.Relation
import Vivarium.Proofs.Scalar.Within

/-!
# Both relations of kinship are symmetric

Either relation holds a distance or a similarity against the stricter of two thresholds. The distance of two
hues is that of the same two hues the other way round, whatever doubles they are: exchanging the operands of
a difference changes its sign at most, and not even an infinity or what is not a number makes an exception.
The stricter of two thresholds may depend on their order, but only by the sign of a zero, and no
comparison can tell the two zeros apart.

Main results: `isKin_comm`, `isSimilarKin_comm`.
-/

namespace Vivarium

namespace Double

open Float.Model Float.Model.UnpackedFloat

section

variable {x y : Float}

/-! ## Doubles that only the sign of a zero tells apart -/

/-- Two doubles are the same, or both are zero. -/
def SameUpToZero (x y : Float) : Prop :=
  x.toModel.unpack = y.toModel.unpack ∨
    ∃ s t, x.toModel.unpack = .zero s ∧ y.toModel.unpack = .zero t

theorem SameUpToZero.refl (x : Float) : SameUpToZero x x := .inl rfl

/-- Comparing tells two doubles apart unless they are the same, or both are zero. -/
theorem eq_of_compare_eq {u v : UnpackedFloat} (h : u.compare v = some .eq) :
    u = v ∨ ∃ s t, u = .zero s ∧ v = .zero t := by
  cases u with
  | notANumber => cases h
  | infinity s =>
    cases v with
    | infinity t => cases s <;> cases t <;> first | exact .inl rfl | cases h
    | _ => cases s <;> cases h
  | zero s =>
    cases v with
    | notANumber => cases h
    | infinity t => cases t <;> cases h
    | zero t => exact .inr ⟨s, t, rfl, rfl⟩
    | finite t n f hn => cases t <;> cases h
  | finite s m e hm =>
    cases v with
    | notANumber => cases h
    | infinity t => cases s <;> cases t <;> cases h
    | zero t => cases s <;> cases h
    | finite t n f hn =>
      -- sign, exponent and mantissa agree
      have hsame : s = t ∧ ((compare e f).then (compare m n) = .eq) := by
        cases s <;> cases t
        · exact ⟨rfl, Ordering.swap_eq_eq.mp (Option.some.inj h)⟩
        · cases h
        · cases h
        · exact ⟨rfl, Option.some.inj h⟩
      rw [Ordering.then_eq_eq, compare_eq_iff_eq, compare_eq_iff_eq] at hsame
      obtain ⟨rfl, rfl, rfl⟩ := hsame
      exact .inl rfl

/-- A number is determined by what it is worth, up to the sign of zero. -/
theorem sameUpToZero_of_units (hx : IsNumber x) (hy : IsNumber y) (h : units x = units y) :
    SameUpToZero x y := by
  have hcompare : x.toModel.unpack.compare y.toModel.unpack = some (compare (units x) (units y)) :=
    (proper x).compare_eq (proper y) hx hy
  rw [h, compare_eq_iff_eq.mpr rfl] at hcompare
  exact eq_of_compare_eq hcompare

theorem SameUpToZero.isNumber_iff (h : SameUpToZero x y) : IsNumber x ↔ IsNumber y := by
  show x.toModel.unpack.isNaN = false ↔ y.toModel.unpack.isNaN = false
  rcases h with h | ⟨s, t, hx, hy⟩
  · rw [h]
  · rw [hx, hy]
    rfl

theorem SameUpToZero.units_eq (h : SameUpToZero x y) : units x = units y := by
  unfold units
  rcases h with h | ⟨s, t, hx, hy⟩
  · rw [h]
  · rw [hx, hy]
    rfl

/-- The larger of two doubles does not depend on their order, up to the sign of zero. -/
theorem greater_comm (x y : Float) : SameUpToZero (greater x y) (greater y x) := by
  have hnan {z : Float} (hz : ¬ IsNumber z) : z.toModel.unpack = .notANumber := by
    have hz' : z.toModel.unpack.isNaN ≠ false := hz
    revert hz'
    cases z.toModel.unpack <;> simp [UnpackedFloat.isNaN]
  by_cases hx : IsNumber x
  · by_cases hy : IsNumber y
    · -- two numbers: whichever is returned, it is worth the larger of the two
      have hmax := units_greater hx hy
      have hmax' := units_greater hy hx
      refine sameUpToZero_of_units ?_ ?_ (by omega)
      · rcases greater_eq x y with h | h <;> rw [h] <;> assumption
      · rcases greater_eq y x with h | h <;> rw [h] <;> assumption
    · -- what is not a number is passed over in either order
      have hlt : ¬ x < y := fun h => hy (lt_iff.mp h).2.1
      unfold greater
      rw [if_neg (by rw [hx]; exact Bool.false_ne_true), if_neg hlt, if_pos (Bool.of_not_eq_false hy)]
      exact .refl x
  · unfold greater
    rw [if_pos (Bool.of_not_eq_false hx)]
    by_cases hy : IsNumber y
    · have hlt : ¬ y < x := fun h => hx (lt_iff.mp h).2.1
      rw [if_neg (by rw [hy]; exact Bool.false_ne_true), if_neg hlt]
      exact .refl y
    · -- of two that are not numbers either is returned, and there is only one of them
      rw [if_pos (Bool.of_not_eq_false hy)]
      exact .inl ((hnan hy).trans (hnan hx).symm)

/-- The sign of a zero that is taken away from a number other than zero does not matter. -/
theorem sub_congr_right {z : Float} (hz : z.isFinite = true) (hne : units z ≠ 0) (h : SameUpToZero x y) :
    z - x = z - y := by
  refine congrArg (fun u => Float.ofModel (.pack u)) ?_
  show UnpackedFloat.sub .binary64 z.toModel.unpack x.toModel.unpack =
    UnpackedFloat.sub .binary64 z.toModel.unpack y.toModel.unpack
  rcases h with h | ⟨s, t, hx, hy⟩
  · rw [h]
  · -- beside a number other than zero either zero vanishes, whatever its sign
    obtain ⟨s', m, e, hm, hz'⟩ := unpack_of_ne_zero hz hne
    rw [hx, hy, hz']
    rfl

/-! ## The magnitude of a difference -/

theorem abs_neg (x : Float) : (-x).abs = x.abs := by
  refine congrArg (fun u => Float.ofModel (.pack u)) ?_
  show (-x).toModel.unpack.abs = x.toModel.unpack.abs
  rw [unpack_neg]
  cases x.toModel.unpack <;> rfl

theorem SameUpToZero.abs_eq (h : SameUpToZero x y) : x.abs = y.abs := by
  refine congrArg (fun u => Float.ofModel (.pack u)) ?_
  show x.toModel.unpack.abs = y.toModel.unpack.abs
  rcases h with h | ⟨s, t, hx, hy⟩
  · rw [h]
  · rw [hx, hy]
    rfl

/-- Where nothing is rounded, exchanging the operands of a difference changes its sign at most. -/
theorem unpacked_abs_sub_comm {u v : UnpackedFloat} (h : ¬ (u.isFinite = true ∧ v.isFinite = true)) :
    Proper (sub .binary64 u v) ∧ (sub .binary64 u v).abs = (sub .binary64 v u).abs := by
  -- without two finite numbers there is no rounding, and each of the remaining cases is computed
  cases u with
  | notANumber => cases v <;> exact ⟨trivial, rfl⟩
  | infinity s =>
    cases v with
    | infinity t => cases s <;> cases t <;> exact ⟨trivial, rfl⟩
    | _ => exact ⟨trivial, rfl⟩
  | _ =>
    cases v with
    | notANumber => exact ⟨trivial, rfl⟩
    | infinity t => exact ⟨trivial, rfl⟩
    | _ => exact absurd ⟨rfl, rfl⟩ h

/-- **Exchanging the operands of a difference** leaves its magnitude as it is. -/
theorem abs_sub_comm (x y : Float) : (x - y).abs = (y - x).abs := by
  by_cases hfinite : x.isFinite = true ∧ y.isFinite = true
  · -- the two differences are opposite numbers, before they are rounded and after it
    obtain ⟨hnumber, hunits⟩ := units_sub hfinite.1 hfinite.2
    obtain ⟨hnumber', hunits'⟩ := units_sub hfinite.2 hfinite.1
    rw [← abs_neg (y - x)]
    refine (sameUpToZero_of_units hnumber (isNumber_neg hnumber') ?_).abs_eq
    rw [units_neg, hunits, hunits', ← saturate_neg, Int.neg_sub]
  · -- otherwise the difference is the same infinity, or no number, on both sides
    obtain ⟨hleft, habs⟩ := unpacked_abs_sub_comm hfinite
    obtain ⟨hright, -⟩ := unpacked_abs_sub_comm fun h => hfinite h.symm
    refine congrArg (fun u => Float.ofModel (.pack u)) ?_
    show (x - y).toModel.unpack.abs = (y - x).toModel.unpack.abs
    rw [show (x - y).toModel.unpack = _ from hleft.unpack_pack,
      show (y - x).toModel.unpack = _ from hright.unpack_pack]
    exact habs

end

end Double

open Double

/-! ## Kinship -/

theorem hueDistance_comm (a b : Float) : hueDistance a b = hueDistance b a := by
  unfold hueDistance
  rw [abs_sub_comm]

/-- **Kinship by hue is symmetric**, for all hues and thresholds. -/
theorem isKin_comm (a b : HueMark) : isKin a b = isKin b a := by
  have hone : IsWhole 1.0 1 := isWhole_ofNat (n := 1) (by decide)
  have hne : units 1.0 ≠ 0 := by
    have hpos := unitsOfOne_pos
    have hunits := hone.2
    omega
  unfold isKin
  rw [hueDistance_comm, sub_congr_right hone.1 hne (greater_comm a.threshold b.threshold)]

/-- **So is kinship by similarity.** -/
theorem isSimilarKin_comm (similarity a b : Float) :
    isSimilarKin similarity a b = isSimilarKin similarity b a := by
  have hsame := greater_comm a b
  unfold isSimilarKin
  rw [decide_eq_decide, le_iff, le_iff, hsame.isNumber_iff, hsame.units_eq]

end Vivarium
