import Vivarium.Proofs.Computation
import Vivarium.Proofs.Scalar.Within

/-!
# How often a draw is repeated

A real is made of a word by scaling a fraction, and is drawn again if rounding has brought it up to the end of
the range. For a range that starts at zero that does not happen: the fraction has 52 bits and lies below one,
so the product with a normal double lies at least one last place below it, and what lies below a double
is not rounded beyond it. So the first word is always taken.

A position is drawn again if the low half of the product is too large, and no condition on the source says
how often that happens. What can be said is when such a draw is given up: only if all of as many words in a
row are refused as a draw is repeated. `Draw.Settles` says so of a computation, and follows its shape.

Main results: `Draw.real_run`, `Draw.position_settles`.
-/

namespace Vivarium

/-! ## Fractions of 52 bits -/

namespace Double

open Float.Model Float.Model.UnpackedFloat

/-- A double that is made of bits unpacks to what the bits stand for. -/
theorem unpack_ofBits (b : UInt64) :
    (Float.ofBits b).toModel.unpack = unpack .binary64 b.toBitVec :=
  (proper_unpack b.toBitVec).unpack_pack

/-- A word's top bits are put behind the first bit of a number between one and two. -/
theorem toBitVec_mantissaBits (w : UInt64) :
    ((w >>> 12) ||| 0x3ff0000000000000).toBitVec =
      packComponents .binary64 .positive 1023#11 (BitVec.ofNat 52 (w.toNat / 2 ^ 12)) := by
  have hw := w.toNat_lt
  refine BitVec.eq_of_toNat_eq ?_
  -- the exponent is that of the numbers from one to two, and the word fills the mantissa
  have hbits : ((w >>> 12) ||| 0x3ff0000000000000).toBitVec.toNat = 1023 <<< 52 ||| w.toNat / 2 ^ 12 := by
    show ((w >>> 12) ||| 0x3ff0000000000000).toNat = _
    rw [UInt64.toNat_or, UInt64.toNat_shiftRight, Nat.or_comm, Nat.shiftRight_eq_div_pow]
    rfl
  have hpacked : (packComponents .binary64 .positive 1023#11 (BitVec.ofNat 52 (w.toNat / 2 ^ 12))).toNat =
      1023 <<< 52 ||| (BitVec.ofNat 52 (w.toNat / 2 ^ 12)).toNat := BitVec.toNat_append _ _
  rw [hbits, hpacked, BitVec.toNat_ofNat, Nat.mod_eq_of_lt (by omega)]

section

variable {x y : Float}

/-- A difference that is a double is exact. -/
theorem units_sub_of_fits {n : Nat} (hx : x.isFinite = true) (hy : y.isFinite = true)
    (hexact : units x - units y = n) (hfits : roundUnits n = n) (hlimit : n < limit) :
    (x - y).isFinite = true ∧ units (x - y) = n := by
  obtain ⟨hnumber, hunits⟩ := units_sub hx hy
  rw [hexact, saturate, roundInt_natCast, hfits, cutOff] at hunits
  have hvalue : units (x - y) = n := by omega
  exact ⟨isFinite_iff.mpr ⟨hnumber, by omega, by omega⟩, hvalue⟩

/-- One is worth `2 ^ 52` times the unit that its exponent names. -/
theorem units_one : units 1.0 = magnitude (2 ^ 52) (-52) := by decide +kernel

theorem isFinite_one : (1.0 : Float).isFinite = true := by decide

/-- With the exponent of one, the top bits of a word are the mantissa of a number from one to two. -/
theorem unpack_mantissaBits (w : UInt64) :
    (Float.ofBits ((w >>> 12) ||| 0x3ff0000000000000)).toModel.unpack =
      .finite .positive (2 ^ 52 + w.toNat / 2 ^ 12) (-52) (by omega) := by
  have hw := w.toNat_lt
  have hlt : w.toNat / 2 ^ 12 < 2 ^ 52 := by omega
  rw [unpack_ofBits, toBitVec_mantissaBits, unpack_packComponents, if_neg (by decide), if_neg (by decide)]
  simp only [BitVec.toNat_ofNat, Nat.mod_eq_of_lt hlt]
  rfl

/-- **The fraction of a word** has the word's 52 top bits behind the point. -/
theorem units_mantissaOfWord (w : UInt64) :
    (Draw.mantissaOfWord w).isFinite = true ∧
      units (Draw.mantissaOfWord w) = magnitude (w.toNat / 2 ^ 12) (-52) := by
  have hw := w.toNat_lt
  have hunpack := unpack_mantissaBits w
  have hfits : roundUnits (magnitude (w.toNat / 2 ^ 12) (-52)) = magnitude (w.toNat / 2 ^ 12) (-52) :=
    roundUnits_of_fits (by omega) _
  have hlimit : magnitude (w.toNat / 2 ^ 12) (-52) < limit := by
    have hone := (isFinite_iff.mp isFinite_one).2.2
    rw [units_one] at hone
    exact Nat.lt_trans (magnitude_lt_left (by omega) _) (Int.ofNat_lt.mp hone)
  unfold Draw.mantissaOfWord
  refine units_sub_of_fits ?_ isFinite_one ?_ hfits hlimit
  · show UnpackedFloat.isFinite _ = true
    rw [hunpack]
    rfl
  · have hunits : units (Float.ofBits ((w >>> 12) ||| 0x3ff0000000000000)) =
        magnitude (2 ^ 52 + w.toNat / 2 ^ 12) (-52) := by
      unfold units
      rw [hunpack]
      rfl
    -- of the number between one and two, one is taken away
    rw [hunits, units_one]
    unfold magnitude
    rw [Nat.add_mul, Int.natCast_add, Int.add_comm, Int.add_sub_cancel]

/-- A finite double that is worth enough has all of its 53 bits. -/
theorem units_eq_of_normal (hx : x.isFinite = true) (hnormal : 2 ^ 52 ≤ units x) :
    ∃ n e, units x = magnitude n e ∧ 2 ^ 52 ≤ n ∧ n < 2 ^ 53 ∧ -1074 ≤ e := by
  obtain ⟨s, n, e, hn, hunpack⟩ := unpack_of_ne_zero hx (by omega)
  have hunits : units x = valueOf (.finite s n e hn) := congrArg valueOf hunpack
  have hproper := proper x
  rw [hunpack] at hproper
  rw [hunits] at hnormal ⊢
  cases s with
  | negative =>
    simp only [valueOf, Sign.apply] at hnormal
    omega
  | positive =>
    refine ⟨n, e, rfl, ?_, hproper.1.lt, hproper.1.le⟩
    rcases hproper.1.filled with hsmallest | hfilled
    · -- with the smallest exponent the mantissa is what the double is worth
      have hworth : valueOf (.finite .positive n e hn) = n := by
        rw [hsmallest]
        exact congrArg Nat.cast (Nat.mul_one n)
      omega
    · exact hfilled

/-- A fraction times a normal double is not negative. -/
theorem units_mantissaOfWord_mul_nonneg (w : UInt64) (hx : x.isFinite = true) (hpos : 0 < units x) :
    0 ≤ units (Draw.mantissaOfWord w * x) := by
  obtain ⟨hfinite, hfraction⟩ := units_mantissaOfWord w
  rcases Nat.eq_zero_or_pos (w.toNat / 2 ^ 12) with hzero | hword
  · -- zero times a double is worth nothing, whatever its sign
    have hworth : units (Draw.mantissaOfWord w) = 0 := by
      rw [hfraction, hzero]
      exact congrArg Nat.cast (Nat.zero_mul _)
    have hnone : (units (Draw.mantissaOfWord w)).natAbs * (units x).natAbs ≤ magnitude 0 0 * unitsOfOne := by
      rw [hworth, Int.natAbs_zero, Nat.zero_mul]
      exact Nat.zero_le _
    obtain ⟨-, hle⟩ := natAbs_units_mul_le_of_mul_le hfinite hx (by decide) (by decide) hnone
    rw [show magnitude 0 0 = 0 from Nat.zero_mul _] at hle
    omega
  · have hpositive : 0.0 < Draw.mantissaOfWord w := by
      refine pos_iff.mpr ⟨isNumber_of_isFinite hfinite, ?_⟩
      rw [hfraction]
      exact Int.natCast_pos.mpr (magnitude_pos hword _)
    obtain ⟨t, ht, hproduct⟩ := signOf?_mul (signOf?_of_pos hpositive) hx hpos.ne'
    rw [signOf?_of_pos (pos_iff.mpr ⟨isNumber_of_isFinite hx, hpos⟩)] at ht
    cases ht
    exact (nonneg_iff.mp (nonneg_of_signOf? hproduct)).2

/-- **A fraction of a normal double lies below it**, however it is rounded. -/
theorem mantissaOfWord_mul_lt (w : UInt64) (hx : x.isFinite = true) (hnormal : 2 ^ 52 ≤ units x) :
    IsNumber (Draw.mantissaOfWord w * x) ∧ (units (Draw.mantissaOfWord w * x)).natAbs < units x := by
  have hw := w.toNat_lt
  obtain ⟨hfinite, hfraction⟩ := units_mantissaOfWord w
  obtain ⟨n, e, hunits, hlow, hhigh, he⟩ := units_eq_of_normal hx hnormal
  -- one last place below the double there is room for the whole fraction
  have hroom : w.toNat / 2 ^ 12 * n ≤ (n - 1) * 2 ^ 52 := by
    obtain ⟨l, rfl⟩ := Nat.exists_eq_add_of_le' (Nat.le_trans Nat.one_le_two_pow hlow)
    calc w.toNat / 2 ^ 12 * (l + 1) ≤ (2 ^ 52 - 1) * (l + 1) := Nat.mul_le_mul_right _ (by omega)
      _ ≤ (l + 1 - 1) * 2 ^ 52 := by omega
  have hone : unitsOfOne = 2 ^ 52 * 2 ^ (-52 + 1074 : Int).toNat := by
    rw [unitsOfOne_eq, ← Nat.pow_add]
    congr 1
  have hbound : (units (Draw.mantissaOfWord w)).natAbs * (units x).natAbs ≤
      magnitude (n - 1) e * unitsOfOne := by
    rw [hfraction, hunits, Int.natAbs_natCast, Int.natAbs_natCast, hone]
    unfold magnitude
    generalize 2 ^ (-52 + 1074 : Int).toNat = a
    calc w.toNat / 2 ^ 12 * a * (n * 2 ^ (e + 1074).toNat)
        = w.toNat / 2 ^ 12 * n * (a * 2 ^ (e + 1074).toNat) := by ac_rfl
      _ ≤ (n - 1) * 2 ^ 52 * (a * 2 ^ (e + 1074).toNat) := Nat.mul_le_mul_right _ hroom
      _ = (n - 1) * 2 ^ (e + 1074).toNat * (2 ^ 52 * a) := by ac_rfl
  obtain ⟨hnumber, hproduct⟩ := natAbs_units_mul_le_of_mul_le hfinite hx he (by omega) hbound
  refine ⟨hnumber, ?_⟩
  rw [hunits]
  exact Int.ofNat_lt.mpr (Nat.lt_of_le_of_lt hproduct (magnitude_lt_left (by omega) e))

/-- Adding zero to a finite double does not change what it is worth. -/
theorem units_add_zero (hx : x.isFinite = true) : IsNumber (x + 0.0) ∧ units (x + 0.0) = units x := by
  obtain ⟨hnumber, hunits⟩ := units_add hx (y := 0.0) (by decide)
  rw [units_zero, Int.add_zero, saturate_units hx] at hunits
  exact ⟨hnumber, hunits⟩

/-- To subtract zero changes nothing. -/
theorem units_sub_zero (hx : x.isFinite = true) :
    (x - 0.0).isFinite = true ∧ units (x - 0.0) = units x := by
  obtain ⟨hnumber, hunits⟩ := units_sub hx (y := 0.0) (by decide)
  rw [units_zero, Int.sub_zero, saturate_units hx] at hunits
  refine ⟨isFinite_iff.mpr ⟨hnumber, ?_⟩, hunits⟩
  rw [hunits]
  exact (isFinite_iff.mp hx).2

end

end Double

/-! ## Reals -/

namespace Draw

open Double

/-- A real number is accepted if it lies below the upper end, and drawn again if it has been rounded to it. -/
theorem attemptReal_succ (lo hi scale : Float) (fuel : Nat) (s : Source) :
    (attemptReal lo hi scale (fuel + 1)).run s =
      if mantissaOfWord s.next64.1 * scale + lo < hi then
        .ok (mantissaOfWord s.next64.1 * scale + lo, s.next64.2)
      else (attemptReal lo hi scale fuel).run s.next64.2 := by
  have hrun : (attemptReal lo hi scale (fuel + 1)).run s =
      (if mantissaOfWord s.next64.1 * scale + lo < hi then
        pure (mantissaOfWord s.next64.1 * scale + lo)
      else attemptReal lo hi scale fuel : Draw Float).run s.next64.2 := rfl
  rw [hrun]
  split <;> rfl

/-- At least one draw is allowed. -/
theorem patience_eq : ∃ fuel, patience = fuel + 1 :=
  Nat.exists_eq_add_one_of_ne_zero (by decide)

/-- **A real below a normal double is drawn with one word.** -/
theorem real_run {hi : Float} (hfinite : hi.isFinite = true) (hnormal : 2 ^ 52 ≤ units hi) (s : Source) :
    ∃ x, (real 0.0 hi).run s = .ok (x, s.next64.2) ∧ 0.0 ≤ x ∧ x < hi := by
  obtain ⟨hscale, hscaled⟩ := units_sub_zero hfinite
  obtain ⟨fuel, hfuel⟩ := patience_eq
  have hpositive : (0.0 : Float) < hi := pos_iff.mpr ⟨isNumber_of_isFinite hfinite, by omega⟩
  -- the scaled fraction lies in the range, and adding the lower end does not move it
  have hlow := units_mantissaOfWord_mul_nonneg s.next64.1 hscale (by omega)
  obtain ⟨hnumber, hhigh⟩ := mantissaOfWord_mul_lt s.next64.1 hscale (by omega)
  have hbounds := isFinite_iff.mp hfinite
  obtain ⟨hsum, hunits⟩ := units_add_zero (isFinite_iff.mpr ⟨hnumber, by omega, by omega⟩)
  obtain ⟨x, hx⟩ : ∃ x, x = mantissaOfWord s.next64.1 * (hi - 0.0) + 0.0 := ⟨_, rfl⟩
  rw [← hx] at hsum hunits
  have hlt : x < hi := lt_iff.mpr ⟨hsum, hbounds.1, by omega⟩
  refine ⟨x, ?_, nonneg_iff.mpr ⟨hsum, by omega⟩, hlt⟩
  unfold real
  rw [if_pos hpositive, if_pos hscale, hfuel, attemptReal_succ, ← hx, if_pos hlt]

end Draw

/-! ## Computations that give up only on words that are refused -/

/-- The source after `k` words have been taken from it. -/
def Source.after (s : Source) : (k : Nat) → Source
  | 0     => s
  | k + 1 => s.next64.2.after k

/-- To skip words and then more of them is to skip all of them. -/
theorem Source.after_add (k l : Nat) : ∀ s : Source, s.after (k + l) = (s.after k).after l := by
  induction k with
  | zero =>
    intro s
    rw [Nat.zero_add]
    rfl
  | succ k ih =>
    intro s
    rw [Nat.succ_add]
    exact ih s.next64.2

/-- The word is not taken for a position among `size` items. -/
def Draw.Refuses (size : Nat) (w : UInt64) : Prop := threshold 64 size < w.toNat * size % twoTo 64

/-- The next words, as many as a draw is repeated, are all refused. -/
def Source.Barren (size : Nat) (s : Source) : Prop :=
  ∀ i < Draw.patience, Draw.Refuses size (s.after i).next64.1

namespace Draw

open Double

/-- On every source the computation returns a value and has taken a number of words; or else it is given up,
and then somewhere in the source all words are refused that a draw of a position could be made of. -/
def Settles {α : Type} (size : Nat) (d : Draw α) : Prop :=
  ∀ s, (∃ a k, d.run s = .ok (a, s.after k)) ∨
    d.run s = .error .exhausted ∧ ∃ k, (s.after k).Barren size

namespace Settles

variable {α β : Type} {size : Nat}

theorem pure {a : α} : Settles size (Pure.pure a) := fun _ => .inl ⟨a, 0, rfl⟩

/-- In a sequence, what the first settles on decides how the second goes on. -/
theorem bind {d : Draw α} {f : α → Draw β} {P : α → Prop} (hd : Settles size d) (hvalues : Ensures d P)
    (hf : ∀ a, P a → Settles size (f a)) : Settles size (d >>= f) := by
  intro s
  rw [StateT.run_bind]
  rcases hd s with ⟨a, k, ha⟩ | ⟨hgiven, hbarren⟩
  · -- the second computation goes on where the first has stopped
    rw [ha]
    rcases hf a (hvalues s a _ ha) (s.after k) with ⟨b, l, hb⟩ | ⟨hgiven, l, hbarren⟩
    · refine .inl ⟨b, k + l, ?_⟩
      rw [Source.after_add]
      exact hb
    · refine .inr ⟨hgiven, k + l, ?_⟩
      rw [Source.after_add]
      exact hbarren
  · rw [hgiven]
    exact .inr ⟨rfl, hbarren⟩

theorem ite {c : Prop} [Decidable c] {d e : Draw α} (hd : c → Settles size d) (he : ¬ c → Settles size e) :
    Settles size (if c then d else e) := by
  split
  · exact hd ‹_›
  · exact he ‹_›

end Settles

/-- A real number is settled on after one word where the width is not tiny. -/
theorem real_settles {hi : Float} (hfinite : hi.isFinite = true) (hnormal : 2 ^ 52 ≤ units hi) (size : Nat) :
    (real 0.0 hi).Settles size := by
  intro s
  obtain ⟨x, hrun, -⟩ := real_run hfinite hnormal s
  exact .inl ⟨x, 1, hrun⟩

/-- A heading is such a number. -/
theorem heading_settles (size : Nat) : (real 0.0 fullTurn).Settles size :=
  real_settles (by decide +kernel) (by decide +kernel) size

/-- A place is accepted if the low half of the product is no more than the threshold, and drawn again otherwise. -/
theorem attemptBelow_succ (size fuel : Nat) (s : Source) :
    (attemptBelow 64 size (do return (← word64).toNat) (fuel + 1)).run s =
      if s.next64.1.toNat * size % twoTo 64 ≤ threshold 64 size then
        .ok (s.next64.1.toNat * size / twoTo 64, s.next64.2)
      else (attemptBelow 64 size (do return (← word64).toNat) fuel).run s.next64.2 := by
  have hrun : (attemptBelow 64 size (do return (← word64).toNat) (fuel + 1)).run s =
      (if s.next64.1.toNat * size % twoTo 64 ≤ threshold 64 size then
        pure (s.next64.1.toNat * size / twoTo 64)
      else attemptBelow 64 size (do return (← word64).toNat) fuel : Draw Nat).run s.next64.2 := rfl
  rw [hrun]
  split <;> rfl

/-- The draw is repeated until a word is not refused. -/
theorem attemptBelow_run (size : Nat) : ∀ (fuel : Nat) (s : Source),
    (∃ n k, (attemptBelow 64 size (do return (← word64).toNat) fuel).run s = .ok (n, s.after k)) ∨
      (attemptBelow 64 size (do return (← word64).toNat) fuel).run s = .error .exhausted ∧
        ∀ i < fuel, Refuses size (s.after i).next64.1
  | 0, s => .inr ⟨rfl, nofun⟩
  | fuel + 1, s => by
    rw [attemptBelow_succ]
    by_cases htaken : s.next64.1.toNat * size % twoTo 64 ≤ threshold 64 size
    · rw [if_pos htaken]
      exact .inl ⟨_, 1, rfl⟩
    · rw [if_neg htaken]
      rcases attemptBelow_run size fuel s.next64.2 with ⟨n, k, hrun⟩ | ⟨hgiven, hrefused⟩
      · exact .inl ⟨n, k + 1, hrun⟩
      · refine .inr ⟨hgiven, fun i hi => ?_⟩
        -- the first word was refused, and so are those after it
        cases i with
        | zero => exact Nat.lt_of_not_le htaken
        | succ i => exact hrefused i (Nat.lt_of_succ_lt_succ hi)

/-- A place is settled on unless all words that are allowed are refused. -/
theorem attemptBelow_settles (size : Nat) :
    (attemptBelow 64 size (do return (← word64).toNat) patience).Settles size := fun s =>
  (attemptBelow_run size patience s).imp id fun ⟨hgiven, hrefused⟩ => ⟨hgiven, 0, hrefused⟩

/-- **A position is drawn**, unless all words are refused of as many in a row as the draw is repeated. -/
theorem position_settles {size : Nat} (hsize : 0 < size) : (position size).Settles size := by
  unfold position number within
  rw [if_pos hsize, Nat.sub_zero]
  exact .bind (attemptBelow_settles size) .any fun _ _ => .pure

end Draw

end Vivarium
