import Vivarium.Kinship.Dice
import Vivarium.Kinship.Relation
import Vivarium.Program.Basic
import Vivarium.Proofs.Scalar.Products
import Vivarium.Proofs.Scalar.Floor

/-!
# The hue of a program

The hue of a genetic string comes from a chain of quotients, and a quotient of two doubles can overflow,
or not be a number at all. That of a program does neither: a program has sixty letters at most, so the
bins hold small numbers, the ratios lie between zero and one, and the position on the wheel lies between
minus one and five. It is negative only near red, where a full turn is added to the degrees. So the hue is one
of the 360 whole numbers of the wheel, and it is at no distance from itself. Creatures of one genome are kin.

Main results: `exists_geneticHue_eq`, `isFinite_geneticHue`, `isKin_of_hue_eq`.
-/

namespace Vivarium

open Double

/-! ## The position on the wheel -/

namespace Channels

variable {c : Channels}

theorem le_fullest (c : Channels) : c.red ≤ c.fullest ∧ c.green ≤ c.fullest ∧ c.blue ≤ c.fullest := by
  unfold fullest
  omega

/-- A bin is a part of the fullest one. -/
theorem within_ratio {n m : Nat} (hnm : n ≤ m) (hpos : 0 < m) (hm : m < 2 ^ 53) :
    Within (Float.ofNat n / Float.ofNat m) 1 := by
  have hn' := isWhole_ofNat (Nat.lt_of_le_of_lt hnm hm)
  have hm' := isWhole_ofNat hm
  have hone := unitsOfOne_pos
  -- a quotient of whole numbers is rounded from one that is at most one
  refine within_div hn'.1 hm'.1 ?_ ?_
  · rw [hm'.2]
    exact Int.ne_of_gt (Int.mul_pos (by omega) (by omega))
  · rw [hn'.2, hm'.2, Int.natAbs_mul, Int.natAbs_mul]
    exact Nat.mul_le_mul_right _ (by omega)

/-- Of three numbers, the difference of two is a part of the spread. -/
theorem within_part {r g b x y : Float} (hr : Within r 1) (hg : Within g 1) (hb : Within b 1)
    (hx : x = r ∨ x = g ∨ x = b) (hy : y = r ∨ y = g ∨ y = b)
    (hspread : ¬ (greater (greater r g) b - lesser (lesser r g) b == 0.0) = true) :
    Within ((x - y) / (greater (greater r g) b - lesser (lesser r g) b)) 1 := by
  have hmost := (hr.greater hg).greater hb
  have hleast := (hr.lesser hg).lesser hb
  have hmax := units_greater (isNumber_of_isFinite (hr.greater hg).1) (isNumber_of_isFinite hb.1)
  have hmin := units_lesser (isNumber_of_isFinite (hr.lesser hg).1) (isNumber_of_isFinite hb.1)
  rw [units_greater (isNumber_of_isFinite hr.1) (isNumber_of_isFinite hg.1)] at hmax
  rw [units_lesser (isNumber_of_isFinite hr.1) (isNumber_of_isFinite hg.1)] at hmin
  generalize greater (greater r g) b = most at hspread hmost hmax
  generalize lesser (lesser r g) b = least at hspread hleast hmin
  have hwide := hmost.sub hleast (by decide)
  have hne : units (most - least) ≠ 0 := fun hzero =>
    hspread (beq_iff.mpr ⟨isNumber_of_isFinite hwide.1, isNumber_zero, hzero.trans units_zero.symm⟩)
  -- each of the three lies between the least and the most
  have hbetween {z : Float} (hz : z = r ∨ z = g ∨ z = b) :
      z.isFinite = true ∧ Within z 1 ∧ units least ≤ units z ∧ units z ≤ units most := by
    rcases hz with rfl | rfl | rfl
    · exact ⟨hr.1, hr, by omega, by omega⟩
    · exact ⟨hg.1, hg, by omega, by omega⟩
    · exact ⟨hb.1, hb, by omega, by omega⟩
  obtain ⟨hxfinite, hxone, hxlow, hxhigh⟩ := hbetween hx
  obtain ⟨hyfinite, hyone, hylow, hyhigh⟩ := hbetween hy
  exact within_div (hxone.sub hyone (by decide)).1 hwide.1 hne
    (natAbs_units_sub_le hleast.1 hmost.1 hxfinite hyfinite hxlow hylow hxhigh hyhigh)

/-- A sum of doubles is rounded, but not beyond a whole number. -/
theorem le_units_add {x y : Float} {n : Int} (hx : x.isFinite = true) (hy : y.isFinite = true)
    (hn : n.natAbs ≤ 2 ^ 53) (h : n * unitsOfOne ≤ units x + units y) : n * unitsOfOne ≤ units (x + y) := by
  rw [(units_add hx hy).2, ← saturate_mul_unitsOfOne hn]
  exact saturate_mono h

/-- **No turn is taken off a red hue**: a distance of at most one sixth is the position itself. -/
theorem redSextant_eq {x : Float} (hx : Within x 1) : redSextant x = x := by
  have hsix : IsWhole 6.0 6 := isWhole_ofNat (n := 6) (by decide)
  have hsixUnits := hsix.2
  have hsixAbs : (6.0 : Float).abs = 6.0 := by decide +kernel
  -- what is within one is smaller than six, and smaller than the divisor is returned as it is
  have hone := unitsOfOne_pos
  have hle := hx.abs.2
  have hlt : x.abs < (6.0 : Float).abs := by
    rw [hsixAbs]
    exact lt_iff.mpr ⟨isNumber_of_isFinite hx.abs.1, isNumber_of_isFinite hsix.1, by omega⟩
  have hdivides : (!x.isFinite || (6.0 : Float).isNaN || (6.0 : Float) == 0.0) = false := by
    rw [hx.1]
    decide
  unfold redSextant remainder
  rw [hdivides, if_neg Bool.false_ne_true, if_pos hlt]

/-- **The position on the wheel**: red lies within a sixth of zero, and green and blue lie two and four sixths
further on. -/
theorem sixths_bounds (hpos : 0 < c.fullest) (hlt : c.fullest < 2 ^ 53) :
    Within c.sixths 1 ∨ 0 ≤ units c.sixths ∧ Within c.sixths 5 := by
  obtain ⟨hred, hgreen, hblue⟩ := c.le_fullest
  have hr := within_ratio hred hpos hlt
  have hg := within_ratio hgreen hpos hlt
  have hb := within_ratio hblue hpos hlt
  have htwo : IsWhole 2.0 2 := isWhole_ofNat (n := 2) (by decide)
  have hfour : IsWhole 4.0 4 := isWhole_ofNat (n := 4) (by decide)
  -- a primary that stands no earlier than one sixth is not passed by a part of the spread
  have hfurther {x y : Float} {n : Nat} (hx : Within x 1) (hy : IsWhole y n) (h1 : 1 ≤ n) (h4 : n ≤ 4) :
      0 ≤ units (x + y) ∧ Within (x + y) 5 := by
    have hlow : (1 * unitsOfOne : Int) ≤ n * unitsOfOne :=
      Int.mul_le_mul_of_nonneg_right (by omega) (Int.natCast_nonneg _)
    have hpart := hx.2
    have hprimary := hy.2
    have hnonneg := le_units_add (n := 0) hx.1 hy.1 (by decide) (by omega)
    rw [Int.zero_mul] at hnonneg
    exact ⟨hnonneg, (hx.add hy.within (by omega)).mono (by omega)⟩
  unfold sixths
  dsimp only
  split
  · exact .inl (by decide)
  · rename_i hspread
    split
    · have hpart := within_part hr hg hb (.inr (.inl rfl)) (.inr (.inr rfl)) hspread
      rw [redSextant_eq hpart]
      exact .inl hpart
    · split
      · exact .inr (hfurther (within_part hr hg hb (by simp) (by simp) hspread) htwo (by decide) (by decide))
      · exact .inr (hfurther (within_part hr hg hb (by simp) (by simp) hspread) hfour (by decide) (by decide))

/-- **The degrees lie on the wheel.** Only red can lie below zero before the full turn is added, and no more than
sixty degrees. -/
theorem degrees_bounds (hlt : c.fullest < 2 ^ 53) : 0 ≤ c.degrees ∧ c.degrees < 360 := by
  unfold degrees
  split
  · decide
  · rename_i hne
    have hsixty : IsWhole 60.0 60 := isWhole_ofNat (n := 60) (by decide)
    have hhalf : Within 0.5 1 ∧ 0 ≤ units 0.5 := by decide +kernel
    have hsixtyUnits := hsixty.2
    dsimp only
    rcases sixths_bounds (Nat.pos_of_ne_zero hne) hlt with hred | ⟨hnonneg, hother⟩
    · -- red: what lies below zero is made up for by the full turn
      have hscaled : Within (c.sixths * 60.0) 60 := hred.mul hsixty.within (by decide)
      have hsum := hscaled.add hhalf.1 (by decide)
      have hlow := (le_floorInt_iff hsum.1).mpr
        (le_units_add (n := -60) hscaled.1 hhalf.1.1 (by decide) (by have := hscaled.2; omega))
      have hhigh := hsum.floorInt_le
      split <;> omega
    · -- the sixths of the others are not negative
      have hscaled : Within (c.sixths * 60.0) 300 := hother.mul hsixty.within (by decide)
      have hscaledNonneg := (nonneg_iff.mp (mul_nonneg hother.1 hnonneg hsixty.1 (by omega))).2
      have hsum := hscaled.add hhalf.1 (by decide)
      have hlow := (le_floorInt_iff hsum.1).mpr
        (le_units_add (n := 0) hscaled.1 hhalf.1.1 (by decide) (by omega))
      have hhigh := hsum.floorInt_le
      split <;> omega

end Channels

/-- There are no more pairs than bytes. -/
theorem length_adjacentPairs_le (xs : List α) : (adjacentPairs xs).length ≤ xs.length := by
  unfold adjacentPairs
  rw [List.length_zip]
  omega

/-- So no bin holds more pairs than there are bytes. -/
theorem Channels.fullest_ofBytes_le (bytes : List UInt8) : (ofBytes bytes).fullest ≤ bytes.length := by
  have hlength := length_adjacentPairs_le bytes
  -- a bin holds some of the pairs, of which there are fewer than bytes
  have hcount (n : Nat) : ((adjacentPairs bytes).map bin).count n ≤ bytes.length := by
    refine List.count_le_length.trans ?_
    rw [List.length_map]
    exact hlength
  have h0 := hcount 0
  have h1 := hcount 1
  have h2 := hcount 2
  unfold ofBytes fullest
  dsimp only
  omega

/-! ## The hue -/

theorem byteArray_toList_loop (bytes : ByteArray) (i : Nat) (read : List UInt8) :
    ByteArray.toList.loop bytes i read = read.reverse ++ bytes.data.toList.drop i := by
  -- the induction is on the bytes that are left, over those that have been read
  fun_induction ByteArray.toList.loop bytes i read with
  | case1 i read hlt ih =>
    have hlength : i < bytes.data.toList.length := hlt
    have hget : bytes.get! i = bytes.data.toList[i] := getElem!_pos bytes.data i hlt
    rw [ih, List.reverse_cons, List.append_assoc, List.singleton_append, hget, List.getElem_cons_drop]
  | case2 i read hge =>
    have hlength : bytes.data.toList.length ≤ i := Nat.not_lt.mp hge
    rw [List.drop_eq_nil_of_le hlength, List.append_nil]

/-- The bytes of a string, read one after the other. -/
theorem byteArray_toList_eq (bytes : ByteArray) : bytes.toList = bytes.data.toList := by
  unfold ByteArray.toList
  rw [byteArray_toList_loop, List.reverse_nil, List.nil_append, List.drop_zero]

/-- A string is as many bytes as its size in UTF-8. -/
theorem length_bytes (s : String) : s.toUTF8.toList.length = s.utf8ByteSize := by
  rw [byteArray_toList_eq]
  exact String.size_toByteArray

/-- **The hue is a whole number of degrees on the wheel.** -/
theorem exists_geneticHue_eq {s : String} (hsize : s.utf8ByteSize < 2 ^ 53) :
    ∃ n : Nat, n < 360 ∧ geneticHue s = Float.ofNat n := by
  have hfullest := Channels.fullest_ofBytes_le s.toUTF8.toList
  rw [length_bytes] at hfullest
  obtain ⟨hnonneg, hlt⟩ := Channels.degrees_bounds (Nat.lt_of_le_of_lt hfullest hsize)
  refine ⟨(Channels.ofBytes s.toUTF8.toList).degrees.natAbs, by omega, ?_⟩
  unfold geneticHue floatOfInt
  rw [if_neg (Int.not_lt.mpr hnonneg)]

/-- A character takes four bytes at most. -/
theorem utf8Len_le (cs : List Char) : String.utf8Len cs ≤ 4 * cs.length := by
  induction cs with
  | nil => exact Nat.le_refl 0
  | cons c cs ih =>
    have hsize := c.utf8Size_le_four
    rw [String.utf8Len_cons, List.length_cons]
    omega

/-- A genetic string has a letter to a gene, and no letter has more than four bytes. -/
theorem Program.utf8ByteSize_geneticString_le (p : Program) : p.geneticString.utf8ByteSize ≤ 240 := by
  have hlongest := p.isProgram.le_longest
  have hlen := utf8Len_le (p.genes.map Gene.code)
  rw [List.length_map] at hlen
  unfold longestProgram at hlongest
  rw [geneticString, String.utf8ByteSize_ofList]
  omega

theorem Program.utf8ByteSize_geneticString_lt (p : Program) : p.geneticString.utf8ByteSize < 2 ^ 53 := by
  have hle := p.utf8ByteSize_geneticString_le
  omega

/-- **The bins of a program fit**: no bin of its genetic string outgrows a counter of 32 bits, or even of eight. -/
theorem Program.fullest_le (p : Program) :
    (Channels.ofBytes p.geneticString.toUTF8.toList).fullest ≤ 240 := by
  have hfullest := Channels.fullest_ofBytes_le p.geneticString.toUTF8.toList
  rw [length_bytes] at hfullest
  exact hfullest.trans p.utf8ByteSize_geneticString_le

/-- **The hue of a program is finite.** -/
theorem Program.isFinite_geneticHue (p : Program) : (geneticHue p.geneticString).isFinite = true := by
  obtain ⟨n, hn, hhue⟩ := exists_geneticHue_eq p.utf8ByteSize_geneticString_lt
  rw [hhue]
  exact (isWhole_ofNat (by omega)).1

/-! ## Kinship of equals -/

theorem hueDistance_self {h : Float} (hh : h.isFinite = true) : hueDistance h h = 0.0 := by
  unfold hueDistance
  dsimp only
  rw [sub_self hh]
  decide

/-- **Who has the same hue is kin**, if neither threshold lies above one. -/
theorem isKin_of_hue_eq {a b : HueMark} (hhue : a.hue = b.hue) (hfinite : a.hue.isFinite = true)
    (ha : Within a.threshold 1) (hb : Within b.threshold 1) : isKin a b = true := by
  have hone : (1.0 : Float).isFinite = true := by decide
  have hthreshold := ha.greater hb
  unfold isKin
  rw [← hhue, hueDistance_self hfinite]
  exact decide_eq_true (sub_nonneg hone hthreshold.1 hthreshold.units_le_one)

/-- **Who has the same genome is similar**, if neither threshold lies above one. -/
theorem isSimilarKin_self {s : String} {a b : Float} (ha : Within a 1) (hb : Within b 1) :
    isSimilarKin (diceSimilarity s s) a b = true := by
  have hthreshold := ha.greater hb
  unfold isSimilarKin diceSimilarity
  rw [if_pos rfl]
  exact decide_eq_true hthreshold.le_one

end Vivarium
