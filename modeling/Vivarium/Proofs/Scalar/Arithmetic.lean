import Vivarium.Proofs.Scalar.Units
import Vivarium.Scalar.Order

/-!
# The order of sums, differences and clamps

What a model of doubles in bits does not show at once: which results are numbers, and in which order they
stand. Comparing is comparing worths, and the worth of a sum of finite doubles is the sum of their worths,
rounded and cut off, so addition and subtraction are monotone. Of products and quotients no more is said
here than that they are numbers.

Main results: `le_add_of_nonneg`, `sub_le_sub_right`, `clampTo_bounds`.
-/

namespace Vivarium.Double

open Float.Model Float.Model.UnpackedFloat

/-- What a double is worth, in units of `2 ^ -1074`. -/
def units (x : Float) : Int := valueOf x.toModel.unpack

/-- The sign of a double that is a number. -/
def signOf? (x : Float) : Option Sign := sign? x.toModel.unpack

/-- A double that is a number, if only an infinite one. -/
def IsNumber (x : Float) : Prop := x.isNaN = false

/-- What a double unpacks to has the form that doubles have. -/
theorem proper (x : Float) : Proper x.toModel.unpack := proper_unpack _

section

variable {x y z : Float}

/-! ## Numbers -/

/-- A double is a number as long as it has a sign. -/
theorem isNumber_iff_sign : IsNumber x ↔ ∃ s, signOf? x = some s := by
  show x.toModel.unpack.isNaN = false ↔ ∃ s, sign? x.toModel.unpack = some s
  cases x.toModel.unpack <;> simp [UnpackedFloat.isNaN, sign?]

/-- It is finite if it is a number and lies between the limits. -/
theorem isFinite_iff :
    x.isFinite = true ↔ IsNumber x ∧ -(limit : Int) < units x ∧ units x < limit := by
  have hbounds := (proper x).valueOf_lt
  show x.toModel.unpack.isFinite = true ↔ x.toModel.unpack.isNaN = false ∧
    -(limit : Int) < valueOf x.toModel.unpack ∧ valueOf x.toModel.unpack < limit
  generalize x.toModel.unpack = u at hbounds
  -- an infinity is worth the limit itself, and every finite number less
  cases u with
  | notANumber => simp [UnpackedFloat.isNaN, UnpackedFloat.isFinite]
  | infinity s => cases s <;> simp [UnpackedFloat.isFinite, valueOf, Sign.apply]
  | zero s => exact ⟨fun _ => ⟨rfl, hbounds rfl⟩, fun _ => rfl⟩
  | finite s m e hm => exact ⟨fun _ => ⟨rfl, hbounds rfl⟩, fun _ => rfl⟩

/-- What is finite is a number. -/
theorem isNumber_of_isFinite (h : x.isFinite = true) : IsNumber x := (isFinite_iff.mp h).1

/-- In units every double lies between the limits, infinities at them. -/
theorem units_bounds (x : Float) : -(limit : Int) ≤ units x ∧ units x ≤ limit := by
  have hpos := limit_pos
  have hbounds := (proper x).valueOf_lt
  show -(limit : Int) ≤ valueOf x.toModel.unpack ∧ valueOf x.toModel.unpack ≤ limit
  generalize x.toModel.unpack = u at hbounds
  cases u with
  | notANumber => simp [valueOf]
  | infinity s => cases s <;> simp only [valueOf, Sign.apply] <;> omega
  | zero s => simp [valueOf]
  | finite s m e hm => exact ⟨(hbounds rfl).1.le, (hbounds rfl).2.le⟩

/-! ## Order -/

/-- Two numbers are comparable, and what is not a number is comparable with nothing. -/
theorem compare_unpack (x y : Float) :
    x.toModel.unpack.compare y.toModel.unpack = some (compare (units x) (units y)) ∧
        IsNumber x ∧ IsNumber y ∨
      x.toModel.unpack.compare y.toModel.unpack = none ∧ ¬ (IsNumber x ∧ IsNumber y) := by
  have hcompare := (proper x).compare_eq (proper y)
  show _ ∧ x.toModel.unpack.isNaN = false ∧ y.toModel.unpack.isNaN = false ∨
    _ ∧ ¬ (x.toModel.unpack.isNaN = false ∧ y.toModel.unpack.isNaN = false)
  by_cases h : x.toModel.unpack.isNaN = false ∧ y.toModel.unpack.isNaN = false
  · exact .inl ⟨hcompare h.1 h.2, h⟩
  · -- without two numbers there is nothing to compare
    refine .inr ⟨?_, h⟩
    generalize x.toModel.unpack = u at h
    generalize y.toModel.unpack = v at h
    cases u <;> cases v <;> simp [UnpackedFloat.isNaN, UnpackedFloat.compare] at h ⊢

/-- Doubles compare as their units do, if both are numbers. -/
theorem le_iff : x ≤ y ↔ IsNumber x ∧ IsNumber y ∧ units x ≤ units y := by
  have hle : x ≤ y ↔ UnpackedFloat.le x.toModel.unpack y.toModel.unpack = true := decide_eq_true_iff
  rw [hle, UnpackedFloat.le]
  rcases compare_unpack x y with ⟨hcompare, hx, hy⟩ | ⟨hcompare, h⟩
  · simp only [hcompare, hx, hy, true_and]
    exact Std.isLE_compare
  · rw [hcompare]
    exact ⟨nofun, fun hle => absurd ⟨hle.1, hle.2.1⟩ h⟩

/-- Strictly as well. -/
theorem lt_iff : x < y ↔ IsNumber x ∧ IsNumber y ∧ units x < units y := by
  have hlt : x < y ↔ UnpackedFloat.lt x.toModel.unpack y.toModel.unpack = true := decide_eq_true_iff
  rw [hlt, UnpackedFloat.lt]
  rcases compare_unpack x y with ⟨hcompare, hx, hy⟩ | ⟨hcompare, h⟩
  · simp [hcompare, hx, hy, compare_lt_iff_lt]
  · rw [hcompare]
    exact ⟨nofun, fun hlt => absurd ⟨hlt.1, hlt.2.1⟩ h⟩

/-- And they are equal if their units are, so that both zeros are. -/
theorem beq_iff : (x == y) = true ↔ IsNumber x ∧ IsNumber y ∧ units x = units y := by
  show UnpackedFloat.beq x.toModel.unpack y.toModel.unpack = true ↔ _
  rw [UnpackedFloat.beq]
  rcases compare_unpack x y with ⟨hcompare, hx, hy⟩ | ⟨hcompare, h⟩
  · simp [hcompare, hx, hy]
  · rw [hcompare]
    exact ⟨nofun, fun heq => absurd ⟨heq.1, heq.2.1⟩ h⟩

theorem le_trans (h : x ≤ y) (h' : y ≤ z) : x ≤ z := by
  rw [le_iff] at *
  exact ⟨h.1, h'.2.1, h.2.2.trans h'.2.2⟩

theorem le_refl (hx : IsNumber x) : x ≤ x := le_iff.mpr ⟨hx, hx, Int.le_refl _⟩

theorem le_of_lt (h : x < y) : x ≤ y := by
  rw [lt_iff] at h
  exact le_iff.mpr ⟨h.1, h.2.1, h.2.2.le⟩

theorem lt_irrefl (x : Float) : ¬ x < x := fun h => Int.lt_irrefl _ (lt_iff.mp h).2.2

/-- Of two doubles in order the other order is not strict. -/
theorem not_lt_of_le (h : x ≤ y) : ¬ y < x := fun hlt =>
  Int.not_le.mpr (lt_iff.mp hlt).2.2 (le_iff.mp h).2.2

/-- Two numbers are in one order or the other. -/
theorem le_of_not_lt (hx : IsNumber x) (hy : IsNumber y) (h : ¬ x < y) : y ≤ x := by
  rw [lt_iff] at h
  exact le_iff.mpr ⟨hy, hx, Int.not_lt.mp fun hlt => h ⟨hx, hy, hlt⟩⟩

theorem lt_of_lt_of_le (h : x < y) (h' : y ≤ z) : x < z := by
  rw [lt_iff] at *
  rw [le_iff] at h'
  exact ⟨h.1, h'.2.1, h.2.2.trans_le h'.2.2⟩

/-! ## Sums -/

/-- What an exact worth becomes as a double. -/
def saturate (n : Int) : Int := cutOff (roundInt n)

/-- Saturation keeps the order. -/
theorem saturate_mono : Monotone saturate := by
  intro m n hmn
  have hround := roundInt_mono hmn
  unfold saturate cutOff
  omega

/-- A finite double has nothing to saturate. -/
theorem saturate_units (h : x.isFinite = true) : saturate (units x) = units x := by
  have hbounds := isFinite_iff.mp h
  have hround : roundInt (units x) = units x := (proper x).roundInt_eq h
  rw [saturate, hround, cutOff]
  omega

/-- What packing makes of a number as rounding leaves it. -/
theorem units_ofModel_pack {u : UnpackedFloat} (h : Canonical u) (hnumber : u.isNaN = false) :
    IsNumber (.ofModel (.pack u)) ∧ units (.ofModel (.pack u)) = cutOff (valueOf u) := by
  refine ⟨isNumber_iff_sign.mpr ?_, valueOf_unpack_pack h⟩
  have hsign : signOf? (.ofModel (.pack u)) = sign? u := sign?_unpack_pack u
  rw [hsign]
  cases u with
  | notANumber => cases hnumber
  | _ => exact ⟨_, rfl⟩

/-- The worth of a number that is written with a smaller exponent. -/
theorem apply_decreased (s : Sign) (m : Nat) {d e : Int} (hd : -1074 ≤ d) (hde : d ≤ e) :
    s.apply (m * 2 ^ (e - d).toNat : Nat) * 2 ^ (d + 1074).toNat = s.apply (magnitude m e) := by
  have hmagnitude : magnitude (m * 2 ^ (e - d).toNat) d = magnitude m e := by
    rw [magnitude_mul_two_pow _ _ hd, Int.toNat_of_nonneg (by omega)]
    congr 1
    omega
  rw [← hmagnitude]
  cases s <;> simp [Sign.apply, magnitude]

/-- The worth of a finite sum before it is packed. -/
theorem valueOf_add {u v : UnpackedFloat} (hu : Proper u) (hv : Proper v) (hufinite : u.isFinite = true)
    (hvfinite : v.isFinite = true) :
    Canonical (add .binary64 u v) ∧ (add .binary64 u v).isNaN = false ∧
      valueOf (add .binary64 u v) = roundInt (valueOf u + valueOf v) := by
  have huround := hu.roundInt_eq hufinite
  have hvround := hv.roundInt_eq hvfinite
  -- a zero leaves the other summand, which is a double and not changed by rounding
  cases u with
  | notANumber => cases hufinite
  | infinity s => cases hufinite
  | zero s =>
    cases v with
    | notANumber => cases hvfinite
    | infinity t => cases hvfinite
    | zero t =>
      have hzero : add .binary64 (.zero s) (.zero t) = if s == t then .zero s else .zero .positive := rfl
      rw [hzero]
      split <;> exact ⟨trivial, rfl, huround.symm⟩
    | finite t n f hn =>
      refine ⟨hv.1, rfl, ?_⟩
      rw [show valueOf (.zero s) = 0 from rfl, Int.zero_add, hvround]
      rfl
  | finite s m e hm =>
    cases v with
    | notANumber => cases hvfinite
    | infinity t => cases hvfinite
    | zero t =>
      refine ⟨hu.1, rfl, ?_⟩
      rw [show valueOf (.zero t) = 0 from rfl, Int.add_zero, huround]
      rfl
    | finite t n f hn =>
      -- both are written with the smaller exponent, so that their sum is exact before it is rounded
      have he := hu.1.le
      have hf := hv.1.le
      obtain ⟨hcanonical, hfinite, hvalue⟩ := normalize_spec (e := min e f) (by omega)
        (n := s.apply (m * 2 ^ (e - min e f).toNat : Nat) + t.apply (n * 2 ^ (f - min e f).toNat : Nat))
        .positive
      rw [Int.add_mul, apply_decreased s m (by omega) (by omega),
        apply_decreased t n (by omega) (by omega)] at hvalue
      have hadd : add .binary64 (.finite s m e hm) (.finite t n f hn) =
          UnpackedFloat.normalize .binary64 (s.apply (m * 2 ^ (e - min e f).toNat : Nat) +
            t.apply (n * 2 ^ (f - min e f).toNat : Nat)) (min e f) .positive := by
        rw [← Nat.shiftLeft_eq, ← Nat.shiftLeft_eq]
        rfl
      rw [hadd]
      exact ⟨hcanonical, isNaN_of_isFinite hfinite, hvalue⟩

/-- **A sum of finite doubles** is the sum of their worths, rounded and cut off. -/
theorem units_add (hx : x.isFinite = true) (hy : y.isFinite = true) :
    IsNumber (x + y) ∧ units (x + y) = saturate (units x + units y) := by
  obtain ⟨hcanonical, hnumber, hvalue⟩ := valueOf_add (proper x) (proper y) hx hy
  rw [saturate, show units x + units y = valueOf x.toModel.unpack + valueOf y.toModel.unpack from rfl,
    ← hvalue]
  exact units_ofModel_pack hcanonical hnumber

/-- A number that is not finite is an infinity. -/
theorem unpack_of_infinite (hx : IsNumber x) (hinfinite : ¬ x.isFinite = true) :
    ∃ s, x.toModel.unpack = .infinity s := by
  change x.toModel.unpack.isNaN = false at hx
  change ¬ x.toModel.unpack.isFinite = true at hinfinite
  generalize x.toModel.unpack = u at hx hinfinite
  cases u with
  | notANumber => cases hx
  | infinity s => exact ⟨s, rfl⟩
  | zero _ => exact absurd rfl hinfinite
  | finite _ _ _ _ => exact absurd rfl hinfinite

/-- A number that is not finite lies at one of the limits. -/
theorem units_of_infinite (hx : IsNumber x) (hinfinite : ¬ x.isFinite = true) :
    units x = -(limit : Int) ∨ units x = limit := by
  obtain ⟨s, hs⟩ := unpack_of_infinite hx hinfinite
  have hunits : units x = s.apply limit := congrArg valueOf hs
  cases s with
  | negative => exact .inl hunits
  | positive => exact .inr hunits

/-- An infinity that is not negative. -/
theorem unpack_of_nonneg_infinite (hx : IsNumber x) (hinfinite : ¬ x.isFinite = true) (h : 0 ≤ units x) :
    x.toModel.unpack = .infinity .positive := by
  obtain ⟨s, hs⟩ := unpack_of_infinite hx hinfinite
  have hunits : units x = s.apply limit := congrArg valueOf hs
  have hpos := limit_pos
  cases s with
  | negative =>
    rw [hunits, Sign.apply] at h
    omega
  | positive => exact hs

/-- Packing leaves infinities what they are. -/
theorem units_ofModel_pack_infinity (s : Sign) :
    IsNumber (.ofModel (.pack (.infinity s))) ∧ units (.ofModel (.pack (.infinity s))) = s.apply limit := by
  obtain ⟨hnumber, hunits⟩ := units_ofModel_pack (u := .infinity s) trivial rfl
  have hpos := limit_pos
  refine ⟨hnumber, hunits.trans ?_⟩
  cases s <;> simp only [valueOf, Sign.apply, cutOff] <;> omega

/-- An infinity stays what it is if something finite is added. -/
theorem units_add_of_infinite (hx : IsNumber x) (hinfinite : ¬ x.isFinite = true)
    (hy : y.isFinite = true) : IsNumber (x + y) ∧ units (x + y) = units x := by
  obtain ⟨s, hs⟩ := unpack_of_infinite hx hinfinite
  -- whatever finite number is added to an infinity, the infinity stays
  have hadd : add .binary64 x.toModel.unpack y.toModel.unpack = .infinity s := by
    change y.toModel.unpack.isFinite = true at hy
    generalize y.toModel.unpack = v at hy
    rw [hs]
    cases v with
    | notANumber => cases hy
    | infinity _ => cases hy
    | zero _ => rfl
    | finite _ _ _ _ => rfl
  have hunits : units x = s.apply limit := congrArg valueOf hs
  have hpack := units_ofModel_pack_infinity s
  rw [← hadd] at hpack
  exact ⟨hpack.1, hpack.2.trans hunits.symm⟩

/-- Adding something finite to a number makes a number. -/
theorem isNumber_add (hx : IsNumber x) (hy : y.isFinite = true) : IsNumber (x + y) := by
  by_cases hfinite : x.isFinite = true
  · exact (units_add hfinite hy).1
  · exact (units_add_of_infinite hx hfinite hy).1

/-- **Adding something finite is monotone**, on infinities too. -/
theorem add_le_add_right (hxy : x ≤ y) (hz : z.isFinite = true) : x + z ≤ y + z := by
  obtain ⟨hx, hy, hle⟩ := le_iff.mp hxy
  refine le_iff.mpr ⟨isNumber_add hx hz, isNumber_add hy hz, ?_⟩
  by_cases hxfinite : x.isFinite = true
  · by_cases hyfinite : y.isFinite = true
    · rw [(units_add hxfinite hz).2, (units_add hyfinite hz).2]
      exact saturate_mono (by omega)
    -- above a finite double there is only one infinity
    · have hxbounds := isFinite_iff.mp hxfinite
      have htop := units_bounds (x + z)
      have hinfinite := units_of_infinite hy hyfinite
      rw [(units_add_of_infinite hy hyfinite hz).2]
      omega
  · rw [(units_add_of_infinite hx hxfinite hz).2]
    by_cases hyfinite : y.isFinite = true
    -- and below it there is only the other one
    · have hybounds := isFinite_iff.mp hyfinite
      have hbottom := units_bounds (y + z)
      have hinfinite := units_of_infinite hx hxfinite
      omega
    · rw [(units_add_of_infinite hy hyfinite hz).2]
      exact hle

/-- Zero is a number. -/
theorem isNumber_zero : IsNumber 0.0 := by
  show (0.0 : Float).isNaN = false
  decide

theorem units_zero : units 0.0 = 0 := by decide

/-- What is not negative is a number whose units are not. -/
theorem nonneg_iff : 0.0 ≤ x ↔ IsNumber x ∧ 0 ≤ units x := by
  rw [le_iff, units_zero]
  exact ⟨fun h => h.2, fun h => ⟨isNumber_zero, h⟩⟩

/-- What is positive is a number whose units are. -/
theorem pos_iff : 0.0 < x ↔ IsNumber x ∧ 0 < units x := by
  rw [lt_iff, units_zero]
  exact ⟨fun h => h.2, fun h => ⟨isNumber_zero, h⟩⟩

/-- Unpacked sums do not depend on the order. -/
theorem unpacked_add_comm (u v : UnpackedFloat) : add .binary64 u v = add .binary64 v u := by
  -- two finite summands are written with the smaller exponent, whichever of them it belongs to
  cases u with
  | notANumber => cases v <;> rfl
  | infinity s =>
    cases v with
    | infinity t => cases s <;> cases t <;> rfl
    | _ => rfl
  | zero s =>
    cases v with
    | zero t => cases s <;> cases t <;> rfl
    | _ => rfl
  | finite s m e hm =>
    cases v with
    | finite t n f hn =>
      unfold UnpackedFloat.add
      dsimp only
      rw [Int.add_comm, min_comm]
    | _ => rfl

/-- Sums do not depend on the order. -/
theorem add_comm (x y : Float) : x + y = y + x :=
  congrArg (fun u => Float.ofModel (.pack u)) (unpacked_add_comm x.toModel.unpack y.toModel.unpack)

/-- **What is not negative does not make a sum smaller.** -/
theorem le_add_of_nonneg (hx : 0.0 ≤ x) (hy : 0.0 ≤ y) : x ≤ x + y := by
  obtain ⟨hxnumber, hx0⟩ := nonneg_iff.mp hx
  obtain ⟨hynumber, hy0⟩ := nonneg_iff.mp hy
  have hbounds := units_bounds x
  rw [le_iff]
  by_cases hxfinite : x.isFinite = true
  · by_cases hyfinite : y.isFinite = true
    · obtain ⟨hsum, hunits⟩ := units_add hxfinite hyfinite
      refine ⟨hxnumber, hsum, ?_⟩
      calc units x = saturate (units x) := (saturate_units hxfinite).symm
        _ ≤ saturate (units x + units y) := saturate_mono (by omega)
        _ = units (x + y) := hunits.symm
    · rw [add_comm]
      obtain ⟨hsum, hunits⟩ := units_add_of_infinite hynumber hyfinite hxfinite
      have hinfinite := units_of_infinite hynumber hyfinite
      have hpos := limit_pos
      exact ⟨hxnumber, hsum, by omega⟩
  · by_cases hyfinite : y.isFinite = true
    · obtain ⟨hsum, hunits⟩ := units_add_of_infinite hxnumber hxfinite hyfinite
      exact ⟨hxnumber, hsum, hunits.ge⟩
    -- two infinities, both positive
    · have hadd : add .binary64 x.toModel.unpack y.toModel.unpack = .infinity .positive := by
        rw [unpack_of_nonneg_infinite hxnumber hxfinite hx0, unpack_of_nonneg_infinite hynumber hyfinite hy0]
        rfl
      have hpack := units_ofModel_pack_infinity .positive
      rw [← hadd] at hpack
      exact ⟨hxnumber, hpack.1, hbounds.2.trans_eq hpack.2.symm⟩

/-! ## Differences -/

/-- The opposite sign gives the opposite value. -/
theorem apply_neg (s : Sign) (n : Int) : (-s).apply n = -s.apply n := by
  cases s with
  | negative => exact (Int.neg_neg n).symm
  | positive => rfl

/-- The opposite unpacks to the opposite. -/
theorem unpack_neg (x : Float) : (-x).toModel.unpack = x.toModel.unpack.neg := by
  have hproper : Proper x.toModel.unpack.neg := by
    have hx := proper x
    revert hx
    generalize x.toModel.unpack = u
    cases u <;> exact id
  exact hproper.unpack_pack

/-- And is worth the opposite. -/
theorem units_neg (x : Float) : units (-x) = -units x := by
  rw [units, unpack_neg, units]
  cases x.toModel.unpack with
  | notANumber => rfl
  | infinity s => exact apply_neg s _
  | zero s => rfl
  | finite s m e hm => exact apply_neg s _

/-- The opposite of a number is one. -/
theorem isNumber_neg (hx : IsNumber x) : IsNumber (-x) := by
  show (-x).toModel.unpack.isNaN = false
  rw [unpack_neg]
  change x.toModel.unpack.isNaN = false at hx
  revert hx
  cases x.toModel.unpack <;> exact id

/-- That of a finite number is finite. -/
theorem isFinite_neg (hx : x.isFinite = true) : (-x).isFinite = true := by
  have hbounds := isFinite_iff.mp hx
  have hneg := units_neg x
  exact isFinite_iff.mpr ⟨isNumber_neg hbounds.1, by omega, by omega⟩

/-- The magnitude unpacks without its sign. -/
theorem unpack_abs (x : Float) : x.abs.toModel.unpack = x.toModel.unpack.abs := by
  have hproper : Proper x.toModel.unpack.abs := by
    have hx := proper x
    revert hx
    generalize x.toModel.unpack = u
    cases u <;> exact id
  exact hproper.unpack_pack

/-- A sign does not change a magnitude. -/
theorem natAbs_apply (s : Sign) (n : Nat) : (s.apply n).natAbs = n := by
  cases s <;> simp [Sign.apply]

/-- The magnitude is worth as much as the number, without its sign. -/
theorem units_abs (x : Float) : units x.abs = (units x).natAbs := by
  rw [units, unpack_abs, units]
  cases x.toModel.unpack with
  | notANumber => rfl
  | infinity s => exact congrArg Nat.cast (natAbs_apply s limit).symm
  | zero s => rfl
  | finite s m e hm => exact congrArg Nat.cast (natAbs_apply s _).symm

/-- The magnitude of a number is one. -/
theorem isNumber_abs (hx : IsNumber x) : IsNumber x.abs := by
  show x.abs.toModel.unpack.isNaN = false
  rw [unpack_abs]
  change x.toModel.unpack.isNaN = false at hx
  revert hx
  cases x.toModel.unpack <;> exact id

/-- To subtract is to add the opposite. -/
theorem sub_eq_add_neg (x y : Float) : x - y = x + -y := by
  -- each case of a difference is that of the sum with the other sign, before anything is rounded
  have hsub : sub .binary64 x.toModel.unpack y.toModel.unpack =
      add .binary64 x.toModel.unpack (-y).toModel.unpack := by
    rw [unpack_neg]
    generalize x.toModel.unpack = u
    generalize y.toModel.unpack = v
    cases u with
    | notANumber => rfl
    | infinity s => cases v <;> rfl
    | zero s => cases v <;> rfl
    | finite s m e hm =>
      cases v with
      | finite t n f hn =>
        unfold UnpackedFloat.sub UnpackedFloat.add UnpackedFloat.neg
        dsimp only
        rw [apply_neg, Int.sub_eq_add_neg]
      | _ => rfl
  exact congrArg (fun u => Float.ofModel (.pack u)) hsub

/-- Differences keep the order of what is subtracted from. -/
theorem sub_le_sub_right (hxy : x ≤ y) (hz : z.isFinite = true) : x - z ≤ y - z := by
  rw [sub_eq_add_neg, sub_eq_add_neg]
  exact add_le_add_right hxy (isFinite_neg hz)

/-- If a difference is a number, so is what was subtracted from. -/
theorem isNumber_of_sub (h : IsNumber (x - y)) : IsNumber x := by
  change (unpack .binary64 (pack .binary64 (sub .binary64 x.toModel.unpack y.toModel.unpack))).isNaN =
    false at h
  show x.toModel.unpack.isNaN = false
  -- a difference from what is no number would be no number
  revert h
  cases x.toModel.unpack with
  | notANumber =>
    intro h
    rw [show sub .binary64 .notANumber y.toModel.unpack = .notANumber from rfl,
      show unpack .binary64 (pack .binary64 .notANumber) = .notANumber from unpack_packedNaN] at h
    exact h
  | _ => exact fun _ => rfl

/-- What positive infinity is taken away from is below zero, or not a number. -/
theorem isFinite_of_sub_pos (hxy : 0.0 < x - y) (hy : 0.0 ≤ y) : y.isFinite = true := by
  by_contra hinfinite
  obtain ⟨hynumber, hy0⟩ := nonneg_iff.mp hy
  obtain ⟨hnumber, hpos⟩ := pos_iff.mp hxy
  have ht := unpack_of_nonneg_infinite hynumber hinfinite hy0
  have hlimit := limit_pos
  -- whatever it is taken from, positive infinity leaves no positive number
  have hsub : (x - y).toModel.unpack = .notANumber ∨ (x - y).toModel.unpack = .infinity .negative := by
    have hpacked : (x - y).toModel.unpack =
        unpack .binary64 (pack .binary64 (sub .binary64 x.toModel.unpack y.toModel.unpack)) := rfl
    rw [hpacked, ht]
    cases x.toModel.unpack with
    | notANumber => exact .inl unpack_packedNaN
    | infinity s =>
      cases s with
      | negative => exact .inr (unpack_packedInfinity _)
      | positive => exact .inl unpack_packedNaN
    | zero s => exact .inr (unpack_packedInfinity _)
    | finite s m e hm => exact .inr (unpack_packedInfinity _)
  rcases hsub with hnan | hinf
  · change (x - y).toModel.unpack.isNaN = false at hnumber
    rw [hnan] at hnumber
    cases hnumber
  · change 0 < valueOf (x - y).toModel.unpack at hpos
    rw [hinf, valueOf, Sign.apply] at hpos
    omega

/-- Taking away what is not negative does not make a finite double larger. -/
theorem sub_le_self (hx : x.isFinite = true) (hy : 0.0 ≤ y) (hyfinite : y.isFinite = true) :
    x - y ≤ x := by
  have hy0 := (nonneg_iff.mp hy).2
  obtain ⟨hnumber, hunits⟩ := units_add hx (isFinite_neg hyfinite)
  rw [sub_eq_add_neg, le_iff]
  refine ⟨hnumber, isNumber_of_isFinite hx, ?_⟩
  calc units (x + -y) = saturate (units x + units (-y)) := hunits
    _ ≤ saturate (units x) := saturate_mono (by rw [units_neg]; omega)
    _ = units x := saturate_units hx

/-- The difference of two finite doubles that are not negative is finite. -/
theorem isFinite_sub (hx : x.isFinite = true) (hx0 : 0.0 ≤ x) (hy : y.isFinite = true)
    (hy0 : 0.0 ≤ y) : (x - y).isFinite = true := by
  have hunitsx := (nonneg_iff.mp hx0).2
  have hunitsy := (nonneg_iff.mp hy0).2
  have hneg := units_neg y
  have hxbounds := isFinite_iff.mp hx
  have hybounds := isFinite_iff.mp hy
  obtain ⟨hnumber, hunits⟩ := units_add hx (isFinite_neg hy)
  -- it lies between what is taken away, negated, and what it is taken from
  have hhigh : saturate (units x + units (-y)) ≤ units x := by
    rw [← saturate_units hx]
    exact saturate_mono (by rw [saturate_units hx]; omega)
  have hlow : units (-y) ≤ saturate (units x + units (-y)) := by
    rw [← saturate_units (isFinite_neg hy)]
    exact saturate_mono (by rw [saturate_units (isFinite_neg hy)]; omega)
  rw [sub_eq_add_neg]
  exact isFinite_iff.mpr ⟨hnumber, by omega, by omega⟩

/-- What lies between finite doubles is finite. -/
theorem isFinite_of_le_of_le (hx : x.isFinite = true) (hxy : x ≤ y) (hyz : y ≤ z)
    (hz : z.isFinite = true) : y.isFinite = true := by
  obtain ⟨-, hynumber, hlow⟩ := le_iff.mp hxy
  obtain ⟨-, -, hhigh⟩ := le_iff.mp hyz
  have hx' := isFinite_iff.mp hx
  have hz' := isFinite_iff.mp hz
  exact isFinite_iff.mpr ⟨hynumber, by omega, by omega⟩

/-- What lies between zero and a finite number is finite. -/
theorem isFinite_of_nonneg_of_le (hx : 0.0 ≤ x) (hxy : x ≤ y) (hy : y.isFinite = true) :
    x.isFinite = true :=
  isFinite_of_le_of_le (by decide) hx hxy hy

/-- The largest finite double. -/
def largest : Float := .ofBits 0x7fefffffffffffff

theorem isFinite_largest : largest.isFinite = true := by decide

/-- No finite number is larger than the largest. -/
theorem le_largest (hx : x.isFinite = true) : x ≤ largest := by
  have hlargest : units largest = magnitude (2 ^ 53 - 1) 971 := by decide +kernel
  refine le_iff.mpr ⟨isNumber_of_isFinite hx, isNumber_of_isFinite isFinite_largest, ?_⟩
  rw [hlargest]
  have hproper := proper x
  change x.toModel.unpack.isFinite = true at hx
  show valueOf x.toModel.unpack ≤ _
  generalize x.toModel.unpack = u at hproper hx
  cases u with
  | notANumber => cases hx
  | infinity s => cases hx
  | zero s => exact Int.natCast_nonneg _
  -- the largest double has the largest mantissa and the largest exponent, and a sign only makes it smaller
  | finite s m e hm =>
    have hle : magnitude m e ≤ magnitude (2 ^ 53 - 1) 971 := by
      have hm := hproper.1.lt
      have he := hproper.2
      exact Nat.mul_le_mul (by omega) (Nat.pow_le_pow_right (by decide) (by omega))
    cases s <;> simp only [valueOf, Sign.apply] <;> omega

/-- A gain so small that the largest double stays as it is leaves every finite double finite. -/
theorem isFinite_add (hx : x.isFinite = true) (hx0 : 0.0 ≤ x) (hy : 0.0 ≤ y)
    (hyfinite : y.isFinite = true) (hsmall : largest + y ≤ largest) : (x + y).isFinite = true :=
  isFinite_of_le_of_le hx (le_add_of_nonneg hx0 hy)
    (le_trans (add_le_add_right (le_largest hx) hyfinite) hsmall) isFinite_largest

/-! ## Products and quotients -/

/-- Rounding keeps the sign, also that of what it rounds to zero. -/
theorem sign?_roundWithAccuracy (s : Sign) (m : Nat) (e : Int) (a : Accuracy) :
    sign? (roundWithAccuracy .binary64 s m e a) = some s := by
  unfold roundWithAccuracy
  dsimp only
  split <;> rfl

/-- The sign of a product is the product of the signs. -/
theorem sign?_mul_finite {s t : Sign} {m n : Nat} {e f : Int} (hm : 0 < m) (hn : 0 < n) :
    sign? (mul .binary64 (.finite s m e hm) (.finite t n f hn)) = some (s * t) :=
  sign?_roundWithAccuracy _ _ _ _

/-- A finite double other than zero, and its sign. -/
theorem unpack_of_ne_zero (hx : x.isFinite = true) (hne : units x ≠ 0) :
    ∃ s m e hm, x.toModel.unpack = .finite s m e hm := by
  change x.toModel.unpack.isFinite = true at hx
  change valueOf x.toModel.unpack ≠ 0 at hne
  generalize x.toModel.unpack = u at hx hne
  cases u with
  | notANumber => cases hx
  | infinity _ => cases hx
  | zero _ => exact absurd rfl hne
  | finite s m e hm => exact ⟨s, m, e, hm, rfl⟩

/-- A finite double above zero, by its mantissa and exponent. -/
theorem unpack_of_pos (hx : x.isFinite = true) (hpos : 0 < units x) :
    ∃ m e hm, x.toModel.unpack = .finite .positive m e hm ∧ Proper (.finite .positive m e hm) ∧
      units x = magnitude m e := by
  obtain ⟨s, m, e, hm, hunpack⟩ := unpack_of_ne_zero hx (by omega)
  have hworth : units x = valueOf (.finite s m e hm) := congrArg valueOf hunpack
  have hproper := proper x
  rw [hunpack] at hproper
  -- a negative number would be worth less than zero
  cases s with
  | positive => exact ⟨m, e, hm, hunpack, hproper, hworth⟩
  | negative =>
    simp only [valueOf, Sign.apply] at hworth
    omega

/-- A product with a finite double other than zero is a number. -/
theorem signOf?_mul {s : Sign} (hx : signOf? x = some s) (hy : y.isFinite = true) (hne : units y ≠ 0) :
    ∃ t, signOf? y = some t ∧ signOf? (x * y) = some (s * t) := by
  obtain ⟨t, n, f, hn, hunpack⟩ := unpack_of_ne_zero hy hne
  refine ⟨t, congrArg sign? hunpack, ?_⟩
  refine (sign?_unpack_pack (mul .binary64 x.toModel.unpack y.toModel.unpack)).trans ?_
  -- a product has the product of the signs, whether it is rounded, zero or infinite
  rw [hunpack]
  change sign? x.toModel.unpack = some s at hx
  generalize x.toModel.unpack = u at hx
  cases u with
  | notANumber => cases hx
  | infinity _ =>
    cases hx
    rfl
  | zero _ =>
    cases hx
    rfl
  | finite s' m e hm =>
    cases hx
    exact sign?_mul_finite _ _

/-- A number times a finite number other than zero is a number. -/
theorem isNumber_mul (hx : IsNumber x) (hy : y.isFinite = true) (hne : units y ≠ 0) :
    IsNumber (x * y) := by
  obtain ⟨s, hs⟩ := isNumber_iff_sign.mp hx
  obtain ⟨t, -, hproduct⟩ := signOf?_mul hs hy hne
  exact isNumber_iff_sign.mpr ⟨_, hproduct⟩

/-- A quotient by a finite double other than zero is a number. -/
theorem signOf?_div {s : Sign} (hx : signOf? x = some s) (hy : y.isFinite = true) (hne : units y ≠ 0) :
    ∃ t, signOf? y = some t ∧ signOf? (x / y) = some (s / t) := by
  obtain ⟨t, n, f, hn, hunpack⟩ := unpack_of_ne_zero hy hne
  refine ⟨t, congrArg sign? hunpack, ?_⟩
  refine (sign?_unpack_pack (div .binary64 x.toModel.unpack y.toModel.unpack)).trans ?_
  -- a quotient has the quotient of the signs, whether it is rounded, zero or infinite
  rw [hunpack]
  change sign? x.toModel.unpack = some s at hx
  generalize x.toModel.unpack = u at hx
  cases u with
  | notANumber => cases hx
  | finite s' m e hm =>
    cases hx
    exact sign?_roundWithAccuracy _ _ _ _
  | _ =>
    cases hx
    rfl

/-- A quotient of a finite double by a number other than zero is a number. -/
theorem isNumber_div (hx : x.isFinite = true) (hy : IsNumber y) (hne : units y ≠ 0) :
    IsNumber (x / y) := by
  by_cases hyfinite : y.isFinite = true
  · obtain ⟨s, hs⟩ := isNumber_iff_sign.mp (isNumber_of_isFinite hx)
    obtain ⟨t, -, hquotient⟩ := signOf?_div hs hyfinite hne
    exact isNumber_iff_sign.mpr ⟨_, hquotient⟩
  · -- over an infinity the quotient is a zero, which has a sign
    obtain ⟨t, ht⟩ := unpack_of_infinite hy hyfinite
    have hsign : signOf? (x / y) = sign? (div .binary64 x.toModel.unpack y.toModel.unpack) :=
      sign?_unpack_pack _
    rw [isNumber_iff_sign, hsign, ht]
    change x.toModel.unpack.isFinite = true at hx
    generalize x.toModel.unpack = u at hx
    cases u with
    | notANumber => cases hx
    | infinity _ => cases hx
    | zero _ => exact ⟨_, rfl⟩
    | finite _ _ _ _ => exact ⟨_, rfl⟩

/-- What has a positive sign is not negative. -/
theorem nonneg_of_signOf? (hx : signOf? x = some .positive) : 0.0 ≤ x := by
  refine nonneg_iff.mpr ⟨isNumber_iff_sign.mpr ⟨_, hx⟩, ?_⟩
  change sign? x.toModel.unpack = some .positive at hx
  show 0 ≤ valueOf x.toModel.unpack
  generalize x.toModel.unpack = u at hx
  cases u with
  | notANumber => cases hx
  | zero _ => exact Int.le_refl 0
  | _ =>
    cases hx
    exact Int.natCast_nonneg _

/-- What is positive has a positive sign. -/
theorem signOf?_of_pos (hx : 0.0 < x) : signOf? x = some .positive := by
  obtain ⟨hnumber, hpos⟩ := pos_iff.mp hx
  obtain ⟨s, hs⟩ := isNumber_iff_sign.mp hnumber
  rw [hs]
  change sign? x.toModel.unpack = some s at hs
  change 0 < valueOf x.toModel.unpack at hpos
  generalize x.toModel.unpack = u at hs hpos
  -- a negative sign leaves nothing above zero
  cases s with
  | positive => rfl
  | negative =>
    cases u with
    | notANumber => cases hs
    | zero _ => exact absurd hpos (Int.lt_irrefl 0)
    | _ =>
      cases hs
      simp only [valueOf, Sign.apply] at hpos
      omega

/-- What has a positive sign, divided by a positive finite number, is not negative. -/
theorem div_nonneg (hx : signOf? x = some .positive) (hy : 0.0 < y) (hyfinite : y.isFinite = true) :
    0.0 ≤ x / y := by
  have hne := (pos_iff.mp hy).2.ne'
  obtain ⟨t, ht, hquotient⟩ := signOf?_div hx hyfinite hne
  rw [signOf?_of_pos hy] at ht
  cases ht
  exact nonneg_of_signOf? hquotient

/-- A natural number has a positive sign as a double, and so has zero. -/
theorem sign?_ofNat (n : Nat) : sign? (UnpackedFloat.ofNat .binary64 n) = some .positive := by
  unfold UnpackedFloat.ofNat UnpackedFloat.ofInt UnpackedFloat.normalize
  rcases Nat.eq_zero_or_pos n with rfl | hpos
  · rfl
  · rw [compare_gt_iff_gt.mpr (Int.natCast_pos.mpr hpos)]
    exact sign?_roundWithAccuracy _ _ _ _

/-- So has a natural number that is read from its digits. -/
theorem sign?_ofScientific (n : Nat) :
    sign? (UnpackedFloat.ofScientific .binary64 n 0) = some .positive := by
  unfold UnpackedFloat.ofScientific
  split_ifs with hzero hlarge hsmall hnonneg
  · rfl
  · rfl
  · rfl
  · exact sign?_mul_finite _ _
  · exact absurd (Int.le_refl 0) hnonneg

/-- The double of a natural number is not negative. -/
theorem signOf?_ofNat (n : Nat) : signOf? (Float.ofNat n) = some .positive := by
  show signOf? (Float.ofScientific n false 0) = some .positive
  unfold Float.ofScientific
  split
  · -- small numbers are read from a word and multiplied by one
    have hword : signOf? n.toUInt64.toFloat = some .positive :=
      (sign?_unpack_pack _).trans (sign?_ofNat n.toUInt64.toNat)
    have hone : (Float.ofBits 0x3FF0000000000000).isFinite = true := by decide
    have hne : units (Float.ofBits 0x3FF0000000000000) ≠ 0 := by decide +kernel
    have hsign : signOf? (Float.ofBits 0x3FF0000000000000) = some .positive := by rfl
    obtain ⟨t, ht, hproduct⟩ := signOf?_mul hword hone hne
    rw [hsign] at ht
    cases ht
    exact hproduct
  · -- the others are rounded directly
    exact (sign?_unpack_pack _).trans (sign?_ofScientific n)

/-! ## Clamps -/

theorem zero_lt_one : (0.0 : Float) < 1.0 := by decide

/-- What is clamped does not lie outside of zero and one, and if it was a number, it lies inside. -/
theorem clampTo_bounds (x : Float) :
    ¬ clampTo 0.0 1.0 x < 0.0 ∧ ¬ 1.0 < clampTo 0.0 1.0 x ∧
      (IsNumber x → 0.0 ≤ clampTo 0.0 1.0 x ∧ clampTo 0.0 1.0 x ≤ 1.0) := by
  have hzero : (0.0 : Float) ≤ 1.0 := le_of_lt zero_lt_one
  have hzeroNumber := (lt_iff.mp zero_lt_one).1
  have honeNumber := (lt_iff.mp zero_lt_one).2.1
  unfold clampTo
  -- below, above or between the bounds, and what is no number counts as between
  dsimp only
  split
  · rw [if_neg (not_lt_of_le hzero)]
    exact ⟨lt_irrefl _, not_lt_of_le hzero, fun _ => ⟨le_refl hzeroNumber, hzero⟩⟩
  · rename_i hlow
    split
    · exact ⟨not_lt_of_le hzero, lt_irrefl _, fun _ => ⟨hzero, le_refl honeNumber⟩⟩
    · rename_i hhigh
      exact ⟨hlow, hhigh, fun hx =>
        ⟨le_of_not_lt hx hzeroNumber hlow, le_of_not_lt honeNumber hx hhigh⟩⟩

/-- The larger of two doubles is no smaller than the second, if that is a number. -/
theorem le_greater (x : Float) (hy : IsNumber y) : y ≤ greater x y := by
  unfold greater
  split
  · exact le_refl hy
  · rename_i hnumber
    split
    · exact le_refl hy
    · rename_i hle
      exact le_of_not_lt (Bool.eq_false_iff.mpr hnumber) hy hle

/-- It is one of the two. -/
theorem greater_eq (x y : Float) : greater x y = x ∨ greater x y = y := by
  unfold greater
  split
  · exact .inr rfl
  · split
    · exact .inr rfl
    · exact .inl rfl

end

end Vivarium.Double
