import Vivarium.Proofs.Scalar.Arithmetic
import Vivarium.Turn.Sense

/-!
# The search for the nearest

The search for the nearest item goes through a list once and keeps the best item so far. It takes a new one
only if that is strictly nearer, so of several equally near the first is kept; and it passes over what is out
of range, even if nothing has been found yet. The invariant of the search is `Scanned`: the best item splits
what has been looked at into items that are farther away and items that are at least as far away.

The answer can also be told without the pass: it is the item in the first of all places that hold an item in range
than which none in range is nearer. There is one such place at most, and there is one if anything is in range. Items
out of range may be left out beforehand, wherever they stand, and those at a distance that is no number are always
out of range.

Main results: `nearestInRange_isNearest`, `nearestInRange_eq_none_iff`, `search_chooses_first_nearest`.
-/

namespace Vivarium

variable {α : Type} {origin : Vec} {range : Float} {place : α → Vec} {items : List α} {x y : α} {i j : Nat}

/-! ## The first of the nearest -/

/-- Among the items that count, `x` is nearest to the origin, and it is the first of several equally near:
none before it is as near, and none after it is nearer. -/
def IsNearest (origin : Vec) (place : α → Vec) (Counts : α → Prop) (items : List α) (x : α) : Prop :=
  Counts x ∧ ∃ before after, items = before ++ x :: after ∧
    (∀ y ∈ before, Counts y → origin.distance (place x) < origin.distance (place y)) ∧
    ∀ y ∈ after, Counts y → origin.distance (place x) ≤ origin.distance (place y)

namespace IsNearest

variable {Counts Counts' : α → Prop}

theorem mem (h : IsNearest origin place Counts items x) : x ∈ items := by
  obtain ⟨-, before, after, rfl, -, -⟩ := h
  exact List.mem_append_right before List.mem_cons_self

/-- No item that counts is nearer. -/
theorem le (h : IsNearest origin place Counts items x) (hnumber : Double.IsNumber (origin.distance (place x)))
    (hy : y ∈ items) (hcounts : Counts y) : origin.distance (place x) ≤ origin.distance (place y) := by
  obtain ⟨-, before, after, rfl, hbefore, hafter⟩ := h
  rcases List.mem_append.mp hy with hmem | hmem
  · exact Double.le_of_lt (hbefore y hmem hcounts)
  · rcases List.mem_cons.mp hmem with rfl | hmem
    · exact Double.le_refl hnumber
    · exact hafter y hmem hcounts

/-- One more item takes nothing away from the nearest if it is not nearer. -/
theorem append (h : IsNearest origin place Counts items x)
    (hy : Counts y → origin.distance (place x) ≤ origin.distance (place y)) :
    IsNearest origin place Counts (items ++ [y]) x := by
  obtain ⟨hx, before, after, rfl, hbefore, hafter⟩ := h
  refine ⟨hx, before, after ++ [y], List.append_assoc _ _ _, hbefore, fun z hz hcounts => ?_⟩
  rcases List.mem_append.mp hz with hz | hz
  · exact hafter z hz hcounts
  · cases List.mem_singleton.mp hz
    exact hy hcounts

/-- It is the nearest itself if it is nearer than all before it. -/
theorem last (hy : Counts y)
    (hbefore : ∀ z ∈ items, Counts z → origin.distance (place y) < origin.distance (place z)) :
    IsNearest origin place Counts (items ++ [y]) y :=
  ⟨hy, items, [], rfl, hbefore, nofun⟩

theorem congr (h : IsNearest origin place Counts items x) (hiff : ∀ y ∈ items, Counts y ↔ Counts' y) :
    IsNearest origin place Counts' items x := by
  have hmem := h.mem
  obtain ⟨hx, before, after, rfl, hbefore, hafter⟩ := h
  refine ⟨(hiff x hmem).mp hx, before, after, rfl, fun y hy hcounts => ?_, fun y hy hcounts => ?_⟩
  · exact hbefore y hy ((hiff y (List.mem_append_left _ hy)).mpr hcounts)
  · exact hafter y hy ((hiff y (List.mem_append_right _ (List.mem_cons_of_mem x hy))).mpr hcounts)

/-- The nearest of the items that pass a test is the nearest of all items among those that pass it. -/
theorem of_filter {test : α → Bool} (h : IsNearest origin place Counts (items.filter test) x) :
    IsNearest origin place (fun y => test y = true ∧ Counts y) items x := by
  obtain ⟨hx, passed, rest, hsplit, hpassed, hrest⟩ := h
  -- the same split of the whole list, with what was filtered out put back
  obtain ⟨before, tail, rfl, rfl, htail⟩ := List.filter_eq_append_iff.mp hsplit
  obtain ⟨skipped, after, rfl, hskipped, htest, rfl⟩ := List.filter_eq_cons_iff.mp htail
  refine ⟨⟨htest, hx⟩, before ++ skipped, after, (List.append_assoc _ _ _).symm, ?_, ?_⟩
  · rintro y hy ⟨hpass, hcounts⟩
    rcases List.mem_append.mp hy with hy | hy
    · exact hpassed y (List.mem_filter.mpr ⟨hy, hpass⟩) hcounts
    · exact absurd hpass (hskipped y hy)
  · rintro y hy ⟨hpass, hcounts⟩
    exact hrest y (List.mem_filter.mpr ⟨hy, hpass⟩) hcounts

end IsNearest

/-! ## The search -/

/-- The item is within the range, at a distance that is a number. -/
def InRange (origin : Vec) (range : Float) (place : α → Vec) (y : α) : Prop :=
  origin.distance (place y) ≤ range

theorem InRange.isNumber (h : InRange origin range place y) : Double.IsNumber (origin.distance (place y)) :=
  (Double.le_iff.mp h).1

/-- One look at an item out of range changes nothing, whatever has been found. -/
theorem nearerOf_of_not_inRange (h : ¬ InRange origin range place y) (best : Option (α × Float)) :
    nearerOf origin range place best y = best := by
  unfold InRange at h
  unfold nearerOf
  exact if_neg (by simp [h])

/-- What the search holds after it has looked at the items. -/
def Scanned (origin : Vec) (range : Float) (place : α → Vec) (items : List α) : Option (α × Float) → Prop
  | none        => ∀ y ∈ items, ¬ InRange origin range place y
  | some (x, d) =>
    d = origin.distance (place x) ∧ IsNearest origin place (InRange origin range place) items x

/-- One more look keeps the invariant of the search. -/
theorem Scanned.look {best : Option (α × Float)} (h : Scanned origin range place items best) (y : α) :
    Scanned origin range place (items ++ [y]) (nearerOf origin range place best y) := by
  -- what is out of range does not count; what is in range is taken if it is the first or strictly nearer
  by_cases hrange : InRange origin range place y
  · unfold nearerOf
    unfold InRange at hrange
    match best, h with
    | none, h =>
      rw [if_pos (by simp [hrange])]
      exact ⟨rfl, .last hrange fun z hz hcounts => absurd hcounts (h z hz)⟩
    | some (x, _), ⟨rfl, hx⟩ =>
      have hnumber : Double.IsNumber (origin.distance (place x)) := InRange.isNumber hx.1
      by_cases hcloser : origin.distance (place y) < origin.distance (place x)
      · rw [if_pos (by simp [hcloser, hrange])]
        refine ⟨rfl, .last hrange fun z hz hcounts => ?_⟩
        exact Double.lt_of_lt_of_le hcloser (hx.le hnumber hz hcounts)
      · rw [if_neg (by simp [hcloser])]
        exact ⟨rfl, hx.append fun hcounts =>
          Double.le_of_not_lt (InRange.isNumber hcounts) hnumber hcloser⟩
  · rw [nearerOf_of_not_inRange hrange]
    match best, h with
    | none, h =>
      intro z hz
      rcases List.mem_append.mp hz with hz | hz
      · exact h z hz
      · cases List.mem_singleton.mp hz
        exact hrange
    | some (x, _), ⟨rfl, hx⟩ => exact ⟨rfl, hx.append fun hcounts => absurd hcounts hrange⟩

variable (origin range place) in
/-- So the whole search does. -/
theorem scanned_foldl (items : List α) :
    Scanned origin range place items (items.foldl (nearerOf origin range place) none) := by
  -- from the end of the list, as the fold looks at the last item last
  induction items using List.reverseRecOn with
  | nil => exact nofun
  | append_singleton items y ih =>
    rw [List.foldl_append]
    exact ih.look y

/-- **The search finds the nearest item**, and the first of several equally near. -/
theorem nearestInRange_isNearest (h : nearestInRange origin range place items = some x) :
    IsNearest origin place (InRange origin range place) items x := by
  obtain ⟨⟨y, d⟩, hfound, rfl⟩ := Option.map_eq_some_iff.mp h
  have hscanned := scanned_foldl origin range place items
  rw [hfound] at hscanned
  exact hscanned.2

/-- It finds nothing just where nothing is in range. -/
theorem nearestInRange_eq_none_iff :
    nearestInRange origin range place items = none ↔ ∀ y ∈ items, ¬ InRange origin range place y := by
  constructor
  · intro h
    -- what the scan holds at the end is the nearest so far, and nothing only if all are out of range
    have hscanned := scanned_foldl origin range place items
    rw [Option.map_eq_none_iff.mp h] at hscanned
    exact hscanned
  · intro hout
    cases h : nearestInRange origin range place items with
    | none => rfl
    | some x =>
      have hnearest := nearestInRange_isNearest h
      exact absurd hnearest.1 (hout x hnearest.mem)

/-! ## The first place of the nearest -/

/-- Place `i` of the list holds `x`, which is in range; no item in range is nearer, and none in range that stands
before it is as near. -/
structure FirstNearest (origin : Vec) (range : Float) (place : α → Vec) (items : List α) (i : Nat) (x : α) :
    Prop where
  item    : items[i]? = some x
  inRange : origin.distance (place x) ≤ range
  least   : ∀ y ∈ items, origin.distance (place y) ≤ range →
    ¬ origin.distance (place y) < origin.distance (place x)
  first   : ∀ j < i, ∀ y, items[j]? = some y → origin.distance (place y) ≤ range →
    ¬ (origin.distance (place y) == origin.distance (place x)) = true

/-- What splits the list into items that are farther away and items that are no nearer stands in the first place
of the nearest. -/
theorem IsNearest.exists_firstNearest (h : IsNearest origin place (InRange origin range place) items x) :
    ∃ i, FirstNearest origin range place items i x := by
  have hsplit := h
  obtain ⟨hx, before, after, rfl, hbefore, -⟩ := hsplit
  refine ⟨before.length, ?_, hx, fun y hy hrange => ?_, ?_⟩
  · rw [List.getElem?_append_right (Nat.le_refl _), Nat.sub_self, List.getElem?_cons_zero]
  · exact Double.not_lt_of_le (h.le (InRange.isNumber hx) hy hrange)
  · -- an earlier item is farther away, so it is not at the same distance
    intro j hj y hy hrange heq
    rw [List.getElem?_append_left hj] at hy
    have hlt := Double.lt_iff.mp (hbefore y (List.mem_of_getElem? hy) hrange)
    have hunits := (Double.beq_iff.mp heq).2.2
    omega

namespace FirstNearest

/-- Of two such places neither stands before the other: what they hold would be equally near. -/
theorem not_lt (hi : FirstNearest origin range place items i x) (hj : FirstNearest origin range place items j y) :
    ¬ i < j := by
  intro hlt
  have hx : Double.IsNumber (origin.distance (place x)) := InRange.isNumber hi.inRange
  have hy : Double.IsNumber (origin.distance (place y)) := InRange.isNumber hj.inRange
  have hxy := hi.least y (List.mem_of_getElem? hj.item) hj.inRange
  have hyx := hj.least x (List.mem_of_getElem? hi.item) hi.inRange
  -- both are the least, so they are equally far, and the earlier one would have been chosen for both
  have hle := Double.le_iff.mp (Double.le_of_not_lt hx hy hyx)
  have hge := Double.le_iff.mp (Double.le_of_not_lt hy hx hxy)
  exact hj.first i hlt x hi.item hi.inRange (Double.beq_iff.mpr ⟨hx, hy, by omega⟩)

theorem unique (hi : FirstNearest origin range place items i x) (hj : FirstNearest origin range place items j y) :
    i = j ∧ x = y := by
  have hij := hi.not_lt hj
  have hji := hj.not_lt hi
  obtain rfl : i = j := by omega
  exact ⟨rfl, Option.some.inj (hi.item.symm.trans hj.item)⟩

end FirstNearest

/-- The search chooses what stands in the first place of the nearest. -/
theorem nearestInRange_eq_some_iff :
    nearestInRange origin range place items = some x ↔ ∃ i, FirstNearest origin range place items i x := by
  constructor
  · exact fun h => (nearestInRange_isNearest h).exists_firstNearest
  · -- the first nearest is the only one, so it is the one that the search has found
    rintro ⟨i, hi⟩
    cases hchosen : nearestInRange origin range place items with
    | none => exact absurd hi.inRange (nearestInRange_eq_none_iff.mp hchosen x (List.mem_of_getElem? hi.item))
    | some y =>
      obtain ⟨j, hj⟩ := (nearestInRange_isNearest hchosen).exists_firstNearest
      rw [(hi.unique hj).2]

/-! ## What is left out -/

/-- The answer is the same if only items out of range are left out. -/
theorem nearestInRange_filter {keep : α → Bool}
    (h : ∀ y ∈ items, keep y = false → ¬ InRange origin range place y) :
    nearestInRange origin range place (items.filter keep) = nearestInRange origin range place items := by
  unfold nearestInRange
  rw [List.foldl_filter]
  refine congrArg _ (List.foldl_ext _ _ none fun best y hy => ?_)
  split
  · rfl
  · rename_i hdropped
    exact (nearerOf_of_not_inRange (h y hy (Bool.eq_false_iff.mpr hdropped)) best).symm

/-! ## The choice -/

/-- **The search chooses the first of the nearest in range.** It finds nothing if and only if nothing is in range,
and else what stands in the one place where an item in range stands such that none in range is nearer and none in
range before it is as near. Items at a distance that is no number are not chosen, and the answer is the same if
they are left out, wherever they stand. -/
theorem search_chooses_first_nearest (origin : Vec) (range : Float) (place : α → Vec) (items : List α) :
    (nearestInRange origin range place items = none ↔ ∀ y ∈ items, ¬ origin.distance (place y) ≤ range) ∧
      (∀ x, nearestInRange origin range place items = some x ↔
        ∃ i, FirstNearest origin range place items i x) ∧
      (∀ i j x y, FirstNearest origin range place items i x → FirstNearest origin range place items j y →
        i = j ∧ x = y) ∧
      (∀ x, nearestInRange origin range place items = some x →
        (origin.distance (place x)).isNaN = false) ∧
      nearestInRange origin range place (items.filter fun y => !(origin.distance (place y)).isNaN) =
        nearestInRange origin range place items := by
  refine ⟨nearestInRange_eq_none_iff, fun x => nearestInRange_eq_some_iff, fun i j x y hi hj => hi.unique hj,
    fun x hx => InRange.isNumber (nearestInRange_isNearest hx).1, ?_⟩
  refine nearestInRange_filter fun y _ hdropped hrange => ?_
  have hnumber : (origin.distance (place y)).isNaN = false := InRange.isNumber hrange
  rw [hnumber] at hdropped
  cases hdropped

/-- Of two items equally near the first is chosen, behind one whose distance is no number and one that is
out of range. -/
theorem search_chooses_first_nearest_tied :
    let items : List Vec := [⟨0.0 / 0.0, 0.0⟩, ⟨9.0, 0.0⟩, ⟨3.0, 0.0⟩, ⟨0.0, 3.0⟩]
    nearestInRange .zero 5.0 id items = some ⟨3.0, 0.0⟩ ∧
      (∀ i, FirstNearest .zero 5.0 id items i ⟨3.0, 0.0⟩ ↔ i = 2) ∧
      (Vec.zero.distance ⟨3.0, 0.0⟩).isNaN = false ∧
      nearestInRange .zero 5.0 id (items.drop 1) = some ⟨3.0, 0.0⟩ := by
  intro items
  obtain ⟨-, hchoice, hunique, hnumber, hleft⟩ := search_chooses_first_nearest .zero 5.0 id items
  have hchosen : nearestInRange .zero 5.0 id items = some ⟨3.0, 0.0⟩ := by decide +kernel
  -- without the item whose distance is no number the same one is found
  have hnumbers : (items.filter fun y => !(Vec.zero.distance (id y)).isNaN) = items.drop 1 := by decide +kernel
  obtain ⟨k, hk⟩ := (hchoice _).mp hchosen
  have hplace : ∀ i < items.length, items[i]? = some ⟨3.0, 0.0⟩ → i = 2 := by decide +kernel
  obtain rfl : k = 2 := hplace k (List.getElem?_eq_some_iff.mp hk.item).1 hk.item
  refine ⟨hchosen, fun i => ⟨fun hi => (hunique i 2 _ _ hi hk).1, ?_⟩, hnumber _ hchosen, ?_⟩
  · rintro rfl
    exact hk
  · rw [← hnumbers, hleft, hchosen]

end Vivarium
