import Vivarium.Proofs.Scalar.Doubling
import Vivarium.Proofs.World.Walls

/-!
# Discs between the walls

A step leaves every creature's body at some distance from all four walls: its radius, or half the shorter
side where that is less. A disc that fits both ways is therefore contained. One that fits along the longer
sides only is not: it is kept off their ends by half the shorter side, like any larger one, and reaches
through the wall there.

Main results: `walls_contain_what_fits_both_ways`, `long_walls_let_wide_discs_through`.
-/

namespace Vivarium

namespace Double

variable {lo hi x y : Float}

theorem lesser_of_le (h : x ≤ y) : lesser x y = x := by
  obtain ⟨hx, -, -⟩ := le_iff.mp h
  unfold lesser
  rw [if_neg (by rw [hx]; exact Bool.false_ne_true), if_neg (not_lt_of_le h)]

theorem lesser_of_lt (h : y < x) : lesser x y = y := by
  unfold lesser
  rw [if_pos h, ite_self]

/-- The lesser of two is a number if the second is one. -/
theorem isNumber_lesser (x : Float) (hy : IsNumber y) : IsNumber (lesser x y) :=
  (le_iff.mp (lesser_le_right x hy)).1

theorem isNumber_sub (hx : x.isFinite = true) (hy : IsNumber y) : IsNumber (x - y) := by
  rw [sub_eq_add_neg, add_comm]
  exact isNumber_add (isNumber_neg hy) hx

/-- **A number is clamped** to what lies between the bounds. -/
theorem clampTo_mem (hle : lo ≤ hi) (hx : IsNumber (clampTo lo hi x)) :
    lo ≤ clampTo lo hi x ∧ clampTo lo hi x ≤ hi := by
  obtain ⟨hlo, hhi, -⟩ := le_iff.mp hle
  unfold clampTo at hx ⊢
  dsimp only at hx ⊢
  -- below, above or between the two bounds
  by_cases hbelow : x < lo
  · rw [if_pos hbelow, if_neg (not_lt_of_le hle)]
    exact ⟨le_refl hlo, hle⟩
  · rw [if_neg hbelow] at hx ⊢
    by_cases habove : hi < x
    · rw [if_pos habove]
      exact ⟨hle, le_refl hhi⟩
    · rw [if_neg habove] at hx ⊢
      exact ⟨le_of_not_lt hx hlo hbelow, le_of_not_lt hhi hx habove⟩

end Double

namespace Enclosure

open Double (IsNumber)

variable {e e' : Enclosure} {dt r : Float}

/-! ## Body by body -/

/-- Under each handle there is what its own body became. -/
theorem get?_mapM {move : Body → Except Fault Body} (h : Handle) : ∀ {bodies entries : List (Handle × Body)},
    bodies.mapM (fun (h, b) => do return (h, ← move b)) = Except.ok entries →
      Table.get? ⟨bodies⟩ h = none ∧ Table.get? ⟨entries⟩ h = none ∨
        ∃ b b', Table.get? ⟨bodies⟩ h = some b ∧ move b = .ok b' ∧ Table.get? ⟨entries⟩ h = some b'
  | [], entries, hmoved => by
    cases hmoved
    exact .inl ⟨rfl, rfl⟩
  | (key, b) :: bodies, entries, hmoved => by
    rw [List.mapM_cons] at hmoved
    obtain ⟨moved, hentry, hmoved⟩ := except_bind_inv hmoved
    obtain ⟨rest, hrest, hpure⟩ := except_bind_inv hmoved
    obtain ⟨b', hb, hpair⟩ := except_bind_inv hentry
    cases hpure
    cases hpair
    rw [Table.get?_cons, Table.get?_cons]
    -- the first entry is moved on its own, and the others are moved by the rest of the list
    by_cases heq : h = key
    · rw [if_pos heq, if_pos heq]
      exact .inr ⟨b, b', rfl, hb, rfl⟩
    · rw [if_neg heq, if_neg heq]
      exact get?_mapM h hrest

/-- **A step moves each body by itself**, under the handle that it has. -/
theorem get?_step (hstep : e.step dt = .ok e') (h : Handle) :
    e.bodies.get? h = none ∧ e'.bodies.get? h = none ∨
      ∃ b b', e.bodies.get? h = some b ∧ e.moveBody (dt * dt) b = .ok b' ∧ e'.bodies.get? h = some b' := by
  obtain ⟨entries, hmoved, hpure⟩ := except_bind_inv hstep
  cases hpure
  exact get?_mapM h hmoved

/-! ## The distance from the walls -/

/-- The distance from all walls at which a body of radius `r` is kept. -/
def margin (e : Enclosure) (r : Float) : Float := lesser (lesser r (e.width / 2.0)) (e.height / 2.0)

/-- A place is at least `r` away from all walls. -/
def KeepsOff (e : Enclosure) (r : Float) (place : Vec) : Prop :=
  (r ≤ place.x ∧ place.x ≤ e.width - r) ∧ r ≤ place.y ∧ place.y ≤ e.height - r

theorem holdBack_inv {extent x v : Float} {held : Float × Float} (h : holdBack r extent x v = .ok held)
    (hr : IsNumber r) (hend : IsNumber (extent - r)) (hheld : IsNumber held.1) :
    r ≤ held.1 ∧ held.1 ≤ extent - r := by
  unfold holdBack at h
  -- a body beyond either side is put back between them, and any other is there already
  split at h
  · unfold checkedClamp at h
    split at h
    · rename_i hle
      cases h
      exact Double.clampTo_mem hle hheld
    · cases h
  · rename_i hinside
    cases h
    rw [not_or] at hinside
    exact ⟨Double.le_of_not_lt hheld hr hinside.1, Double.le_of_not_lt hend hheld hinside.2⟩

theorem contain_inv {b b' : Body} (h : e.contain b = .ok b') :
    ∃ x y, holdBack (e.margin b.radius) e.width b.position.x b.velocity.x = .ok x ∧
      holdBack (e.margin b.radius) e.height b.position.y b.velocity.y = .ok y ∧
      b' = { b with position := ⟨x.1, y.1⟩, velocity := ⟨x.2, y.2⟩ } := by
  obtain ⟨x, hx, h⟩ := except_bind_inv h
  obtain ⟨y, hy, h⟩ := except_bind_inv h
  cases h
  exact ⟨x, y, hx, hy, rfl⟩

/-- **After a step every creature's body is off the walls** by its margin. -/
theorem step_keepsOff {h : Handle} {b : Body} (hstep : e.step dt = .ok e')
    (hget : e'.bodies.get? h = some b) (hlayer : b.layer = .creature) (hwidth : e.width.isFinite = true)
    (hheight : e.height.isFinite = true) (hhalf : IsNumber (e.height / 2.0))
    (hx : IsNumber b.position.x) (hy : IsNumber b.position.y) :
    e.KeepsOff (e.margin b.radius) b.position := by
  rcases get?_step hstep h with ⟨-, hnone⟩ | ⟨before, after, -, hmove, hafter⟩
  · rw [hnone] at hget
    cases hget
  · rw [hafter] at hget
    cases hget
    unfold moveBody at hmove
    split at hmove
    · -- food is not held back, but this body is a creature's
      rename_i hfood
      cases hmove
      rw [hfood] at hlayer
      cases hlayer
    · obtain ⟨x, y, hheldx, hheldy, rfl⟩ := contain_inv hmove
      have hmargin : IsNumber (e.margin before.radius) := Double.isNumber_lesser _ hhalf
      exact ⟨holdBack_inv hheldx hmargin (Double.isNumber_sub hwidth hmargin) hx,
        holdBack_inv hheldy hmargin (Double.isNumber_sub hheight hmargin) hy⟩

/-! ## Discs that fit -/

/-- A disc that fits along both sides is kept off by its radius. -/
theorem margin_of_fits {b : Body} (hwidth : e.width.isFinite = true) (hheight : e.height.isFinite = true)
    (hr : 0.0 < b.radius) (hx : 2.0 * b.radius ≤ e.width) (hy : 2.0 * b.radius ≤ e.height) :
    e.margin b.radius = b.radius := by
  unfold margin
  rw [Double.lesser_of_le (Double.le_half hr hwidth hx), Double.lesser_of_le (Double.le_half hr hheight hy)]

/-- One that fits along the width only is kept off by half the height. -/
theorem margin_of_low {b : Body} (hwidth : e.width.isFinite = true) (hr : 0.0 < b.radius)
    (hx : 2.0 * b.radius ≤ e.width) (hy : e.height / 2.0 < b.radius) :
    e.margin b.radius = e.height / 2.0 := by
  unfold margin
  rw [Double.lesser_of_le (Double.le_half hr hwidth hx), Double.lesser_of_lt hy]

/-- And one that fits along the height only by half the width. -/
theorem margin_of_narrow {b : Body} (hheight : e.height.isFinite = true) (hr : 0.0 < b.radius)
    (hy : 2.0 * b.radius ≤ e.height) (hx : e.width / 2.0 < b.radius) :
    e.margin b.radius = e.width / 2.0 := by
  unfold margin
  rw [Double.lesser_of_lt hx, Double.lesser_of_le (Double.le_trans (Double.le_of_lt hx)
    (Double.le_half hr hheight hy))]

/-- **What fits both ways is contained.** Right after a step, every creature's disc that fits along both sides
lies between the walls. One that fits along one side only is kept off all walls by half of the other side, which
is less than its radius. -/
theorem walls_contain_what_fits_both_ways {e : Enclosure} (hwidth : 0.0 < e.width ∧ e.width.isFinite = true)
    (hheight : 0.0 < e.height ∧ e.height.isFinite = true) (dt : Float) :
    (e.Roomy → ∃ e', e.step dt = .ok e') ∧
      ∀ e' h b, e.step dt = .ok e' → e'.bodies.get? h = some b → b.layer = .creature →
        IsNumber b.position.x → IsNumber b.position.y → 0.0 < b.radius →
          (2.0 * b.radius ≤ e.width → 2.0 * b.radius ≤ e.height → e.KeepsOff b.radius b.position) ∧
          (2.0 * b.radius ≤ e.width → e.height / 2.0 < b.radius → e.KeepsOff (e.height / 2.0) b.position) ∧
          (2.0 * b.radius ≤ e.height → e.width / 2.0 < b.radius → e.KeepsOff (e.width / 2.0) b.position) := by
  refine ⟨fun hroomy => step_run hroomy dt, fun e' h b hstep hget hlayer hx hy hr => ?_⟩
  have hhalf := (Double.le_units_half hheight.2 (Double.pos_iff.mp hheight.1).2).1
  have hkept := step_keepsOff hstep hget hlayer hwidth.2 hheight.2 hhalf hx hy
  refine ⟨fun hfitsx hfitsy => ?_, fun hfitsx hlow => ?_, fun hfitsy hnarrow => ?_⟩
  · rwa [margin_of_fits hwidth.2 hheight.2 hr hfitsx hfitsy] at hkept
  · rwa [margin_of_low hwidth.2 hr hfitsx hlow] at hkept
  · rwa [margin_of_narrow hheight.2 hr hfitsy hnarrow] at hkept

/-- A corridor with a disc at one end that is just as wide as it is long, and a small one at the other end. -/
def corridor : Enclosure :=
  (((empty 100.0 20.0).addBody 50.0 ⟨15.0, 10.0⟩ .creature).2.addBody 5.0 ⟨98.0, 10.0⟩ .creature).2

theorem walls_contain_what_fits_both_ways_corridor :
    (0.0 < corridor.width ∧ corridor.width.isFinite = true) ∧
      (0.0 < corridor.height ∧ corridor.height.isFinite = true) ∧ corridor.Roomy ∧
      ∃ e' b, corridor.step 16.0 = .ok e' ∧ e'.bodies.get? ⟨2⟩ = some b ∧ b.radius = 5.0 ∧
        corridor.KeepsOff b.radius b.position := by
  have hsides : (0.0 < corridor.width ∧ corridor.width.isFinite = true) ∧
      (0.0 < corridor.height ∧ corridor.height.isFinite = true) ∧ corridor.Roomy := by decide +kernel
  obtain ⟨hwidth, hheight, hroomy⟩ := hsides
  obtain ⟨hreturns, hcontained⟩ := walls_contain_what_fits_both_ways hwidth hheight 16.0
  obtain ⟨e', hstep⟩ := hreturns hroomy
  -- one step of the corridor is computed, and that the disc is kept off its walls is taken from the theorem
  have hrun : (corridor.step 16.0).toOption.any (fun e' => (e'.bodies.get? ⟨2⟩).any fun b =>
      decide (b.layer = .creature ∧ b.position.x.isNaN = false ∧ b.position.y.isNaN = false ∧ 0.0 < b.radius ∧
        2.0 * b.radius ≤ corridor.width ∧ 2.0 * b.radius ≤ corridor.height ∧ b.radius = 5.0)) = true := by
    decide +kernel
  rw [hstep] at hrun
  change (e'.bodies.get? ⟨2⟩).any _ = true at hrun
  obtain ⟨b, hget, htest⟩ := (Option.any_eq_true _ _).mp hrun
  obtain ⟨hlayer, hx, hy, hr, hfitsx, hfitsy, hradius⟩ := of_decide_eq_true htest
  exact ⟨hwidth, hheight, hroomy, e', b, hstep, hget, hradius,
    (hcontained e' ⟨2⟩ b hstep hget hlayer hx hy hr).1 hfitsx hfitsy⟩

/-- **Long walls let wide discs through**: in a corridor whose length they fit along, they reach through its
ends. -/
theorem long_walls_let_wide_discs_through :
    ¬ ∀ (e e' : Enclosure) (dt : Float) (h : Handle) (b : Body),
      0.0 < e.width ∧ e.width.isFinite = true → 0.0 < e.height ∧ e.height.isFinite = true →
        e.step dt = .ok e' → e'.bodies.get? h = some b → b.layer = .creature → IsNumber b.position.x →
          IsNumber b.position.y → 0.0 < b.radius →
            (2.0 * b.radius ≤ e.width → b.radius ≤ b.position.x ∧ b.position.x ≤ e.width - b.radius) ∧
            (2.0 * b.radius ≤ e.height → b.radius ≤ b.position.y ∧ b.position.y ≤ e.height - b.radius) := by
  intro hcontained
  have hsides : (0.0 < corridor.width ∧ corridor.width.isFinite = true) ∧
      0.0 < corridor.height ∧ corridor.height.isFinite = true := by decide +kernel
  -- the wide disc fits between the ends of the corridor, and is held off them by half the height only
  have hrun : (corridor.step 16.0).toOption.any (fun e' => (e'.bodies.get? ⟨1⟩).any fun b =>
      decide (b.layer = .creature ∧ b.position.x.isNaN = false ∧ b.position.y.isNaN = false ∧ 0.0 < b.radius ∧
        2.0 * b.radius ≤ corridor.width ∧ ¬ b.radius ≤ b.position.x)) = true := by
    decide +kernel
  obtain ⟨e', hstep, hbody⟩ := except_any_inv hrun
  obtain ⟨b, hget, htest⟩ := (Option.any_eq_true _ _).mp hbody
  obtain ⟨hlayer, hx, hy, hr, hfits, hthrough⟩ := of_decide_eq_true htest
  exact hthrough ((hcontained corridor e' 16.0 ⟨1⟩ b hsides.1 hsides.2 hstep hget hlayer hx hy hr).1 hfits).1

end Enclosure

end Vivarium
