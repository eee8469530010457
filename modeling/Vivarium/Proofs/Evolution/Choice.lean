import Vivarium.Config.Validity
import Vivarium.Evolution.Operator
import Vivarium.Proofs.Random.Attempts

/-!
# The weighted choice of an operator

Each operator has a share in the choice for a program: its weight if it is eligible, else nothing. The shares
cut the numbers from zero up to their sum into intervals, one after the other in the order of the table, and
the operator whose interval contains the draw is chosen. One without a share has an empty interval, so it
is never chosen, although it is only left out of the table and not out of the reckoning.

The running sums are doubles. They are whole numbers below `2 ^ 53`, so they are exact, and the draw, which
lies below the last of them, is always followed by some running sum.

Main result: `choice_follows_weights`.
-/

namespace Vivarium

/-- The weight of an operator. -/
def OperatorWeights.of (weights : OperatorWeights) : MutationOperator → Nat
  | .duplicateSegment => weights.duplicate
  | .insertSegment    => weights.insert
  | .deleteSegment    => weights.delete
  | .mutateMemory     => weights.memory
  | .modifyTraits     => weights.traits

namespace MutationOperator

/-! ## Shares -/

section

variable (len : Nat) (weights : OperatorWeights)

/-- The operator has a positive weight and is eligible for a program of `len` genes. -/
def Available (op : MutationOperator) : Prop := 0 < weights.of op ∧ op.isEligible len = true

/-- What the operator weighs in the choice. -/
def share (op : MutationOperator) : Nat := if op.isEligible len then weights.of op else 0

/-- What all operators weigh together. -/
def pool : Nat := (table.map (share len weights)).sum

/-- Where the interval of the operator begins: what the operators before it in the table weigh together. -/
def lead (op : MutationOperator) : Nat := ((table.takeWhile (· ≠ op)).map (share len weights)).sum

/-- The draw lies in the interval of the operator. The ends are whole numbers, and as long as all shares
together stay below `2 ^ 53` they are doubles. -/
def Owns (op : MutationOperator) (draw : Float) : Prop :=
  Float.ofNat (lead len weights op) ≤ draw ∧
    draw < Float.ofNat (lead len weights op + share len weights op)

end

variable {len : Nat} {weights : OperatorWeights} {op op' : MutationOperator} {draw : Float}

/-- An operator has a share if it is available. -/
theorem share_pos_iff : 0 < share len weights op ↔ Available len weights op := by
  unfold share Available
  split
  · rename_i heligible
    simp [heligible]
  · rename_i hineligible
    simp [hineligible]

/-- The candidates are the operators with a share. -/
theorem candidates_eq :
    candidates len weights =
      (table.filter fun op => 0 < share len weights op).map fun op => (op, share len weights op) := by
  have hzip : table.zip weights.toList = table.map fun op => (op, weights.of op) := rfl
  -- what the test asks for is a share that is not zero
  have htest : ∀ op, (0 < weights.of op && op.isEligible len) = decide (0 < share len weights op) := by
    intro op
    rw [Bool.eq_iff_iff, decide_eq_true_iff, share_pos_iff]
    simp [Available]
  unfold candidates
  rw [hzip, List.filter_map]
  refine (List.map_congr_left fun op hop => ?_).trans (congrArg _ (List.filter_congr fun op _ => htest op))
  -- whatever has passed the test is eligible, so its share is its weight
  have heligible : op.isEligible len = true := by
    have htested := (List.mem_filter.mp hop).2
    simp only [Function.comp_apply, Bool.and_eq_true] at htested
    exact htested.2
  rw [share, if_pos heligible]

section Lists

variable (f : MutationOperator → Nat)

/-- Operators without a share do not weigh anything. -/
theorem totalWeight_shares (ops : List MutationOperator) :
    totalWeight ((ops.filter fun op => 0 < f op).map fun op => (op, f op)) = (ops.map f).sum := by
  induction ops with
  | nil => rfl
  | cons op ops ih =>
    rw [List.filter_cons, List.map_cons, List.sum_cons]
    -- a share of zero is left out of the list, and adds nothing to the sum
    by_cases hshare : 0 < f op
    · rw [if_pos (decide_eq_true hshare), List.map_cons, totalWeight, ih]
    · rw [if_neg (by simpa using hshare), ih]
      omega

/-- **The scan finds the interval that contains the draw.** The induction is on the operators that are left,
with the running sum at the beginning of the first of their intervals; the draw never lies before it. -/
theorem pick?_shares {draw : Float} (ops : List MutationOperator) {sum : Float} {n : Nat}
    (hsum : Double.IsWhole sum n) (hlow : sum ≤ draw)
    (hhigh : draw < Float.ofNat (n + (ops.map f).sum)) (hfits : n + (ops.map f).sum < 2 ^ 53) :
    ∃ before op after, ops = before ++ op :: after ∧
      pick? draw sum ((ops.filter fun op => 0 < f op).map fun op => (op, f op)) = some op ∧
      Float.ofNat (n + (before.map f).sum) ≤ draw ∧
      draw < Float.ofNat (n + (before.map f).sum + f op) := by
  induction ops generalizing sum n with
  | nil =>
    -- the draw would lie at the end of all intervals
    have hsame := Double.isWhole_ofNat (n := n) (by omega)
    rw [List.map_nil, List.sum_nil, Nat.add_zero, hsame.lt_congr hsum, Double.lt_iff] at hhigh
    rw [Double.le_iff] at hlow
    omega
  | cons op ops ih =>
    rw [List.map_cons, List.sum_cons] at hhigh hfits
    by_cases hshare : 0 < f op
    · have hnext : Double.IsWhole (sum + Float.ofNat (f op)) ((n + f op : Nat) : Int) := by
        have hweight := Double.isWhole_ofNat (n := f op) (by omega)
        rw [Int.natCast_add]
        exact hsum.add hweight (by omega)
      rw [List.filter_cons, if_pos (decide_eq_true hshare), List.map_cons, pick?]
      by_cases hbelow : draw < sum + Float.ofNat (f op)
      · have hstart := Double.isWhole_ofNat (n := n) (by omega)
        have hend := Double.isWhole_ofNat (n := n + f op) (by omega)
        exact ⟨[], op, ops, rfl, if_pos hbelow, (hsum.le_congr hstart).mp hlow, (hnext.lt_congr hend).mp hbelow⟩
      · rw [if_neg hbelow]
        have hdraw := (Double.lt_iff.mp hhigh).1
        have hlow' := Double.le_of_not_lt hdraw (Double.isNumber_of_isFinite hnext.1) hbelow
        obtain ⟨before, op', after, rfl, hpick, hfrom, hto⟩ :=
          ih hnext hlow' (by rwa [Nat.add_assoc]) (by omega)
        refine ⟨op :: before, op', after, rfl, hpick, ?_, ?_⟩
        · rwa [List.map_cons, List.sum_cons, ← Nat.add_assoc]
        · rwa [List.map_cons, List.sum_cons, ← Nat.add_assoc]
    · -- an operator without a share is passed over, and its interval is empty
      have hnone : f op = 0 := by omega
      rw [hnone, Nat.zero_add] at hhigh hfits
      obtain ⟨before, op', after, rfl, hpick, hfrom, hto⟩ := ih hsum hlow hhigh hfits
      rw [List.filter_cons, if_neg (by simpa using hshare)]
      refine ⟨op :: before, op', after, rfl, hpick, ?_, ?_⟩
      · rwa [List.map_cons, List.sum_cons, hnone, Nat.zero_add]
      · rwa [List.map_cons, List.sum_cons, hnone, Nat.zero_add]

end Lists

/-- The weights of the candidates add up to the pool. -/
theorem totalWeight_candidates : totalWeight (candidates len weights) = pool len weights := by
  rw [candidates_eq]
  exact totalWeight_shares _ _

/-! ## Intervals -/

/-- Of two operators one has its interval before the other. -/
theorem takeWhile_prefix (hne : op ≠ op') :
    (table.takeWhile (· ≠ op) ++ [op]).IsPrefix (table.takeWhile (· ≠ op')) ∨
      (table.takeWhile (· ≠ op') ++ [op']).IsPrefix (table.takeWhile (· ≠ op)) := by
  cases op <;> cases op' <;> first | exact absurd rfl hne | decide

/-- Where an interval ends, the operators up to its own have been reckoned. -/
theorem lead_add_share_le {ops : List MutationOperator}
    (h : (table.takeWhile (· ≠ op) ++ [op]).IsPrefix ops) :
    lead len weights op + share len weights op ≤ (ops.map (share len weights)).sum := by
  obtain ⟨rest, rfl⟩ := h
  unfold lead
  simp

/-- Nobody's share reaches beyond the pool. -/
theorem lead_add_share_le_pool (op : MutationOperator) :
    lead len weights op + share len weights op ≤ pool len weights := by
  refine lead_add_share_le ?_
  cases op <;> decide

theorem lead_eq {before after : List MutationOperator} (h : table = before ++ op :: after) :
    lead len weights op = (before.map (share len weights)).sum := by
  have hdistinct : table.Nodup := by decide
  unfold lead
  rw [h] at hdistinct ⊢
  -- all that comes before the operator differs from it, so it is there that the sum stops
  have hbefore : ∀ op' ∈ before, decide (op' ≠ op) = true := by
    intro op' hmem
    rw [List.nodup_append] at hdistinct
    simpa using hdistinct.2.2 op' hmem op List.mem_cons_self
  rw [List.takeWhile_append_of_pos hbefore, List.takeWhile_cons_of_neg (by simp), List.append_nil]

theorem ofNat_le_ofNat {m n : Nat} (hmn : m ≤ n) (hn : n < 2 ^ 53) : Float.ofNat m ≤ Float.ofNat n := by
  have hm := Double.isWhole_ofNat (Nat.lt_of_le_of_lt hmn hn)
  have hn' := Double.isWhole_ofNat hn
  refine Double.le_iff.mpr ⟨Double.isNumber_of_isFinite hm.1, Double.isNumber_of_isFinite hn'.1, ?_⟩
  rw [hm.2, hn'.2]
  exact Int.mul_le_mul_of_nonneg_right (Int.ofNat_le.mpr hmn) (Int.natCast_nonneg _)

/-- **No two intervals overlap.** -/
theorem Owns.eq (hfits : pool len weights < 2 ^ 53) (h : Owns len weights op draw)
    (h' : Owns len weights op' draw) : op' = op := by
  -- the interval that comes first ends where the other one begins, or before
  have hapart : ∀ {a b : MutationOperator},
      (table.takeWhile (· ≠ a) ++ [a]).IsPrefix (table.takeWhile (· ≠ b)) → Owns len weights a draw →
        Owns len weights b draw → False := by
    intro a b hprefix ha hb
    have hle : lead len weights a + share len weights a ≤ lead len weights b := lead_add_share_le hprefix
    have hpool : lead len weights b + share len weights b ≤ pool len weights := lead_add_share_le_pool b
    exact Double.not_lt_of_le (Double.le_trans (ofNat_le_ofNat hle (by omega)) hb.1) ha.2
  by_contra hne
  rcases takeWhile_prefix hne with hprefix | hprefix
  · exact hapart hprefix h' h
  · exact hapart hprefix h h'

/-- The usual weights for a program of 20 genes, which is too short to be cut. -/
example : (table.map (lead 20 {}), pool 20 {}) = ([0, 1, 6, 6, 11], 16) := by
  decide

/-- Only an operator with a share owns a draw. -/
theorem Owns.available (h : Owns len weights op draw) : Available len weights op := by
  rw [← share_pos_iff]
  by_contra hnone
  have hempty := h.2
  rw [show share len weights op = 0 by omega, Nat.add_zero] at hempty
  exact Double.not_lt_of_le h.1 hempty

/-! ## The choice -/

/-- The pool is empty if no operator is available. -/
theorem pool_pos_iff : 0 < pool len weights ↔ ∃ op, Available len weights op := by
  constructor
  · intro hpos
    by_contra hnone
    rw [not_exists] at hnone
    -- if nothing is available, all shares are zero, and so is their sum
    have hzero : pool len weights = 0 := by
      refine List.sum_eq_zero fun n hn => ?_
      obtain ⟨op, -, rfl⟩ := List.mem_map.mp hn
      have := mt share_pos_iff.mp (hnone op)
      omega
    omega
  · rintro ⟨op, hop⟩
    have hshare := share_pos_iff.mpr hop
    have hle : lead len weights op + share len weights op ≤ pool len weights := lead_add_share_le_pool op
    omega

/-- From an empty pool no operator is selected, and nothing is drawn. -/
theorem select_of_empty (h : pool len weights = 0) : select len weights = pure none := by
  unfold select
  dsimp only
  rw [totalWeight_candidates, h, if_neg (by decide), if_pos rfl]

theorem select_of_pos (hfits : pool len weights < twoTo 32) (hpos : 0 < pool len weights) :
    select len weights = do
      let draw ← Draw.real 0.0 (Float.ofNat (pool len weights))
      return pick? draw 0.0 (candidates len weights) := by
  unfold select
  dsimp only
  rw [totalWeight_candidates, if_neg (by omega), if_neg (by omega)]

/-- A positive whole number has all the bits of a double. -/
theorem normal_ofNat {n : Nat} (hpos : 0 < n) (hn : n < 2 ^ 53) : 2 ^ 52 ≤ Double.units (Float.ofNat n) := by
  have hone : 2 ^ 52 ≤ Double.unitsOfOne := by
    rw [Double.unitsOfOne_eq]
    exact Nat.pow_le_pow_right (by decide) (by decide)
  rw [(Double.isWhole_ofNat hn).2]
  exact_mod_cast Nat.le_trans hone (Nat.le_mul_of_pos_left _ hpos)

/-- All that a choice draws is one real below a whole number. -/
theorem select_settles (hfits : pool len weights < twoTo 32) (size : Nat) :
    (select len weights).Settles size := by
  rcases Nat.eq_zero_or_pos (pool len weights) with hempty | hpos
  · rw [select_of_empty hempty]
    exact .pure
  · have hsmall : pool len weights < 2 ^ 53 := Nat.lt_trans hfits (by decide)
    rw [select_of_pos hfits hpos]
    refine .bind (Draw.real_settles (Double.isWhole_ofNat hsmall).1 (normal_ofNat hpos hsmall) size) .any ?_
    exact fun _ _ => .pure

end MutationOperator

open MutationOperator

/-- **The choice of an operator follows the weights**, whatever the source, where the weights of the
eligible operators fit into 32 bits together. There is no choice exactly if no operator has a positive weight
and is eligible, and then nothing is drawn. Otherwise one real is drawn, from zero up to the sum of the weights,
and the operator that is chosen is the only one whose interval contains it; it has a positive weight and is
eligible. -/
theorem choice_follows_weights (len : Nat) (weights : OperatorWeights)
    (hfits : pool len weights < twoTo 32) (s : Source) :
    ((∃ s', (select len weights).run s = .ok (none, s')) ↔ ∀ op, ¬ Available len weights op) ∧
    ((∀ op, ¬ Available len weights op) → (select len weights).run s = .ok (none, s)) ∧
    ((∃ op, Available len weights op) → ∃ draw op,
      (Draw.real 0.0 (Float.ofNat (pool len weights))).run s = .ok (draw, s.next64.2) ∧
      0.0 ≤ draw ∧ draw < Float.ofNat (pool len weights) ∧
      (select len weights).run s = .ok (some op, s.next64.2) ∧
      Owns len weights op draw ∧ Available len weights op ∧
      ∀ op', Owns len weights op' draw → op' = op) := by
  have hsmall : pool len weights < 2 ^ 53 := Nat.lt_trans hfits (by decide)
  have hempty (hnone : ∀ op, ¬ Available len weights op) : (select len weights).run s = .ok (none, s) := by
    have hzero : pool len weights = 0 := by
      have := mt pool_pos_iff.mp (not_exists.mpr hnone)
      omega
    rw [select_of_empty hzero]
    rfl
  have hchosen (hsome : ∃ op, Available len weights op) : ∃ draw op,
      (Draw.real 0.0 (Float.ofNat (pool len weights))).run s = .ok (draw, s.next64.2) ∧
      0.0 ≤ draw ∧ draw < Float.ofNat (pool len weights) ∧
      (select len weights).run s = .ok (some op, s.next64.2) ∧
      Owns len weights op draw ∧ Available len weights op ∧
      ∀ op', Owns len weights op' draw → op' = op := by
    have hpos := pool_pos_iff.mpr hsome
    have hwhole := Double.isWhole_ofNat hsmall
    obtain ⟨draw, hdraw, hlow, hhigh⟩ := Draw.real_run hwhole.1 (normal_ofNat hpos hsmall) s
    -- the scan starts at zero
    have hzero : Double.IsWhole 0.0 ((0 : Nat) : Int) := by decide +kernel
    obtain ⟨before, op, after, htable, hpick, hfrom, hto⟩ :=
      pick?_shares (share len weights) table hzero hlow (by rwa [Nat.zero_add])
        (by rwa [Nat.zero_add])
    rw [Nat.zero_add, ← lead_eq htable] at hfrom hto
    have howns : Owns len weights op draw := ⟨hfrom, hto⟩
    refine ⟨draw, op, hdraw, hlow, hhigh, ?_, howns, howns.available, fun op' h' => howns.eq hsmall h'⟩
    rw [select_of_pos hfits hpos, StateT.run_bind, hdraw, candidates_eq]
    show Except.ok (pick? draw 0.0 _, s.next64.2) = _
    rw [hpick]
  refine ⟨⟨?_, fun hnone => ⟨s, hempty hnone⟩⟩, hempty, hchosen⟩
  rintro ⟨s', hrun⟩ op hop
  obtain ⟨_, _, _, _, _, hselect, _⟩ := hchosen ⟨op, hop⟩
  cases hrun.symm.trans hselect

/-- Weights of the eligible operators that just fit: the largest fraction leads to the last operator. -/
theorem choice_follows_weights_brimful :
    pool 20 ⟨1, 1, 7, 1, 4294967292⟩ < twoTo 32 ∧ ∃ draw,
      (Draw.real 0.0 4294967295.0).run ⟨[0xffffffffffffffff], default⟩ = .ok (draw, ⟨[], default⟩) ∧
      (select 20 ⟨1, 1, 7, 1, 4294967292⟩).run ⟨[0xffffffffffffffff], default⟩ =
        .ok (some .modifyTraits, ⟨[], default⟩) ∧
      Owns 20 ⟨1, 1, 7, 1, 4294967292⟩ .modifyTraits draw := by
  have hfits : pool 20 ⟨1, 1, 7, 1, 4294967292⟩ < twoTo 32 := by decide
  obtain ⟨draw, op, hdraw, -, -, hselect, howns, -⟩ :=
    (choice_follows_weights 20 ⟨1, 1, 7, 1, 4294967292⟩ hfits ⟨[0xffffffffffffffff], default⟩).2.2
      ⟨.modifyTraits, by decide, by decide⟩
  -- which operator the draw has chosen is computed
  have hlast : ((select 20 ⟨1, 1, 7, 1, 4294967292⟩).run ⟨[0xffffffffffffffff], default⟩).toOption.map
      (·.1) = some (some .modifyTraits) := by decide +kernel
  rw [hselect] at hlast
  cases hlast
  have hpool : Float.ofNat (pool 20 ⟨1, 1, 7, 1, 4294967292⟩) = 4294967295.0 := by decide +kernel
  rw [hpool] at hdraw
  exact ⟨hfits, draw, hdraw, hselect, howns⟩

/-- **Acceptance does not bound the weights.** Two weights that a configuration may have add up to `2 ^ 32`,
which does not fit, and then there is no choice on any source, although both operators are eligible. -/
theorem accepted_weights_overflow_choice :
    ({ evolution := { operatorWeights := ⟨4294967295, 1, 0, 0, 0⟩ } } : Config).Valid ∧
      Available 20 ⟨4294967295, 1, 0, 0, 0⟩ .duplicateSegment ∧
      Available 20 ⟨4294967295, 1, 0, 0, 0⟩ .insertSegment ∧
      ∀ s, (select 20 ⟨4294967295, 1, 0, 0, 0⟩).run s = .error .overflow := by
  refine ⟨by decide +kernel, ⟨by decide, by decide⟩, ⟨by decide, by decide⟩, fun s => ?_⟩
  unfold select
  dsimp only
  rw [if_pos (by decide)]
  rfl

end Vivarium
