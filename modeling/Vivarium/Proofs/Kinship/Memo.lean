import Mathlib.Data.List.Perm.Lattice
import Vivarium.Kinship.Cache

/-!
# The memo answers as the computation would

The memo keeps its scores under unordered pairs and answers a question with what was computed earlier,
maybe for the same two strings the other way round. That is the same score, because the coefficient is
symmetric: what is left in the table of counts is at each moment what is left of the first string's bigrams,
so the bigrams that two strings share do not depend on which is called the first. So each entry of a memo
that was filled by computing is the score of its key, whichever entries a compaction has dropped, and
asking it yields what computing would.

Main results: `diceSimilarity_comm`, `Cache.similarity_eq`.
-/

namespace Vivarium

/-! ## The coefficient is symmetric -/

section SharedCount

variable {α : Type} [DecidableEq α] {counts : Table α Nat} {xs : List α}

/-- The table says of every item how often it is in the list, with nothing or with zero if it is not. -/
def Counts (counts : Table α Nat) (xs : List α) : Prop := ∀ x, (counts.get? x).getD 0 = xs.count x

theorem Counts.insert (h : Counts counts xs) {ys : List α} {x : α} {n : Nat} (hx : ys.count x = n)
    (hother : ∀ y, y ≠ x → ys.count y = xs.count y) : Counts (counts.insert x n) ys := by
  intro y
  rw [Table.get?_insert]
  by_cases heq : y = x
  · rw [if_pos heq, heq, hx]
    rfl
  · rw [if_neg heq, hother y heq]
    exact h y

/-- The table of a list counts it. -/
theorem occurrences_counts (xs : List α) : Counts (occurrences xs) xs := by
  -- read from the left, the table counts what has been read, in reverse
  suffices hread : ∀ (xs : List α) (counts : Table α Nat) (read : List α), Counts counts read →
      Counts (xs.foldl (fun counts x => counts.insert x ((counts.get? x).getD 0 + 1)) counts)
        (xs.reverse ++ read) by
    intro x
    rw [← List.count_reverse, ← List.append_nil xs.reverse]
    exact hread xs .empty [] (fun _ => rfl) x
  intro xs
  induction xs with
  | nil => exact fun _ _ h => h
  | cons x xs ih =>
    intro counts read h
    rw [List.foldl_cons, List.reverse_cons, List.append_assoc, List.singleton_append]
    refine ih _ _ (h.insert ?_ fun y hy => List.count_cons_of_ne (Ne.symm hy))
    rw [List.count_cons_self, h x]

/-- What is struck out is told by the count alone: nothing under a key is no different from zero. -/
theorem strike_eq (h : Counts counts xs) (shared : Nat) (y : α) :
    strike (counts, shared) y =
      if 0 < xs.count y then (counts.insert y (xs.count y - 1), shared + 1) else (counts, shared) := by
  rw [← h y]
  unfold strike
  dsimp only
  cases counts.get? y <;> rfl

/-- An item that is left is struck out, and the table counts the rest. -/
theorem strike_of_mem (h : Counts counts xs) {y : α} (hy : y ∈ xs) (shared : Nat) :
    ∃ counts', strike (counts, shared) y = (counts', shared + 1) ∧ Counts counts' (xs.erase y) := by
  rw [strike_eq h, if_pos (List.count_pos_iff.mpr hy)]
  exact ⟨_, rfl, h.insert List.count_erase_self fun z hz => List.count_erase_of_ne hz⟩

/-- An item of which none is left is passed over. -/
theorem strike_of_not_mem (h : Counts counts xs) {y : α} (hy : y ∉ xs) (shared : Nat) :
    strike (counts, shared) y = (counts, shared) := by
  rw [strike_eq h, List.count_eq_zero_of_not_mem hy, if_neg (Nat.lt_irrefl 0)]

/-- The items that are struck out of what a table counts are the common part of the two lists. -/
theorem foldl_strike (ys : List α) : ∀ {counts : Table α Nat} {xs : List α}, Counts counts xs →
    ∀ shared, (ys.foldl strike (counts, shared)).2 = shared + (ys.bagInter xs).length := by
  -- the induction is on the pairs that are struck off, over what is left of the counts by then
  induction ys with
  | nil =>
    intro counts xs _ shared
    rw [List.nil_bagInter]
    rfl
  | cons y ys ih =>
    intro counts xs h shared
    rw [List.foldl_cons]
    by_cases hmem : y ∈ xs
    · obtain ⟨counts', hstrike, hrest⟩ := strike_of_mem h hmem shared
      rw [hstrike, ih hrest, List.cons_bagInter_of_mem _ hmem, List.length_cons]
      omega
    · rw [strike_of_not_mem h hmem, ih h, List.cons_bagInter_of_not_mem _ hmem]

/-- The items that can be struck out are the common part of the two lists. -/
theorem sharedCount_eq (xs ys : List α) : sharedCount xs ys = (ys.bagInter xs).length := by
  unfold sharedCount
  rw [foldl_strike ys (occurrences_counts xs), Nat.zero_add]

theorem sharedCount_comm (xs ys : List α) : sharedCount xs ys = sharedCount ys xs := by
  rw [sharedCount_eq, sharedCount_eq, (List.Perm.bagInter_symm ys xs).length_eq]

end SharedCount

theorem diceOfBytes_comm (a b : List UInt8) : diceOfBytes a b = diceOfBytes b a := by
  unfold diceOfBytes
  dsimp only
  rw [sharedCount_comm, Nat.add_comm]

/-- **Similarity does not depend on the order** in which two strings are given. -/
theorem diceSimilarity_comm (a b : String) : diceSimilarity a b = diceSimilarity b a := by
  unfold diceSimilarity
  by_cases heq : a = b
  · rw [if_pos heq, if_pos heq.symm]
  · rw [if_neg heq, if_neg (Ne.symm heq)]
    dsimp only
    rw [diceOfBytes_comm, Bool.or_comm]

/-- The similarity of the two strings of a key. -/
def PairKey.score (key : PairKey) : Float := diceSimilarity key.first key.second

theorem PairKey.score_of (a b : String) : (PairKey.of a b).score = diceSimilarity a b := by
  unfold PairKey.of
  split
  · exact diceSimilarity_comm b a
  · rfl

/-! ## Memos without a wrong score -/

/-- What the memo holds under each key is the score of the key. -/
def Cache.Coherent (c : Cache) : Prop :=
  ∀ (key : PairKey) (e : CacheEntry), c.entries[key]? = some e → e.score = key.score

/-- A property of the entries of a table and of those that are put into it is one of all entries. -/
theorem forall_getElem?_insertMany {P : PairKey → CacheEntry → Prop} :
    ∀ {l : List (PairKey × CacheEntry)} {m : Std.HashMap PairKey CacheEntry},
      (∀ key e, m[key]? = some e → P key e) → (∀ p ∈ l, P p.1 p.2) →
      ∀ key e, (m.insertMany l)[key]? = some e → P key e
  | [], m, hm, _, key, e, hget => by
    rw [Std.HashMap.insertMany_nil] at hget
    exact hm key e hget
  | (k, v) :: l, m, hm, hl, key, e, hget => by
    rw [Std.HashMap.insertMany_cons] at hget
    refine forall_getElem?_insertMany (m := m.insert k v) (fun key' e' hget' => ?_)
      (fun p hp => hl p (List.mem_cons_of_mem _ hp)) key e hget
    -- a later entry of the same key takes the place of an earlier one
    rw [Std.HashMap.getElem?_insert] at hget'
    split at hget'
    · rename_i hkey
      cases hget'
      rw [← eq_of_beq hkey]
      exact hl _ List.mem_cons_self
    · exact hm key' e' hget'

namespace Cache.Coherent

variable {c : Cache}

theorem empty (capacity : Nat) : (Cache.empty capacity).Coherent := by
  intro key e hget
  have hnone : (∅ : Std.HashMap PairKey CacheEntry)[key]? = none := Std.HashMap.getElem?_empty
  cases hnone.symm.trans hget

/-- A compaction drops and renumbers entries, and changes no score. -/
theorem compact (h : c.Coherent) : c.compact.Coherent := by
  refine forall_getElem?_insertMany (m := ∅) (P := fun key e => e.score = key.score) ?_ ?_
  · exact fun key e hget => empty 2 key e hget
  · intro p hp
    obtain ⟨⟨⟨key, e⟩, i⟩, hmem, rfl⟩ := List.mem_map.mp hp
    -- what is left after the cutoff has been in the memo before
    have hsorted : (key, e) ∈ c.inOrder :=
      List.mem_of_mem_drop (List.fst_mem_of_mem_zipIdx hmem)
    have hlisted : (key, e) ∈ c.entries.toList := (List.mergeSort_perm _ _).mem_iff.mp hsorted
    exact h key e (Std.HashMap.mem_toList_iff_getElem?_eq_some.mp hlisted)

theorem insert (h : c.Coherent) (key : PairKey) : (c.insert key key.score).Coherent := by
  -- the new entry holds the score of its key, and the others are from before
  have hput : Coherent { c with
      entries := c.entries.insert key ⟨c.lastOrdinal + 1, key.score⟩
      lastOrdinal := c.lastOrdinal + 1 } := by
    intro key' e hget
    rw [Std.HashMap.getElem?_insert] at hget
    split at hget
    · rename_i hkey
      cases hget
      rw [← eq_of_beq hkey]
    · exact h key' e hget
  unfold Cache.insert
  dsimp only
  split
  · exact hput.compact
  · exact hput

end Cache.Coherent

/-- **A memo answers as the computation would**, and stays without a wrong score. -/
theorem Cache.similarity_eq {c : Cache} (h : c.Coherent) (a b : String) :
    ∃ c', c'.Coherent ∧ c.similarity a b = (diceSimilarity a b, c') := by
  unfold similarity
  dsimp only
  split
  · -- the score has been remembered, and is the right one
    rename_i score hget
    obtain ⟨e, he, rfl⟩ := Option.map_eq_some_iff.mp hget
    refine ⟨c, h, ?_⟩
    rw [h _ _ he, PairKey.score_of]
  · -- the score is computed, and remembered
    refine ⟨_, h.insert (PairKey.of a b), ?_⟩
    rw [PairKey.score_of]

end Vivarium
