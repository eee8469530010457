import Vivarium.Proofs.Kinship.Memo
import Vivarium.Proofs.Kinship.Recency

/-!
# Asking the memo changes no answer

A memo that starts empty and is asked one question after the other has scores of its own computing only,
and so it answers each question as the computation would, in either order of the two strings, however
often it has been compacted in between. Its size stays below the capacity. A score is put in only under a
key that is not there, so no ordinal is ever passed over: the ordinal given out last is the number of
entries.

Main result: `memo_is_transparent`.
-/

namespace Vivarium

namespace Journal

variable {capacity : Nat} {j : Journal} {key : PairKey} {score : Float}

/-- No ordinal has been passed over. -/
def Gapless (j : Journal) : Prop := j.lastOrdinal = j.table.size

/-- A new key takes the place behind all that are there. -/
theorem Gapless.put (h : j.Gapless) (hnew : key ∉ j.table.keys) : (j.put capacity key score).Gapless := by
  -- a new key takes nothing out of the table, so one is added
  have hsize : (j.moved key score).table.size = j.table.size + 1 := by
    have hkeys := congrArg List.length (Table.keys_moveToEnd j.table key ⟨j.lastOrdinal + 1, score⟩)
    have hall : j.table.keys.filter (· ≠ key) = j.table.keys := by
      rw [List.filter_eq_self]
      intro key' hmem
      simpa using ne_of_mem_of_not_mem hmem hnew
    rw [hall, List.length_append] at hkeys
    simpa [Journal.moved, Table.keys, Table.size] using hkeys
  unfold Gapless at h ⊢
  unfold Journal.put
  dsimp only
  split
  · show capacity / 2 = _
    rw [Table.size_renumbered, Table.size_last _ (by omega)]
  · exact (congrArg (· + 1) h).trans hsize.symm

end Journal

namespace Cache

variable {c : Cache} {j : Journal}

/-- A memo that was filled by computing, and what is listed of it. -/
structure Computed (c : Cache) (j : Journal) : Prop where
  coherent : c.Coherent
  holds    : c.Holds j
  kept     : j.Kept c.capacity
  gapless  : j.Gapless
  two_le   : 2 ≤ c.capacity

theorem computed_empty (capacity : Nat) : (empty capacity).Computed .empty where
  coherent := .empty capacity
  holds    := holds_empty capacity
  kept     := Journal.kept_empty (Nat.lt_of_lt_of_le Nat.zero_lt_two (Nat.le_max_right capacity 2))
  gapless  := rfl
  two_le   := Nat.le_max_right capacity 2

namespace Computed

theorem size_lt (h : c.Computed j) : c.size < c.capacity := by
  rw [h.holds.size_eq h.kept.keys_nodup]
  exact h.kept.size_lt

theorem lastOrdinal_eq (h : c.Computed j) : c.lastOrdinal = c.size := by
  rw [h.holds.size_eq h.kept.keys_nodup, h.holds.lastOrdinal_eq]
  exact h.gapless

/-- The score of a key that is not there can be put in. -/
theorem insert (h : c.Computed j) {key : PairKey} (hnew : c.get? key = none) :
    (c.insert key key.score).Computed (j.put c.capacity key key.score) ∧
      (c.insert key key.score).capacity = c.capacity := by
  have hmissing : key ∉ j.table.keys := by
    rw [← Table.get?_eq_none_iff, ← h.holds.getElem?_eq]
    exact Option.map_eq_none_iff.mp hnew
  obtain ⟨hholds, hcapacity⟩ := h.holds.takes h.kept h.two_le (h.holds.takes_insert h.kept key key.score)
  exact ⟨⟨h.coherent.insert key, hholds, hcapacity ▸ h.kept.put h.two_le key key.score,
    h.gapless.put hmissing, hcapacity ▸ h.two_le⟩, hcapacity⟩

/-- **One question**: the answer is right, and the memo is as good as it was. -/
theorem similarity (h : c.Computed j) (a b : String) :
    (c.similarity a b).1 = diceSimilarity a b ∧ (c.similarity a b).2.capacity = c.capacity ∧
      ∃ j', (c.similarity a b).2.Computed j' := by
  have hanswer : (c.similarity a b).1 = diceSimilarity a b := by
    obtain ⟨c', -, heq⟩ := Cache.similarity_eq h.coherent a b
    rw [heq]
  refine ⟨hanswer, ?_⟩
  unfold Cache.similarity
  dsimp only
  -- a score that is remembered changes nothing, and one that is not is put at the end
  cases hget : c.get? (PairKey.of a b) with
  | some score => exact ⟨rfl, j, h⟩
  | none =>
    obtain ⟨hinsert, hcapacity⟩ := h.insert hget
    rw [PairKey.score_of] at hinsert hcapacity
    exact ⟨hcapacity, _, hinsert⟩

end Computed

/-- The memo after it has been asked for the similarity of pairs, one after the other. -/
def after (c : Cache) (asked : List (String × String)) : Cache :=
  asked.foldl (fun c p => (c.similarity p.1 p.2).2) c

/-- **Any number of questions** leave the memo as good as it was. -/
theorem Computed.after (h : c.Computed j) (asked : List (String × String)) :
    (c.after asked).capacity = c.capacity ∧ ∃ j', (c.after asked).Computed j' := by
  induction asked generalizing c j with
  | nil => exact ⟨rfl, j, h⟩
  | cons p asked ih =>
    obtain ⟨-, hcapacity, j', h'⟩ := h.similarity p.1 p.2
    obtain ⟨hrest, hcomputed⟩ := ih h'
    exact ⟨hrest.trans hcapacity, hcomputed⟩

end Cache

/-- **The memo is transparent.** Whatever has been asked before of a memo that was empty, of any capacity, it
answers the next question as the computation would, for the two strings in the order in which they are
given. The answer leaves it with less entries than its capacity, of two at the least, and with no ordinal
above their number. -/
theorem memo_is_transparent (capacity : Nat) (asked : List (String × String)) (a b : String) :
    (((Cache.empty capacity).after asked).similarity a b).1 = diceSimilarity a b ∧
      let c := (((Cache.empty capacity).after asked).similarity a b).2
      c.size < c.capacity ∧ c.capacity = max capacity 2 ∧ c.lastOrdinal = c.size := by
  obtain ⟨hcapacity, j, hcomputed⟩ := (Cache.computed_empty capacity).after asked
  obtain ⟨hanswer, hcapacity', j', hcomputed'⟩ := hcomputed.similarity a b
  exact ⟨hanswer, hcomputed'.size_lt, hcapacity'.trans hcapacity, hcomputed'.lastOrdinal_eq⟩

end Vivarium
