import Mathlib.Data.List.Induction
import Mathlib.Data.List.Sort
import Vivarium.Kinship.Cache
import Vivarium.Proofs.Table

/-!
# The memo keeps the latest scores

What the memo holds is told by a list in the order of insertion. A key under which a score is put moves to
the end of the list, and when the list has grown to the capacity only its last half is kept. The memo does
not keep such a list: it has a hash map with ordinals. Putting a score under a key that is there leaves a
gap in the ordinals; a compaction looks the cutoff up among the sorted ordinals, drops what does not lie
above it, and numbers the rest from one.

The two are brought together in two steps. A `Journal` lists the entries with their ordinals, which
increase along the list; the hash map only finds what the journal lists. Without the ordinals the journal
is the reference list. Nothing of this depends on the order in which the hash map is walked through, so it
is shown for every order (`Cache.Fills`), and the memo's own functions choose one of them.

Main result: `memo_keeps_latest`.
-/

namespace Vivarium

/-! ## Tables that are ordered by their last change -/

namespace Table

variable {κ α β : Type} [DecidableEq κ]

/-- The table with `k` moved to its end, under a new value. -/
def moveToEnd (t : Table κ α) (k : κ) (a : α) : Table κ α := ⟨(t.erase k).entries ++ [(k, a)]⟩

/-- The last `n` entries. -/
def last (t : Table κ α) (n : Nat) : Table κ α := ⟨t.entries.drop (t.size - n)⟩

/-- The table with a function applied to its values. -/
def mapValues (f : α → β) (t : Table κ α) : Table κ β := ⟨t.entries.map fun e => (e.1, f e.2)⟩

/-- What is moved to the end is found under its key, with its new value. -/
theorem get?_moveToEnd (t : Table κ α) (k l : κ) (a : α) :
    (t.moveToEnd k a).get? l = if l = k then some a else t.get? l := by
  unfold moveToEnd
  rw [get?_append, get?_cons, show (⟨(t.erase k).entries⟩ : Table κ α) = t.erase k from rfl, get?_erase]
  by_cases h : l = k
  · simp [h]
  · simp [h, show (⟨[]⟩ : Table κ α).get? l = none from rfl]

/-- Its key comes last. -/
theorem keys_moveToEnd (t : Table κ α) (k : κ) (a : α) :
    (t.moveToEnd k a).keys = t.keys.filter (· ≠ k) ++ [k] := by
  rw [← keys_erase]
  unfold moveToEnd keys
  rw [List.map_append]
  rfl

/-- And is not listed twice. -/
theorem nodup_keys_moveToEnd {t : Table κ α} (h : t.keys.Nodup) (k : κ) (a : α) :
    (t.moveToEnd k a).keys.Nodup := by
  rw [keys_moveToEnd, List.nodup_append]
  refine ⟨h.filter _, List.nodup_singleton k, ?_⟩
  intro l hl k' hk'
  rw [List.mem_singleton.mp hk']
  simpa using (List.mem_filter.mp hl).2

/-- Moving a key to the end adds one entry at most. -/
theorem size_moveToEnd_le (t : Table κ α) (k : κ) (a : α) : (t.moveToEnd k a).size ≤ t.size + 1 := by
  unfold moveToEnd erase size
  rw [List.length_append, List.length_singleton]
  exact Nat.succ_le_succ (List.length_filter_le _ _)

omit [DecidableEq κ] in
/-- Of a table with enough entries the last `n` are `n` entries. -/
theorem size_last (t : Table κ α) {n : Nat} (h : n ≤ t.size) : (t.last n).size = n := by
  unfold last size at *
  rw [List.length_drop]
  omega

omit [DecidableEq κ] in
/-- Their keys are listed in the same order. -/
theorem keys_last_sublist (t : Table κ α) (n : Nat) : (t.last n).keys.Sublist t.keys :=
  (List.drop_sublist _ t.entries).map _

/-- The entry that was put in last is among the last ones. -/
theorem get?_last_moveToEnd {t : Table κ α} (h : t.keys.Nodup) (k : κ) (a : α) {n : Nat} (hn : 0 < n) :
    ((t.moveToEnd k a).last n).get? k = some a := by
  have hnodup := nodup_keys_moveToEnd h k a
  rw [get?_eq_some_iff (hnodup.sublist (keys_last_sublist _ n))]
  have hsize : (t.moveToEnd k a).size = (t.erase k).entries.length + 1 := by
    simp [moveToEnd, size]
  unfold last
  rw [hsize]
  -- at most the entries before the last one are dropped
  show (k, a) ∈ ((t.erase k).entries ++ [(k, a)]).drop _
  rw [List.drop_append]
  refine List.mem_append_right _ ?_
  rw [show (t.erase k).entries.length + 1 - n - (t.erase k).entries.length = 0 by omega]
  exact List.mem_singleton_self _

section MapValues

variable (f : α → β) (t : Table κ α)

/-- To map the values maps what is found. -/
theorem get?_mapValues (k : κ) : (t.mapValues f).get? k = (t.get? k).map f := by
  obtain ⟨es⟩ := t
  induction es with
  | nil => rfl
  | cons e es ih =>
    show get? ⟨(e.1, f e.2) :: es.map fun e => (e.1, f e.2)⟩ k = _
    rw [get?_cons, get?_cons]
    -- the entry at the front is the one that is looked for, or it is passed over on both sides
    by_cases h : k = e.1
    · simp [h]
    · rw [if_neg h, if_neg h]
      exact ih

omit [DecidableEq κ] in
@[simp] theorem size_mapValues : (t.mapValues f).size = t.size := List.length_map _

omit [DecidableEq κ] in
@[simp] theorem keys_mapValues : (t.mapValues f).keys = t.keys := by
  unfold mapValues keys
  rw [List.map_map]
  rfl

/-- It does not matter whether an entry is mapped before or after it is moved. -/
theorem mapValues_moveToEnd (k : κ) (a : α) :
    (t.moveToEnd k a).mapValues f = (t.mapValues f).moveToEnd k (f a) := by
  unfold moveToEnd mapValues erase
  simp [List.filter_map, Function.comp_def]

omit [DecidableEq κ] in
/-- Nor whether the table is mapped before or after it is cut. -/
theorem mapValues_last (n : Nat) : (t.last n).mapValues f = (t.mapValues f).last n := by
  unfold last
  rw [size_mapValues]
  unfold mapValues
  simp

end MapValues

end Table

/-! ## The reference -/

/-- Moves a key to the end of the list, under a new score. Of a list that has grown to the capacity the
last half is kept. -/
def putLatest (capacity : Nat) (t : Table PairKey Float) (key : PairKey) (score : Float) :
    Table PairKey Float :=
  let t := t.moveToEnd key score
  if t.size = capacity then t.last (capacity / 2) else t

/-- What the list holds after scores have been put under keys, one after the other. -/
def latest (capacity : Nat) (puts : List (PairKey × Float)) : Table PairKey Float :=
  puts.foldl (fun t p => putLatest capacity t p.1 p.2) .empty

/-- One more pair is put into what the others have left. -/
theorem latest_concat (capacity : Nat) (puts : List (PairKey × Float)) (key : PairKey) (score : Float) :
    latest capacity (puts ++ [(key, score)]) = putLatest capacity (latest capacity puts) key score :=
  List.foldl_concat _ _ _ _

/-- The score that was put in last is there, whether the list was full or not. -/
theorem get?_putLatest {capacity : Nat} {t : Table PairKey Float} (hkeys : t.keys.Nodup)
    (hcapacity : 2 ≤ capacity) (key : PairKey) (score : Float) :
    (putLatest capacity t key score).get? key = some score := by
  unfold putLatest
  dsimp only
  split
  · exact Table.get?_last_moveToEnd hkeys key score (by omega)
  · rw [Table.get?_moveToEnd, if_pos rfl]

/-! ## Journals -/

/-- The entries of the table numbered from one, in the order in which they are listed. -/
def Table.renumbered (t : Table PairKey CacheEntry) : Table PairKey CacheEntry :=
  ⟨t.entries.zipIdx.map fun ((key, e), i) => (key, { e with ordinal := i + 1 })⟩

/-- The ordinals in the order in which the entries are listed. -/
def Table.ordinals (t : Table PairKey CacheEntry) : List Nat := t.entries.map (·.2.ordinal)

/-- The scores without their ordinals. -/
def Table.scores (t : Table PairKey CacheEntry) : Table PairKey Float := t.mapValues (·.score)

/-- The entries of a memo in the order of insertion, and the ordinal that was given out last. -/
structure Journal where
  table       : Table PairKey CacheEntry
  lastOrdinal : Nat

namespace Table

/-- To renumber the entries leaves their number. -/
theorem size_renumbered (t : Table PairKey CacheEntry) : t.renumbered.size = t.size := by
  simp [renumbered, size]

/-- And their keys, in order. -/
theorem keys_renumbered (t : Table PairKey CacheEntry) : t.renumbered.keys = t.keys := by
  unfold renumbered keys
  rw [List.map_map]
  refine List.ext_getElem (by simp) fun i hi hi' => ?_
  simp

/-- And their scores. -/
theorem scores_renumbered (t : Table PairKey CacheEntry) : t.renumbered.scores = t.scores := by
  unfold renumbered scores mapValues
  rw [List.map_map, Table.mk.injEq]
  refine List.ext_getElem (by simp) fun i hi hi' => ?_
  simp

/-- The new ordinals count from one. -/
theorem ordinals_renumbered (t : Table PairKey CacheEntry) :
    t.renumbered.ordinals = List.range' 1 t.size := by
  unfold renumbered ordinals
  rw [List.map_map]
  refine List.ext_getElem (by simp [size]) fun i hi hi' => ?_
  simp [Nat.add_comm]

end Table

namespace Journal

def empty : Journal := ⟨.empty, 0⟩

/-- Lists a score under a key as the latest entry, whether or not there is room. -/
def moved (j : Journal) (key : PairKey) (score : Float) : Journal :=
  ⟨j.table.moveToEnd key ⟨j.lastOrdinal + 1, score⟩, j.lastOrdinal + 1⟩

/-- Puts a score under a key, as the latest entry. Of a journal that is full the last half is kept, and
numbered anew. -/
def put (capacity : Nat) (j : Journal) (key : PairKey) (score : Float) : Journal :=
  let j := j.moved key score
  if j.table.size = capacity then ⟨(j.table.last (capacity / 2)).renumbered, capacity / 2⟩ else j

/-- A journal with one entry for each key and with ordinals that increase from entry to entry. -/
structure Kept (capacity : Nat) (j : Journal) : Prop where
  keys_nodup : j.table.keys.Nodup
  ascending  : j.table.ordinals.Pairwise (· < ·)
  bounds     : ∀ o ∈ j.table.ordinals, 0 < o ∧ o ≤ j.lastOrdinal
  size_le    : j.table.size ≤ j.lastOrdinal
  size_lt    : j.table.size < capacity

variable {capacity : Nat} {j : Journal} {key : PairKey} {score : Float}

/-- An empty journal is kept. -/
theorem kept_empty (h : 0 < capacity) : empty.Kept capacity where
  keys_nodup := List.nodup_nil
  ascending  := List.Pairwise.nil
  bounds     := nofun
  size_le    := Nat.le_refl 0
  size_lt    := h

/-- Before anything is dropped, the journal only lacks room. -/
theorem Kept.moved (h : j.Kept capacity) (key : PairKey) (score : Float) :
    (j.moved key score).Kept (capacity + 1) where
  keys_nodup := Table.nodup_keys_moveToEnd h.keys_nodup _ _
  ascending  := by
    unfold Journal.moved Table.ordinals Table.moveToEnd
    rw [List.map_append, List.pairwise_append]
    refine ⟨?_, List.pairwise_singleton _ _, ?_⟩
    · exact h.ascending.sublist (List.filter_sublist.map _)
    · -- the new ordinal lies above all that were given out
      intro o ho o' ho'
      have hold := (h.bounds o ((List.filter_sublist.map _).subset ho)).2
      have hnew : o' = j.lastOrdinal + 1 := by simpa using ho'
      omega
  bounds     := by
    intro o ho
    unfold Journal.moved Table.ordinals Table.moveToEnd at ho
    rw [List.map_append, List.mem_append] at ho
    rcases ho with hold | hnew
    · have hbounds := h.bounds o ((List.filter_sublist.map _).subset hold)
      exact ⟨hbounds.1, Nat.le_succ_of_le hbounds.2⟩
    · have heq : o = j.lastOrdinal + 1 := by simpa using hnew
      exact ⟨by omega, Nat.le_of_eq heq⟩
  size_le    := Nat.le_trans (Table.size_moveToEnd_le _ _ _) (Nat.succ_le_succ h.size_le)
  size_lt    := Nat.lt_of_le_of_lt (Table.size_moveToEnd_le _ _ _) (Nat.succ_lt_succ h.size_lt)

/-- **A journal that is kept stays kept** when a score is put in. -/
theorem Kept.put (h : j.Kept capacity) (hcapacity : 2 ≤ capacity) (key : PairKey) (score : Float) :
    (j.put capacity key score).Kept capacity := by
  have hmoved := h.moved key score
  unfold Journal.put
  dsimp only
  generalize j.moved key score = m at hmoved ⊢
  split
  · -- what is left is numbered anew, so its ordinals are known
    rename_i hfull
    have hsize : (m.table.last (capacity / 2)).size = capacity / 2 := Table.size_last _ (by omega)
    refine ⟨?_, ?_, ?_, ?_, ?_⟩
    · rw [Table.keys_renumbered]
      exact hmoved.keys_nodup.sublist (Table.keys_last_sublist _ _)
    · rw [Table.ordinals_renumbered]
      exact List.pairwise_lt_range' 1
    · intro o ho
      rw [Table.ordinals_renumbered, hsize, List.mem_range'_1] at ho
      exact ⟨by omega, by show o ≤ capacity / 2; omega⟩
    · exact Nat.le_of_eq ((Table.size_renumbered _).trans hsize)
    · rw [Table.size_renumbered, hsize]
      omega
  · have hroom := hmoved.size_lt
    exact ⟨hmoved.keys_nodup, hmoved.ascending, hmoved.bounds, hmoved.size_le, by omega⟩

/-- **Without its ordinals a journal is the reference list.** -/
theorem scores_put : (j.put capacity key score).table.scores = putLatest capacity j.table.scores key score := by
  have hmove := Table.mapValues_moveToEnd (·.score) j.table key ⟨j.lastOrdinal + 1, score⟩
  unfold Journal.put Journal.moved putLatest Table.scores
  dsimp only at hmove ⊢
  -- renumbering the entries does not change what they score
  rw [← hmove, Table.size_mapValues]
  split
  · rw [← Table.mapValues_last]
    exact Table.scores_renumbered _
  · rfl

/-- Right after a compaction the ordinals are the numbers from one up to half the capacity. -/
theorem put_full (hfull : (j.table.scores.moveToEnd key score).size = capacity) :
    (j.put capacity key score).table.ordinals = List.range' 1 (capacity / 2) ∧
      (j.put capacity key score).lastOrdinal = capacity / 2 := by
  -- forgetting the ordinals does not change how many there are
  have hsize : (j.moved key score).table.size = capacity := by
    have hmove := Table.mapValues_moveToEnd (·.score) j.table key ⟨j.lastOrdinal + 1, score⟩
    unfold Table.scores at hfull
    unfold moved
    rw [← hfull, ← hmove, Table.size_mapValues]
  unfold Journal.put
  rw [if_pos hsize]
  refine ⟨?_, rfl⟩
  rw [Table.ordinals_renumbered, Table.size_last _ (by omega)]

/-- No more ordinals are given out than scores are put in. -/
theorem Kept.lastOrdinal_put_le (h : j.Kept capacity) (key : PairKey) (score : Float) :
    (j.put capacity key score).lastOrdinal ≤ j.lastOrdinal + 1 := by
  have hsize : (j.moved key score).table.size ≤ j.lastOrdinal + 1 := (h.moved key score).size_le
  unfold Journal.put
  dsimp only
  split
  · show capacity / 2 ≤ j.lastOrdinal + 1
    omega
  · exact Nat.le_refl _

/-- The journal of scores that have been put under keys, one after the other. -/
def of (capacity : Nat) (puts : List (PairKey × Float)) : Journal :=
  puts.foldl (fun j p => j.put capacity p.1 p.2) empty

variable {puts : List (PairKey × Float)}

/-- One more score is put into the journal of the others. -/
theorem of_concat : of capacity (puts ++ [(key, score)]) = (of capacity puts).put capacity key score :=
  List.foldl_concat _ _ _ _

/-- So the journal of any scores is kept. -/
theorem kept_of (h : 2 ≤ capacity) (puts : List (PairKey × Float)) : (of capacity puts).Kept capacity := by
  induction puts using List.reverseRecOn with
  | nil => exact kept_empty (by omega)
  | append_singleton puts p ih =>
    rw [of_concat]
    exact ih.put h p.1 p.2

/-- Without its ordinals a journal is the list of the latest. -/
theorem scores_of (capacity : Nat) (puts : List (PairKey × Float)) :
    (of capacity puts).table.scores = latest capacity puts := by
  induction puts using List.reverseRecOn with
  | nil => rfl
  | append_singleton puts p ih =>
    rw [of_concat, scores_put, ih, latest_concat]

/-- No more ordinals are given out than scores are put in. -/
theorem lastOrdinal_of_le (h : 2 ≤ capacity) (puts : List (PairKey × Float)) :
    (of capacity puts).lastOrdinal ≤ puts.length := by
  induction puts using List.reverseRecOn with
  | nil => exact Nat.le_refl 0
  | append_singleton puts p ih =>
    have hstep := (kept_of h puts).lastOrdinal_put_le p.1 p.2
    rw [of_concat, List.length_append, List.length_singleton]
    omega

end Journal

/-! ## The cutoff -/

/-- The greatest ordinal that a compaction drops, which has `keep` ordinals behind it in ascending order;
zero where there are not that many. -/
def cutoff (keep : Nat) (ascending : List Nat) : Nat :=
  if keep < ascending.length then ascending.getD (ascending.length - (keep + 1)) 0 else 0

/-- Above an item of an ascending list lie those behind it. -/
theorem filter_above_item {α : Type} {f : α → Nat} {before after : List α} {x : α}
    (hascending : ((before ++ x :: after).map f).Pairwise (· < ·)) :
    (before ++ x :: after).filter (fun y => f x < f y) = after := by
  rw [List.map_append, List.map_cons, List.pairwise_append, List.pairwise_cons] at hascending
  obtain ⟨-, ⟨hafter, -⟩, hbefore⟩ := hascending
  -- what comes before the item is below it, and what comes after it is above it
  have hnone : before.filter (fun y => f x < f y) = [] := by
    rw [List.filter_eq_nil_iff]
    intro y hy
    have := hbefore (f y) (List.mem_map_of_mem hy) (f x) List.mem_cons_self
    simp
    omega
  have hall : after.filter (fun y => f x < f y) = after := by
    rw [List.filter_eq_self]
    intro y hy
    simpa using hafter (f y) (List.mem_map_of_mem hy)
  rw [List.filter_append, List.filter_cons_of_neg (by simp), hnone, hall, List.nil_append]

/-- Above the cutoff lie the last `keep` items. -/
theorem filter_cutoff {α : Type} {f : α → Nat} {xs : List α} (hascending : (xs.map f).Pairwise (· < ·))
    (hpositive : ∀ o ∈ xs.map f, 0 < o) (keep : Nat) :
    xs.filter (fun x => cutoff keep (xs.map f) < f x) = xs.drop (xs.length - keep) := by
  unfold cutoff
  by_cases hkeep : keep < (xs.map f).length
  · rw [if_pos hkeep]
    rw [List.length_map] at hkeep ⊢
    -- the list is split at the item that has the cutoff
    obtain ⟨before, x, after, rfl, hlength⟩ :
        ∃ before x after, xs = before ++ x :: after ∧ after.length = keep := by
      have hindex : xs.length - (keep + 1) < xs.length := by omega
      refine ⟨xs.take (xs.length - (keep + 1)), xs[xs.length - (keep + 1)],
        xs.drop (xs.length - (keep + 1) + 1), ?_, ?_⟩
      · rw [← List.drop_eq_getElem_cons hindex, List.take_append_drop]
      · rw [List.length_drop]
        omega
    have htotal : (before ++ x :: after).length = before.length + keep + 1 := by
      simp [hlength]
      omega
    have hcutoff : ((before ++ x :: after).map f).getD
        ((before ++ x :: after).length - (keep + 1)) 0 = f x := by
      rw [htotal, show before.length + keep + 1 - (keep + 1) = before.length by omega]
      simp
    rw [hcutoff, htotal, show before.length + keep + 1 - keep = before.length + 1 by omega]
    rw [filter_above_item hascending]
    simp
  · rw [if_neg hkeep]
    rw [List.length_map] at hkeep
    rw [show xs.length - keep = 0 by omega, List.drop_zero, List.filter_eq_self]
    intro x hx
    simpa using hpositive (f x) (List.mem_map_of_mem hx)

namespace Journal.Kept

variable {capacity : Nat} {j : Journal}

/-- The entries stand in the order of their ordinals. -/
theorem sorted (h : j.Kept capacity) : j.table.ordinals.Pairwise (· ≤ ·) :=
  h.ascending.imp fun hlt => Nat.le_of_lt hlt

/-- In a journal the entries above the cutoff are the last ones. -/
theorem filter_cutoff (h : j.Kept capacity) (keep : Nat) :
    (j.table.entries.filter fun e => cutoff keep j.table.ordinals < e.2.ordinal) = (j.table.last keep).entries :=
  Vivarium.filter_cutoff h.ascending (fun o ho => (h.bounds o ho).1) keep

end Journal.Kept

/-! ## What the hash map finds -/

namespace Cache

variable {c c' : Cache} {j : Journal} {capacity : Nat} {key : PairKey} {score : Float}

/-- The memo finds under each key what the journal lists, and counts on from the same ordinal. -/
structure Holds (c : Cache) (j : Journal) : Prop where
  getElem?_eq    : ∀ key, c.entries[key]? = j.table.get? key
  lastOrdinal_eq : c.lastOrdinal = j.lastOrdinal

/-- An empty cache holds an empty journal. -/
theorem holds_empty (capacity : Nat) : (empty capacity).Holds .empty where
  getElem?_eq    := fun _ => Std.HashMap.getElem?_empty
  lastOrdinal_eq := rfl

namespace Holds

/-- A walk through the hash map meets the entries of the journal in some order. -/
theorem perm (h : c.Holds j) (hkeys : j.table.keys.Nodup) : c.entries.toList.Perm j.table.entries := by
  have hwalk : c.entries.toList.Nodup :=
    Std.HashMap.distinct_keys_toList.imp fun {e e'} hne heq => by simp [heq] at hne
  -- both list each entry once, and the same entries
  rw [List.perm_ext_iff_of_nodup hwalk hkeys.of_map]
  rintro ⟨key, e⟩
  rw [Std.HashMap.mem_toList_iff_getElem?_eq_some, h.getElem?_eq, Table.get?_eq_some_iff hkeys]

/-- A cache has as many entries as the journal that it holds. -/
theorem size_eq (h : c.Holds j) (hkeys : j.table.keys.Nodup) : c.size = j.table.size := by
  unfold Cache.size Table.size
  rw [← Std.HashMap.length_toList, (h.perm hkeys).length_eq]

end Holds

/-- Sorting by distinct ordinals has one result, whatever the order was before. -/
theorem eq_of_perm_of_ordinals {es es' : List (PairKey × CacheEntry)} (hperm : es.Perm es')
    (hsorted : es.Pairwise fun a b => a.2.ordinal ≤ b.2.ordinal)
    (hascending : (es'.map (·.2.ordinal)).Pairwise (· < ·)) : es = es' := by
  have hdistinct : (es'.map (·.2.ordinal)).Nodup := hascending.imp fun hlt => Nat.ne_of_lt hlt
  refine List.Perm.eq_of_pairwise ?_ hsorted ?_ hperm
  · intro a b ha hb hab hba
    exact List.inj_on_of_nodup_map hdistinct (hperm.mem_iff.mp ha) hb (Nat.le_antisymm hab hba)
  · exact (List.pairwise_map.mp hascending).imp fun hlt => Nat.le_of_lt hlt

/-- Sorted by their ordinals, the entries of the cache are those of the journal. -/
theorem Holds.inOrder_eq (h : c.Holds j) (hkept : j.Kept capacity) : c.inOrder = j.table.entries := by
  refine eq_of_perm_of_ordinals ((List.mergeSort_perm _ _).trans (h.perm hkept.keys_nodup)) ?_ hkept.ascending
  have hsorted : c.inOrder.Pairwise fun a b => decide (a.2.ordinal ≤ b.2.ordinal) = true :=
    List.pairwise_mergeSort (by simp; omega) (by simp; omega) c.entries.toList
  exact hsorted.imp fun hle => of_decide_eq_true hle

/-! ## Memos that are filled in any order of walking -/

/-- The memo with a score under a key, before it is looked at whether it is full. -/
def put (c : Cache) (key : PairKey) (score : Float) : Cache :=
  { c with
    entries     := c.entries.insert key ⟨c.lastOrdinal + 1, score⟩
    lastOrdinal := c.lastOrdinal + 1 }

/-- A compaction that walks through the hash map in some order: what lies above the cutoff is left, and is
numbered in ascending order of the ordinals. -/
structure CompactsTo (c c' : Cache) (ordinals : List Nat) (left : List (PairKey × CacheEntry)) : Prop where
  ordinals_perm   : ordinals.Perm (c.entries.toList.map (·.2.ordinal))
  ordinals_sorted : ordinals.Pairwise (· ≤ ·)
  left_perm       : left.Perm (c.entries.toList.filter fun e => cutoff (c.capacity / 2) ordinals < e.2.ordinal)
  left_sorted     : left.Pairwise fun a b => a.2.ordinal ≤ b.2.ordinal
  getElem?_eq     : ∀ key, c'.entries[key]? = (Table.renumbered ⟨left⟩).get? key
  lastOrdinal_eq  : c'.lastOrdinal = left.length
  capacity_eq     : c'.capacity = c.capacity

/-- A score is put under a key, and a full table is compacted. -/
inductive Takes (c : Cache) (key : PairKey) (score : Float) : Cache → Prop
  | room (h : (c.put key score).size < c.capacity) : c.Takes key score (c.put key score)
  | full {c' : Cache} {ordinals : List Nat} {left : List (PairKey × CacheEntry)}
      (h : c.capacity ≤ (c.put key score).size) (hcompacts : (c.put key score).CompactsTo c' ordinals left) :
      c.Takes key score c'

/-- The memos to which scores can lead that are put in one after the other. -/
inductive Fills (capacity : Nat) : List (PairKey × Float) → Cache → Prop
  | none : Fills capacity [] (empty capacity)
  | next {puts : List (PairKey × Float)} {c c' : Cache} {key : PairKey} {score : Float}
      (hfills : Fills capacity puts c) (htakes : c.Takes key score c') :
      Fills capacity (puts ++ [(key, score)]) c'

/-- A score that is put in is moved to the end of the journal. -/
theorem Holds.put (h : c.Holds j) (key : PairKey) (score : Float) :
    (c.put key score).Holds (j.moved key score) where
  getElem?_eq    := by
    intro key'
    unfold Cache.put Journal.moved
    dsimp only
    rw [Std.HashMap.getElem?_insert, Table.get?_moveToEnd, h.getElem?_eq, h.lastOrdinal_eq]
    -- only the entry of the key itself is a new one
    by_cases heq : key' = key
    · simp [heq]
    · simp [heq, Ne.symm heq]
  lastOrdinal_eq := congrArg (· + 1) h.lastOrdinal_eq

/-- In whichever order the hash map is walked through, a compaction leaves the last half. -/
theorem CompactsTo.left_eq {ordinals : List Nat} {left : List (PairKey × CacheEntry)}
    (hcompacts : c.CompactsTo c' ordinals left) (h : c.Holds j) (hkept : j.Kept capacity) :
    left = (j.table.last (c.capacity / 2)).entries := by
  have hwalk := h.perm hkept.keys_nodup
  -- sorted, the ordinals stand as in the journal, so the cutoff is that of the journal
  have hordinals : ordinals = j.table.ordinals :=
    List.Perm.eq_of_pairwise (fun _ _ _ _ => Nat.le_antisymm) hcompacts.ordinals_sorted hkept.sorted
      (hcompacts.ordinals_perm.trans (hwalk.map _))
  have hleft := hcompacts.left_perm.trans (hwalk.filter _)
  rw [hordinals] at hleft
  refine (eq_of_perm_of_ordinals hleft hcompacts.left_sorted ?_).trans (hkept.filter_cutoff _)
  exact hkept.ascending.sublist (List.filter_sublist.map _)

/-- **One step**: the memo goes on holding what the journal lists. -/
theorem Holds.takes (h : c.Holds j) (hkept : j.Kept c.capacity) (hcapacity : 2 ≤ c.capacity)
    (htakes : c.Takes key score c') :
    c'.Holds (j.put c.capacity key score) ∧ c'.capacity = c.capacity := by
  have hput := h.put key score
  have hmoved := hkept.moved key score
  have hsize := hput.size_eq hmoved.keys_nodup
  have hbound := hmoved.size_lt
  unfold Journal.put
  dsimp only
  cases htakes with
  | room hroom =>
    rw [if_neg (by omega)]
    exact ⟨hput, rfl⟩
  | full hfull hcompacts =>
    -- a journal that had room for one more is exactly full
    rw [if_pos (by omega)]
    have hleft := hcompacts.left_eq hput hmoved
    refine ⟨⟨fun key' => ?_, ?_⟩, hcompacts.capacity_eq⟩
    · rw [hcompacts.getElem?_eq, hleft]
      rfl
    · rw [hcompacts.lastOrdinal_eq, hleft]
      exact Table.size_last _ (by show c.capacity / 2 ≤ (j.moved key score).table.size; omega)

/-- **Every run**: whatever the order of walking, a memo holds the journal of what was put in. -/
theorem Fills.holds {puts : List (PairKey × Float)} (hfills : Fills capacity puts c) :
    c.Holds (.of (max capacity 2) puts) ∧ c.capacity = max capacity 2 := by
  induction hfills with
  | none => exact ⟨holds_empty capacity, rfl⟩
  | @next puts c c' key score hfills htakes ih =>
    -- the capacity never changes, so the next score meets the same bound
    obtain ⟨hholds, hcapacity⟩ := ih
    have hkept := Journal.kept_of (Nat.le_max_right capacity 2) puts
    rw [Journal.of_concat, ← hcapacity]
    rw [← hcapacity] at hkept hholds
    exact hholds.takes hkept (by omega) htakes

/-! ## The memo's own walk -/

/-- A table made of a list finds what the list does. -/
theorem getElem?_ofList {t : Table PairKey CacheEntry} (hkeys : t.keys.Nodup) (key : PairKey) :
    (Std.HashMap.ofList t.entries)[key]? = t.get? key := by
  cases hget : t.get? key with
  | none =>
    refine Std.HashMap.getElem?_ofList_of_contains_eq_false ?_
    simpa [Table.keys] using Table.get?_eq_none_iff.mp hget
  | some e =>
    refine Std.HashMap.getElem?_ofList_of_mem (beq_self_eq_true key) ?_ (Table.mem_entries_of_get? hget)
    exact (List.pairwise_map.mp hkeys).imp fun hne => beq_eq_false_iff_ne.mpr hne

/-- To compact a cache keeps the younger half of the journal. -/
theorem Holds.compactsTo_compact (h : c.Holds j) (hkept : j.Kept capacity) :
    c.CompactsTo c.compact j.table.ordinals (j.table.last (c.capacity / 2)).entries where
  ordinals_perm   := ((h.perm hkept.keys_nodup).map _).symm
  ordinals_sorted := hkept.sorted
  left_perm       := by
    -- the cutoff keeps the later half, in whatever order the map is walked
    have hwalk := (h.perm hkept.keys_nodup).filter
      fun e => cutoff (c.capacity / 2) j.table.ordinals < e.2.ordinal
    exact (hwalk.trans (List.Perm.of_eq (hkept.filter_cutoff _))).symm
  left_sorted     := (List.pairwise_map.mp hkept.sorted).sublist (List.drop_sublist _ _)
  getElem?_eq     := by
    intro key
    -- the keys of the map that is built anew are some of those of the table, so they differ as well
    have hkeys : (j.table.last (c.capacity / 2)).renumbered.keys.Nodup := by
      rw [Table.keys_renumbered]
      exact hkept.keys_nodup.sublist (Table.keys_last_sublist _ _)
    rw [← getElem?_ofList hkeys]
    unfold Cache.compact
    rw [h.inOrder_eq hkept]
    rfl
  lastOrdinal_eq  := by
    unfold Cache.compact
    rw [h.inOrder_eq hkept]
    simp [Table.last, Table.size]
  capacity_eq     := rfl

/-- **To insert a score takes it in** as the list of the latest does. -/
theorem Holds.takes_insert (h : c.Holds j) (hkept : j.Kept c.capacity) (key : PairKey) (score : Float) :
    c.Takes key score (c.insert key score) := by
  have hinsert : c.insert key score =
      if c.capacity ≤ (c.put key score).size then (c.put key score).compact else c.put key score := rfl
  rw [hinsert]
  split
  · -- the memo is full with the new entry, and keeps the later half
    rename_i hfull
    exact .full hfull ((h.put key score).compactsTo_compact (hkept.moved key score))
  · rename_i hroom
    exact .room (Nat.lt_of_not_le hroom)

/-- The memo after scores have been put in, one after the other. -/
def filled (capacity : Nat) (puts : List (PairKey × Float)) : Cache :=
  puts.foldl (fun c p => c.insert p.1 p.2) (empty capacity)

/-- One more score fills the cache with one more. -/
theorem Fills.insert {puts : List (PairKey × Float)} (h : Fills capacity puts c) (key : PairKey)
    (score : Float) : Fills capacity (puts ++ [(key, score)]) (c.insert key score) := by
  obtain ⟨hholds, hcapacity⟩ := h.holds
  have hkept := Journal.kept_of (Nat.le_max_right capacity 2) puts
  exact .next h (hholds.takes_insert (hcapacity ▸ hkept) key score)

/-- The memo's own run is one of those. -/
theorem fills_filled (capacity : Nat) (puts : List (PairKey × Float)) :
    Fills capacity puts (filled capacity puts) := by
  induction puts using List.reverseRecOn with
  | nil => exact .none
  | append_singleton puts p ih =>
    have hfilled : filled capacity (puts ++ [p]) = (filled capacity puts).insert p.1 p.2 :=
      List.foldl_concat _ _ _ _
    rw [hfilled]
    exact ih.insert p.1 p.2

/-! ## The memo and the list -/

/-- The memo finds what the list does and nothing else, and its ordinals increase along the list. -/
structure Lists (c : Cache) (t : Table PairKey Float) : Prop where
  get?_eq  : ∀ key, c.get? key = t.get? key
  size_eq  : c.size = t.size
  nodup    : t.keys.Nodup
  ordinals : ∃ ordinals : List Nat, t.keys.map c.ordinal? = ordinals.map some ∧
    ordinals.Pairwise (· < ·) ∧ ∀ o ∈ ordinals, 0 < o ∧ o ≤ c.lastOrdinal

namespace Holds

/-- A cache answers what its journal says. -/
theorem get?_eq (h : c.Holds j) (key : PairKey) : c.get? key = j.table.scores.get? key := by
  unfold Cache.get? Table.scores
  rw [h.getElem?_eq, Table.get?_mapValues]

/-- It numbers the pairs as its journal does. -/
theorem ordinal?_eq (h : c.Holds j) (key : PairKey) :
    c.ordinal? key = (j.table.get? key).map (·.ordinal) := by
  unfold Cache.ordinal?
  rw [h.getElem?_eq]

/-- So the pairs of the journal are numbered in order. -/
theorem map_ordinal?_keys (h : c.Holds j) (hkeys : j.table.keys.Nodup) :
    j.table.scores.keys.map c.ordinal? = j.table.ordinals.map some := by
  have hentries := Table.map_entries_eq_map_keys hkeys fun _ e => e.ordinal
  unfold Table.scores Table.ordinals
  rw [Table.keys_mapValues, List.map_map]
  refine Eq.trans ?_ hentries.symm
  exact List.map_congr_left fun key _ => h.ordinal?_eq key

/-- And the cache lists the scores of its journal, the oldest first. -/
theorem lists (h : c.Holds j) (hkept : j.Kept capacity) : c.Lists j.table.scores where
  get?_eq  := h.get?_eq
  size_eq  := (h.size_eq hkept.keys_nodup).trans (Table.size_mapValues _ _).symm
  nodup    := by
    unfold Table.scores
    rw [Table.keys_mapValues]
    exact hkept.keys_nodup
  ordinals := by
    refine ⟨j.table.ordinals, h.map_ordinal?_keys hkept.keys_nodup, hkept.ascending, ?_⟩
    rw [h.lastOrdinal_eq]
    exact hkept.bounds

end Holds

namespace Fills

variable {puts : List (PairKey × Float)}

/-- Every memo that scores can lead to holds the reference list. -/
theorem lists (h : Fills capacity puts c) : c.Lists (latest (max capacity 2) puts) := by
  rw [← Journal.scores_of]
  exact h.holds.1.lists (Journal.kept_of (Nat.le_max_right capacity 2) puts)

/-- A filled cache never has more entries than its capacity allows. -/
theorem size_lt (h : Fills capacity puts c) : c.size < max capacity 2 := by
  have hkept := Journal.kept_of (Nat.le_max_right capacity 2) puts
  rw [h.holds.1.size_eq hkept.keys_nodup]
  exact hkept.size_lt

/-- Nor more ordinals than scores that were put in. -/
theorem lastOrdinal_le (h : Fills capacity puts c) : c.lastOrdinal ≤ puts.length := by
  rw [h.holds.1.lastOrdinal_eq]
  exact Journal.lastOrdinal_of_le (Nat.le_max_right capacity 2) puts

/-- After a score that has made the list full, the ordinals are known. -/
theorem ordinals_of_full (h : Fills capacity (puts ++ [(key, score)]) c)
    (hfull : ((latest (max capacity 2) puts).moveToEnd key score).size = max capacity 2) :
    (latest (max capacity 2) (puts ++ [(key, score)])).keys.map c.ordinal? =
        (List.range' 1 (max capacity 2 / 2)).map some ∧
      c.lastOrdinal = max capacity 2 / 2 := by
  have hkept := Journal.kept_of (Nat.le_max_right capacity 2) (puts ++ [(key, score)])
  have hholds := h.holds.1
  rw [← Journal.scores_of] at hfull
  obtain ⟨hordinals, hlast⟩ := Journal.put_full hfull
  rw [← Journal.scores_of, hholds.map_ordinal?_keys hkept.keys_nodup, hholds.lastOrdinal_eq,
    Journal.of_concat, hordinals, hlast]
  exact ⟨rfl, rfl⟩

/-- The order of walking is not to be seen. -/
theorem same (h : Fills capacity puts c) (h' : Fills capacity puts c') :
    c'.lastOrdinal = c.lastOrdinal ∧
      ∀ key, c'.get? key = c.get? key ∧ c'.ordinal? key = c.ordinal? key := by
  obtain ⟨hholds, -⟩ := h.holds
  obtain ⟨hholds', -⟩ := h'.holds
  refine ⟨hholds'.lastOrdinal_eq.trans hholds.lastOrdinal_eq.symm, fun key => ⟨?_, ?_⟩⟩
  · rw [hholds'.get?_eq, hholds.get?_eq]
  · rw [hholds'.ordinal?_eq, hholds.ordinal?_eq]

end Fills

end Cache

/-- **The memo is a bounded list in the order of insertion.** After any scores have been put in, under
any keys, the memo finds what the reference list holds, which is less than the capacity, under ordinals
that increase along it and of which no more were given out than scores were put in. The next score is
found under its key; if it makes the list full, the ordinals are then exactly those from one up to half the
capacity. And in whichever order the hash map is walked through in each compaction, the scores and the
ordinals are the same. -/
theorem memo_keeps_latest (capacity : Nat) (puts : List (PairKey × Float)) :
    let c := Cache.filled capacity puts
    let t := latest (max capacity 2) puts
    c.Lists t ∧ t.size < max capacity 2 ∧ c.lastOrdinal ≤ puts.length ∧
      (∀ key score,
        let c' := c.insert key score
        let t' := putLatest (max capacity 2) t key score
        c'.Lists t' ∧ c'.get? key = some score ∧
          ((t.moveToEnd key score).size = max capacity 2 →
            t'.keys.map c'.ordinal? = (List.range' 1 (max capacity 2 / 2)).map some ∧
              c'.lastOrdinal = max capacity 2 / 2)) ∧
      ∀ c', Cache.Fills capacity puts c' →
        c'.lastOrdinal = c.lastOrdinal ∧
          ∀ key, c'.get? key = c.get? key ∧ c'.ordinal? key = c.ordinal? key := by
  intro c t
  have hfilled : Cache.Fills capacity puts c := Cache.fills_filled capacity puts
  have hlists : c.Lists t := hfilled.lists
  refine ⟨hlists, hlists.size_eq ▸ hfilled.size_lt, hfilled.lastOrdinal_le, ?_, fun c' => hfilled.same⟩
  intro key score c' t'
  -- the next score makes a memo of the same kind
  have hnext : Cache.Fills capacity (puts ++ [(key, score)]) c' := hfilled.insert key score
  have ht' : latest (max capacity 2) (puts ++ [(key, score)]) = t' := latest_concat _ _ _ _
  have hlists' : c'.Lists t' := ht' ▸ hnext.lists
  refine ⟨hlists', ?_, fun hfull => ht' ▸ hnext.ordinals_of_full hfull⟩
  rw [hlists'.get?_eq]
  exact get?_putLatest hlists.nodup (Nat.le_max_right capacity 2) key score

/-- A key that is put in again moves to the end, so that the list becomes full with the fourth key only. -/
example :
    (latest 4 [(⟨"a", "z"⟩, 1), (⟨"b", "z"⟩, 2), (⟨"a", "z"⟩, 3), (⟨"c", "z"⟩, 4)]).keys =
      [⟨"b", "z"⟩, ⟨"a", "z"⟩, ⟨"c", "z"⟩] := by
  decide

end Vivarium
