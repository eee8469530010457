import Mathlib.Data.List.Nodup
import Vivarium.Table

/-!
# Tables as lists

A table whose keys are distinct is told by its list of entries: what `get?` finds is what is listed,
a value put under a new key comes last, and what is erased leaves the rest in order.
-/

namespace Vivarium

/-- Two labels that are both distinct single out the same item. -/
theorem filter_ne_congr {α β γ : Type} [DecidableEq β] [DecidableEq γ] {xs : List α} {f : α → β}
    {g : α → γ} (hf : (xs.map f).Nodup) (hg : (xs.map g).Nodup) {x : α} (hx : x ∈ xs) :
    xs.filter (fun y => f y ≠ f x) = xs.filter fun y => g y ≠ g x := by
  refine List.filter_congr fun y hy => ?_
  have hiff : f y = f x ↔ g y = g x := by
    constructor
    · intro heq
      rw [List.inj_on_of_nodup_map hf hy hx heq]
    · intro heq
      rw [List.inj_on_of_nodup_map hg hy hx heq]
  simp only [ne_eq, hiff]

namespace Table

variable {κ α β : Type} [DecidableEq κ] {t t' : Table κ α} {k : κ} {a : α}

/-! ## Keys -/

/-- A table contains the keys that it lists. -/
theorem contains_iff_mem_keys : t.contains k = true ↔ k ∈ t.keys := by
  unfold contains keys
  simp only [List.any_eq_true, beq_iff_eq, List.mem_map]

@[simp] theorem keys_modify (f : α → α) : (t.modify k f).keys = t.keys := by
  unfold modify keys
  rw [List.map_map]
  refine List.map_congr_left fun e _ => ?_
  simp only [Function.comp_apply]
  split <;> rfl

/-- To erase a key strikes it from the list of keys. -/
theorem keys_erase : (t.erase k).keys = t.keys.filter (· ≠ k) := by
  unfold erase keys
  rw [List.filter_map]
  rfl

/-- A new key is entered last. -/
theorem entries_insert (h : k ∉ t.keys) (a : α) : (t.insert k a).entries = t.entries ++ [(k, a)] := by
  unfold insert
  rw [if_neg fun hmem => h (contains_iff_mem_keys.mp hmem)]

/-- Its key is listed last. -/
theorem keys_insert (h : k ∉ t.keys) (a : α) : (t.insert k a).keys = t.keys ++ [k] := by
  unfold keys
  rw [entries_insert h, List.map_append]
  rfl

/-- And so is its value. -/
theorem values_insert (h : k ∉ t.keys) (a : α) : (t.insert k a).values = t.values ++ [a] := by
  unfold values
  rw [entries_insert h, List.map_append]
  rfl

/-! ## Entries -/

/-- What is found under a key is entered there. -/
theorem mem_entries_of_get? (h : t.get? k = some a) : (k, a) ∈ t.entries := by
  obtain ⟨es⟩ := t
  induction es with
  | nil => cases h
  | cons e es ih =>
    rw [get?_cons] at h
    split at h
    · -- the entry at the front is the one that was found
      rename_i hk
      cases h
      rw [hk]
      exact List.mem_cons_self
    · exact List.mem_cons_of_mem e (ih h)

theorem mem_keys_of_get? (h : t.get? k = some a) : k ∈ t.keys :=
  List.mem_map_of_mem (mem_entries_of_get? h)

theorem mem_values_of_get? (h : t.get? k = some a) : a ∈ t.values :=
  List.mem_map_of_mem (mem_entries_of_get? h)

/-- Nothing is found under a key that is not listed, and nowhere else. -/
theorem get?_eq_none_iff : t.get? k = none ↔ k ∉ t.keys := by
  rw [← contains_iff_mem_keys, contains_eq_isSome]
  cases t.get? k <;> simp

/-- Something is found under the keys that are listed. -/
theorem mem_keys_iff_isSome : k ∈ t.keys ↔ (t.get? k).isSome = true := by
  rw [← contains_iff_mem_keys, contains_eq_isSome]

/-- With distinct keys, what is found is what is listed. -/
theorem get?_eq_some_iff (hkeys : t.keys.Nodup) : t.get? k = some a ↔ (k, a) ∈ t.entries := by
  refine ⟨mem_entries_of_get?, fun hmem => ?_⟩
  cases hget : t.get? k with
  | none => exact absurd (List.mem_map_of_mem hmem) (get?_eq_none_iff.mp hget)
  | some b =>
    have heq := List.inj_on_of_nodup_map hkeys (mem_entries_of_get? hget) hmem rfl
    cases heq
    rfl

/-- A list read off the entries is read off the keys by looking each of them up. -/
theorem map_entries_eq_map_keys (hkeys : t.keys.Nodup) (g : κ → α → β) :
    t.entries.map (fun e => some (g e.1 e.2)) = t.keys.map fun k => (t.get? k).map (g k) := by
  unfold keys
  rw [List.map_map]
  refine List.map_congr_left fun e he => ?_
  show some (g e.1 e.2) = (t.get? e.1).map (g e.1)
  rw [(get?_eq_some_iff hkeys).mpr he, Option.map_some]

/-- Two tables with the same keys list the same about their entries if they do so key by key. -/
theorem map_entries_congr {g : κ → α → β} (hkeys : t.keys.Nodup) (hsame : t'.keys = t.keys)
    (h : ∀ k a, t.get? k = some a → ∃ a', t'.get? k = some a' ∧ g k a' = g k a) :
    t'.entries.map (fun e => g e.1 e.2) = t.entries.map fun e => g e.1 e.2 := by
  have hkeys' : t'.keys.Nodup := hsame ▸ hkeys
  -- both sides are lists of lookups, so only the keys and what stands under them count
  refine List.map_injective_iff.mpr (fun _ _ heq => Option.some.inj heq) ?_
  rw [List.map_map, List.map_map]
  show t'.entries.map (fun e => some (g e.1 e.2)) = t.entries.map fun e => some (g e.1 e.2)
  rw [map_entries_eq_map_keys hkeys', map_entries_eq_map_keys hkeys, hsame]
  refine List.map_congr_left fun k hk => ?_
  cases hget : t.get? k with
  | none => exact absurd hk (get?_eq_none_iff.mp hget)
  | some a =>
    obtain ⟨a', hget', hg⟩ := h k a hget
    rw [hget', Option.map_some, Option.map_some, hg]

/-- Where the values are told apart by a label, a value can be erased by its label. -/
theorem entries_erase [DecidableEq β] {g : α → β} (hkeys : t.keys.Nodup)
    (hlabels : (t.values.map g).Nodup) (hget : t.get? k = some a) :
    (t.erase k).entries = t.entries.filter fun e => g e.2 ≠ g a := by
  unfold values at hlabels
  rw [List.map_map] at hlabels
  exact filter_ne_congr (f := Prod.fst) hkeys hlabels (mem_entries_of_get? hget)

/-- Where no two values have the same label, to erase an entry strikes its label from the labels, and the others
stay in order. -/
theorem map_values_erase [DecidableEq β] {g : α → β} (hkeys : t.keys.Nodup)
    (hlabels : (t.values.map g).Nodup) (hget : t.get? k = some a) :
    (t.erase k).values.map g = (t.values.map g).filter (· ≠ g a) := by
  unfold values
  rw [entries_erase hkeys hlabels hget, List.filter_map, List.filter_map]
  rfl

/-! ## Indices -/

/-- The first table finds the keys of the second one by a label of the values, and lists them in the
same order. -/
def IndexOf (index : Table β κ) (t : Table κ α) (g : α → β) : Prop :=
  index.entries = t.entries.map fun e => (g e.2, e.1)

namespace IndexOf

variable [DecidableEq β] {index : Table β κ} {g : α → β}

omit [DecidableEq κ] [DecidableEq β] in
/-- An index lists the labels of the values, in the order of the table. -/
theorem keys_eq (h : index.IndexOf t g) : index.keys = t.values.map g := by
  unfold keys values
  rw [show index.entries = _ from h, List.map_map, List.map_map]
  rfl

/-- A new entry and its label are put in together. -/
theorem insert (h : index.IndexOf t g) (hkey : k ∉ t.keys) (hlabel : g a ∉ t.values.map g) :
    (index.insert (g a) k).IndexOf (t.insert k a) g := by
  unfold IndexOf
  rw [entries_insert (h.keys_eq ▸ hlabel), entries_insert hkey, List.map_append,
    show index.entries = _ from h]
  rfl

/-- An entry and its label are taken out together. -/
theorem erase (h : index.IndexOf t g) (hkeys : t.keys.Nodup) (hlabels : (t.values.map g).Nodup)
    (hget : t.get? k = some a) : (index.erase (g a)).IndexOf (t.erase k) g := by
  unfold IndexOf
  rw [entries_erase hkeys hlabels hget]
  show index.entries.filter _ = _
  rw [show index.entries = _ from h, List.filter_map]
  rfl

/-- What the index finds are the keys of the values with the label. -/
theorem get?_eq_some_iff (h : index.IndexOf t g) (hkeys : t.keys.Nodup)
    (hlabels : (t.values.map g).Nodup) {b : β} :
    index.get? b = some k ↔ ∃ a, t.get? k = some a ∧ g a = b := by
  rw [Table.get?_eq_some_iff (h.keys_eq ▸ hlabels), show index.entries = _ from h, List.mem_map]
  constructor
  · rintro ⟨⟨k', a⟩, hmem, heq⟩
    cases heq
    exact ⟨a, (Table.get?_eq_some_iff hkeys).mpr hmem, rfl⟩
  · rintro ⟨a, hget, rfl⟩
    exact ⟨(k, a), (Table.get?_eq_some_iff hkeys).mp hget, rfl⟩

end IndexOf

end Table

end Vivarium
