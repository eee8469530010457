/-!
# Tables

A table is a finite map kept as a list of pairs in the order in which the keys were first put in. Putting
a value under a key that is there replaces the value in its place. What each operation does is said by
what `get?` finds afterwards.
-/

namespace Vivarium

/-- A finite map in order of insertion. -/
structure Table (κ : Type) (α : Type) where
  entries : List (κ × α)
deriving DecidableEq

namespace Table

variable {κ α : Type} [DecidableEq κ]

/-- The table without entries. -/
def empty : Table κ α := ⟨[]⟩

instance : Inhabited (Table κ α) := ⟨empty⟩

def size (t : Table κ α) : Nat := t.entries.length

def keys (t : Table κ α) : List κ := t.entries.map (·.1)

def values (t : Table κ α) : List α := t.entries.map (·.2)

def get? (t : Table κ α) (k : κ) : Option α := t.entries.lookup k

def contains (t : Table κ α) (k : κ) : Bool := t.entries.any fun e => e.1 == k

/-- Replaces the value under `k`, if there is one. -/
def modify (t : Table κ α) (k : κ) (f : α → α) : Table κ α :=
  ⟨t.entries.map fun e => if e.1 = k then (e.1, f e.2) else e⟩

/-- Puts `a` under `k`: in the place of the value there, or else at the end. -/
def insert (t : Table κ α) (k : κ) (a : α) : Table κ α :=
  if t.contains k then t.modify k fun _ => a else ⟨t.entries ++ [(k, a)]⟩

/-- Removes the entry under `k`, if there is one. -/
def erase (t : Table κ α) (k : κ) : Table κ α := ⟨t.entries.filter fun e => e.1 ≠ k⟩

/-! ## What is found under a key -/

@[simp] theorem get?_empty (k : κ) : (empty : Table κ α).get? k = none := rfl

theorem get?_cons (k : κ) (e : κ × α) (es : List (κ × α)) :
    (⟨e :: es⟩ : Table κ α).get? k = if k = e.1 then some e.2 else get? ⟨es⟩ k := by
  unfold get?
  rw [List.lookup_cons]
  by_cases h : k = e.1
  · simp [h]
  · simp [beq_eq_false_iff_ne.mpr h, h]

/-- A table contains a key if something is found under it. -/
theorem contains_eq_isSome (t : Table κ α) (k : κ) : t.contains k = (t.get? k).isSome := by
  obtain ⟨es⟩ := t
  induction es with
  | nil => rfl
  | cons e es ih =>
    rw [get?_cons]
    by_cases h : k = e.1
    · simp [contains, h]
    · rw [if_neg h, ← ih]
      simp [contains, Ne.symm h]

/-- To modify one entry leaves the others as they are. -/
theorem get?_modify (t : Table κ α) (k l : κ) (f : α → α) :
    (t.modify k f).get? l = if l = k then (t.get? l).map f else t.get? l := by
  obtain ⟨es⟩ := t
  induction es with
  | nil => split <;> rfl
  | cons e es ih =>
    have hcons : (modify ⟨e :: es⟩ k f).get? l =
        if l = e.1 then some (if e.1 = k then f e.2 else e.2) else (modify ⟨es⟩ k f).get? l := by
      by_cases h : e.1 = k <;> simp [modify, h, get?_cons]
    rw [hcons, ih, get?_cons]
    grind

/-- To erase one entry leaves the others as they are. -/
theorem get?_erase (t : Table κ α) (k l : κ) :
    (t.erase k).get? l = if l = k then none else t.get? l := by
  obtain ⟨es⟩ := t
  induction es with
  | nil => split <;> rfl
  | cons e es ih =>
    -- one entry at a time: it goes if it stands under `k`, and otherwise hides what comes after it
    have hcons : (erase ⟨e :: es⟩ k).get? l =
        if e.1 = k then (erase ⟨es⟩ k).get? l
        else if l = e.1 then some e.2 else (erase ⟨es⟩ k).get? l := by
      by_cases h : e.1 = k
      · simp [erase, h]
      · simp [erase, h, get?_cons]
    rw [hcons, ih, get?_cons]
    grind

/-- The first of two lists of entries is looked through first. -/
theorem get?_append (es fs : List (κ × α)) (k : κ) :
    get? ⟨es ++ fs⟩ k = (get? ⟨es⟩ k).or (get? ⟨fs⟩ k) := List.lookup_append

/-- What was put in last is found under its key, and the others are found as before. -/
theorem get?_insert (t : Table κ α) (k l : κ) (a : α) :
    (t.insert k a).get? l = if l = k then some a else t.get? l := by
  unfold insert
  rw [contains_eq_isSome]
  cases h : t.get? k with
  | some b =>
    -- the key is there, and what stands under it is replaced in place
    rw [Option.isSome_some, if_pos rfl, get?_modify]
    split
    · simp [*]
    · rfl
  | none   =>
    -- the key is new, and its entry is found where nothing was found before
    rw [Option.isSome_none, if_neg Bool.false_ne_true, get?_append, get?_cons]
    split
    · simp [*]
    · exact Option.or_none

end Table

end Vivarium
