import Mathlib.Data.String.Basic
import Vivarium.Tally

/-!
# What a tally counts

The named counters are kept in ascending order of their names, so there is one counter for each name, and
raising it adds one to what it says and leaves all others alone. Over a sequence of events, the births and the
deaths are counted, and each counter goes up by the number of the events that have its name.

Main result: `Tally.counter_recordEvents`.
-/

namespace Vivarium

/-! ## Kinds of events -/

/-- What an event tells of. -/
inductive Event.Kind where
  | birth
  | death
  | mutation
  | attack
  | foodEaten
  | extinction
deriving DecidableEq

namespace Event

def kind : Event → Kind
  | birth ..      => .birth
  | death ..      => .death
  | mutation ..   => .mutation
  | attack ..     => .attack
  | foodEaten ..  => .foodEaten
  | extinction .. => .extinction

/-- The name of the counter that an event raises. Births and deaths raise none. -/
def label? : Event → Option String
  | birth ..              => none
  | death ..              => none
  | mutation _ operator _ => some operator
  | attack ..             => some "attack"
  | foodEaten ..          => some "food_eaten"
  | extinction _          => some "extinction"

end Event

/-- How many of the events are of a kind. -/
def told (k : Event.Kind) (es : List Event) : Nat := es.countP fun e => e.kind = k

@[simp] theorem told_append (k : Event.Kind) (es fs : List Event) : told k (es ++ fs) = told k es + told k fs :=
  List.countP_append

@[simp] theorem told_cons (k : Event.Kind) (e : Event) (es : List Event) :
    told k (e :: es) = told k es + if e.kind = k then 1 else 0 := by
  simp [told, List.countP_cons]

@[simp] theorem told_nil (k : Event.Kind) : told k [] = 0 := rfl

/-- How many of the events raise the counter of a name. -/
def labelled (name : String) (es : List Event) : Nat := es.countP fun e => e.label? = some name

@[simp] theorem labelled_append (name : String) (es fs : List Event) :
    labelled name (es ++ fs) = labelled name es + labelled name fs := List.countP_append

@[simp] theorem labelled_cons (name : String) (e : Event) (es : List Event) :
    labelled name (e :: es) = labelled name es + if e.label? = some name then 1 else 0 := by
  simp [labelled, List.countP_cons]

namespace Tally

/-! ## Named counters -/

/-- The names of counters ascend. -/
def Ascending (cs : List (String × Nat)) : Prop := cs.Pairwise (·.1 < ·.1)

variable {name other : String} {cs : List (String × Nat)}

/-- Raising a counter brings in no other name. -/
theorem mem_raise {p : String × Nat} (h : p ∈ raise name cs) : p.1 = name ∨ ∃ q ∈ cs, p.1 = q.1 := by
  -- as `raise` goes: the name comes before the first counter, is the first, or is looked for further on
  induction cs with
  | nil =>
    rw [raise, List.mem_singleton] at h
    exact .inl (by rw [h])
  | cons c cs ih =>
    obtain ⟨first, n⟩ := c
    unfold raise at h
    split at h
    · rcases List.mem_cons.mp h with rfl | hmem
      · exact .inl rfl
      · exact .inr ⟨p, hmem, rfl⟩
    · split at h
      · rcases List.mem_cons.mp h with rfl | hmem
        · exact .inr ⟨_, List.mem_cons_self, rfl⟩
        · exact .inr ⟨p, List.mem_cons_of_mem _ hmem, rfl⟩
      · rcases List.mem_cons.mp h with rfl | hmem
        · exact .inr ⟨_, List.mem_cons_self, rfl⟩
        · refine (ih hmem).imp_right ?_
          rintro ⟨q, hq, heq⟩
          exact ⟨q, List.mem_cons_of_mem _ hq, heq⟩

/-- A raised counter stands at its place in the order. -/
theorem Ascending.raise (h : Ascending cs) : Ascending (raise name cs) := by
  induction cs with
  | nil => exact List.pairwise_singleton _ _
  | cons c cs ih =>
    obtain ⟨first, n⟩ := c
    obtain ⟨hfirst, hrest⟩ := List.pairwise_cons.mp h
    unfold Tally.raise
    split
    · rename_i hlt
      refine List.pairwise_cons.mpr ⟨fun p hp => ?_, h⟩
      rcases List.mem_cons.mp hp with rfl | hmem
      · exact hlt
      · exact hlt.trans (hfirst p hmem)
    · split
      · exact List.pairwise_cons.mpr ⟨hfirst, hrest⟩
      · -- the first counter stays the first, whether the name is one of the others or a new one
        rename_i hnot hne
        refine List.pairwise_cons.mpr ⟨fun p hp => ?_, ih hrest⟩
        rcases mem_raise hp with hname | ⟨q, hq, heq⟩
        · show first < p.1
          rw [hname]
          exact lt_of_le_of_ne (not_lt.mp hnot) (Ne.symm hne)
        · show first < p.1
          rw [heq]
          exact hfirst q hq

/-- What a list of counters says of a name, zero where there is none. -/
def valueOf (cs : List (String × Nat)) (name : String) : Nat := (cs.lookup name).getD 0

/-- The first counter of a name is the one that counts. -/
theorem valueOf_cons (first : String) (n : Nat) (cs : List (String × Nat)) (name : String) :
    valueOf ((first, n) :: cs) name = if name = first then n else valueOf cs name := by
  unfold valueOf
  rw [List.lookup_cons]
  by_cases heq : name = first
  · simp [heq]
  · rw [if_neg heq, beq_eq_false_iff_ne.mpr heq]

/-- A name that comes before all others has no counter yet. -/
theorem valueOf_of_lt (h : ∀ p ∈ cs, name < p.1) : valueOf cs name = 0 := by
  induction cs with
  | nil => rfl
  | cons c cs ih =>
    obtain ⟨first, n⟩ := c
    have hlt : name < first := h _ List.mem_cons_self
    rw [valueOf_cons, if_neg hlt.ne]
    exact ih fun p hp => h p (List.mem_cons_of_mem _ hp)

/-- **Raising a counter adds one to it** and leaves the others alone. -/
theorem valueOf_raise (h : Ascending cs) (name other : String) :
    valueOf (raise name cs) other = valueOf cs other + if name = other then 1 else 0 := by
  induction cs with
  | nil =>
    show valueOf [(name, 1)] other = _
    rw [valueOf_cons]
    by_cases heq : other = name
    · simp [heq, valueOf]
    · simp [heq, Ne.symm heq, valueOf]
  | cons c cs ih =>
    obtain ⟨first, n⟩ := c
    obtain ⟨hfirst, hrest⟩ := List.pairwise_cons.mp h
    unfold raise
    split
    · -- the name is a new one, since it comes before all there are
      rename_i hlt
      have hnone : valueOf ((first, n) :: cs) name = 0 := valueOf_of_lt fun p hp => by
        rcases List.mem_cons.mp hp with rfl | hmem
        · exact hlt
        · exact hlt.trans (hfirst p hmem)
      rw [valueOf_cons name]
      by_cases heq : other = name
      · subst heq
        rw [if_pos rfl, hnone, if_pos rfl]
      · rw [if_neg heq, if_neg (Ne.symm heq), Nat.add_zero]
    · split
      · rename_i heq
        subst heq
        rw [valueOf_cons, valueOf_cons]
        by_cases hother : other = name
        · simp [hother]
        · simp [hother, Ne.symm hother]
      · -- the first counter is not the one that is raised
        rename_i hne
        rw [valueOf_cons, valueOf_cons, ih hrest]
        by_cases hother : other = first
        · simp [hother, hne]
        · simp [hother]

/-! ## Events -/

variable {t : Tally}

theorem recordEvents_cons (t : Tally) (e : Event) (es : List Event) :
    t.recordEvents (e :: es) = (t.recordEvent e).recordEvents es := rfl

/-- An event raises the counter of its name, if it has one. -/
theorem counters_recordEvent (t : Tally) (e : Event) :
    (t.recordEvent e).counters = match e.label? with
      | some name => raise name t.counters
      | none      => t.counters := by
  cases e <;> rfl

/-- To record an event keeps the counters in the order of their names. -/
theorem ascending_recordEvent (h : Ascending t.counters) (e : Event) :
    Ascending (t.recordEvent e).counters := by
  rw [counters_recordEvent]
  split
  · exact h.raise
  · exact h

theorem ascending_recordEvents (h : Ascending t.counters) (es : List Event) :
    Ascending (t.recordEvents es).counters := by
  induction es generalizing t with
  | nil => exact h
  | cons e es ih => exact ih (ascending_recordEvent h e)

/-- A number that goes up by one with each event of a kind goes up by the number of these events. -/
theorem recordEvents_of_kind {read : Tally → Nat} {k : Event.Kind}
    (hone : ∀ t e, read (recordEvent t e) = read t + if e.kind = k then 1 else 0) (t : Tally)
    (es : List Event) : read (t.recordEvents es) = read t + told k es := by
  induction es generalizing t with
  | nil => rfl
  | cons e es ih =>
    rw [recordEvents_cons, ih, hone, told_cons]
    omega

/-- Births are counted as they are told. -/
theorem births_recordEvents (t : Tally) (es : List Event) :
    (t.recordEvents es).births = t.births + told .birth es :=
  recordEvents_of_kind (fun _ e => by cases e <;> rfl) t es

/-- And so are deaths. -/
theorem deaths_recordEvents (t : Tally) (es : List Event) :
    (t.recordEvents es).deaths = t.deaths + told .death es :=
  recordEvents_of_kind (fun _ e => by cases e <;> rfl) t es

theorem ticks_recordEvents (t : Tally) (es : List Event) : (t.recordEvents es).ticks = t.ticks := by
  induction es generalizing t with
  | nil => rfl
  | cons e es ih =>
    rw [recordEvents_cons, ih]
    cases e <;> rfl

/-- **Each counter counts the events that have its name.** -/
theorem counter_recordEvents (h : Ascending t.counters) (es : List Event) (name : String) :
    (t.recordEvents es).counter name = t.counter name + labelled name es := by
  induction es generalizing t with
  | nil => rfl
  | cons e es ih =>
    -- one event raises one counter at most, which is the one of its label
    have hone : (t.recordEvent e).counter name = t.counter name + if e.label? = some name then 1 else 0 := by
      show valueOf (t.recordEvent e).counters name = valueOf t.counters name + _
      rw [counters_recordEvent]
      cases hlabel : e.label? with
      | none => simp
      | some raised =>
        rw [valueOf_raise h]
        simp
    rw [recordEvents_cons, ih (ascending_recordEvent h e), hone, labelled_cons]
    omega

end Tally

end Vivarium
