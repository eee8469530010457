import Vivarium.Creature.Economy
import Vivarium.Enclosure
import Vivarium.Proofs.Computation
import Vivarium.Proofs.Table

/-!
# What is relied on of an engine

Most of what the simulation does is right whatever its engine does with the bodies. The rest needs an
engine that keeps its books: a handle that is given out was not given out before, a body is there from when
it is put in until it is taken out, whether or not it is pushed, scaled and moved in between, and what
overlaps a body is looked for among the given bodies one by one. Where a body is, how it moves and when two
of them overlap is left to the engine.

The enclosure is such an engine.
-/

namespace Vivarium

/-- The books of an engine: the bodies that are there, and all handles that have ever been given out. -/
structure Inventory where
  bodies : List Handle
  spent  : Handle → Prop

namespace Inventory

/-- A body is put in under a handle. -/
def add (i : Inventory) (h : Handle) : Inventory := ⟨i.bodies ++ [h], fun other => other = h ∨ i.spent other⟩

/-- The body under a handle is taken out. -/
def remove (i : Inventory) (h : Handle) : Inventory := { i with bodies := i.bodies.filter (· ≠ h) }

end Inventory

/-- An engine that keeps its books. -/
class LawfulPhysics (E : Type) [Physics E] where
  /-- The books, which nothing but the proofs look at. -/
  inventory : E → Inventory
  /-- Whether a body overlaps another one. -/
  overlaps : E → Handle → Handle → Bool
  isSome_position? : ∀ (e : E) (h : Handle), (Physics.position? e h).isSome = true ↔ h ∈ (inventory e).bodies
  not_spent : ∀ (e : E) (radius : Float) (position : Vec) (layer : Layer),
    ¬ (inventory e).spent (Physics.addBody e radius position layer).1
  inventory_addBody : ∀ (e : E) (radius : Float) (position : Vec) (layer : Layer),
    (Physics.addBody e radius position layer).1 ∉ (inventory e).bodies →
    inventory (Physics.addBody e radius position layer).2 =
      (inventory e).add (Physics.addBody e radius position layer).1
  inventory_removeBody : ∀ (e : E) (h : Handle),
    inventory (Physics.removeBody e h) = (inventory e).remove h
  inventory_push : ∀ (e : E) (h : Handle) (force : Vec), inventory (Physics.push e h force) = inventory e
  inventory_rescale : ∀ (e : E) (h : Handle) (factor : Float) (anchor : Vec),
    inventory (Physics.rescale e h factor anchor) = inventory e
  inventory_step : ∀ (e e' : E) (dt : Float), Physics.step e dt = .ok e' → inventory e' = inventory e
  overlapping_eq : ∀ (e : E) (h : Handle) (handles : List Handle),
    Physics.overlapping e h handles = (handles.filter (· ≠ h)).filter (overlaps e h)

namespace Physics

variable {E : Type} [Physics E] [LawfulPhysics E]

/-- The bodies that are there. -/
def handles (e : E) : List Handle := (LawfulPhysics.inventory e).bodies

/-- The handle has been given out. -/
def Spent (e : E) (h : Handle) : Prop := (LawfulPhysics.inventory e).spent h

/-- The same bodies are there under the same handles, wherever they are, and no handle has been given out
since. -/
def SameBodies (e e' : E) : Prop := LawfulPhysics.inventory e' = LawfulPhysics.inventory e

variable {e e' e'' : E}

namespace SameBodies

theorem refl (e : E) : SameBodies e e := rfl

theorem trans (h : SameBodies e e') (h' : SameBodies e' e'') : SameBodies e e'' := Eq.trans h' h

/-- Where the same bodies are there, the same handles are listed. -/
theorem handles_eq (h : SameBodies e e') : handles e' = handles e := congrArg Inventory.bodies h

theorem spent_iff (h : SameBodies e e') (body : Handle) : Spent e' body ↔ Spent e body :=
  iff_of_eq (congrFun (congrArg Inventory.spent h) body)

end SameBodies

/-- A step moves bodies and keeps all of them. -/
theorem step_sameBodies {dt : Float} (h : step e dt = .ok e') : SameBodies e e' :=
  LawfulPhysics.inventory_step e e' dt h

/-- Pushes leave everybody there. -/
theorem pushes_sameBodies (h : Handle) :
    ∀ (forces : List Vec) (e : E), SameBodies e (forces.foldl (fun e force => push e h force) e)
  | [], e => .refl e
  | force :: forces, e =>
    .trans (LawfulPhysics.inventory_push e h force) (pushes_sameBodies h forces (push e h force))

/-- To set a creature's mass scales its body at most. -/
theorem setMass_sameBodies (c : Creature) (mass : Float) (e : E) : SameBodies e (c.setMass mass e).2 := by
  unfold Creature.setMass
  dsimp only
  split
  · split
    · exact LawfulPhysics.inventory_rescale _ _ _ _
    · exact .refl e
  · exact .refl e

/-- A body has a position as long as it is there. -/
theorem isSome_position?_iff {h : Handle} : (position? e h).isSome = true ↔ h ∈ handles e :=
  LawfulPhysics.isSome_position? e h

/-! ## Bodies that come and go -/

section Body

variable (e) (radius : Float) (position : Vec) (layer : Layer)

/-- A handle that is given out was not given out before. -/
theorem not_spent_addBody : ¬ Spent e (addBody e radius position layer).1 :=
  LawfulPhysics.not_spent e radius position layer

variable {e radius position layer}

/-- A new body comes last. -/
theorem handles_addBody (h : (addBody e radius position layer).1 ∉ handles e) :
    handles (addBody e radius position layer).2 = handles e ++ [(addBody e radius position layer).1] :=
  congrArg Inventory.bodies (LawfulPhysics.inventory_addBody e radius position layer h)

/-- To put in a body gives out its handle and no other. -/
theorem spent_addBody (h : (addBody e radius position layer).1 ∉ handles e) {body : Handle} :
    Spent (addBody e radius position layer).2 body ↔
      body = (addBody e radius position layer).1 ∨ Spent e body :=
  iff_of_eq (congrFun (congrArg Inventory.spent (LawfulPhysics.inventory_addBody e radius position layer h)) body)

variable (e)

/-- To take out a body strikes its handle from the list. -/
theorem handles_removeBody (body : Handle) : handles (removeBody e body) = (handles e).filter (· ≠ body) :=
  congrArg Inventory.bodies (LawfulPhysics.inventory_removeBody e body)

/-- What was given out stays so when the body is taken out. -/
theorem spent_removeBody (body other : Handle) : Spent (removeBody e body) other ↔ Spent e other :=
  iff_of_eq (congrFun (congrArg Inventory.spent (LawfulPhysics.inventory_removeBody e body)) other)

end Body

end Physics

/-! ## The enclosure -/

namespace Enclosure

variable {e : Enclosure}

/-- Whether two bodies that are in the enclosure overlap. -/
def overlaps (e : Enclosure) (h other : Handle) : Bool :=
  match e.bodies.get? h with
  | none   => false
  | some a =>
    match e.bodies.get? other with
    | some b => a.position.distance b.position < a.radius + b.radius
    | none   => false

/-- The enclosure looks for overlaps among the given bodies one by one, and leaves out the body itself. -/
theorem overlapping_eq (e : Enclosure) (h : Handle) (handles : List Handle) :
    e.overlapping h handles = (handles.filter (· ≠ h)).filter (e.overlaps h) := by
  unfold overlapping overlaps
  cases e.bodies.get? h with
  | none => simp
  | some body => rfl

/-- A step moves bodies and nothing else. -/
theorem step_inv {e' : Enclosure} {dt : Float} (h : e.step dt = .ok e') :
    e'.bodies.keys = e.bodies.keys ∧ e'.nextNumber = e.nextNumber := by
  obtain ⟨entries, hmoved, hpure⟩ := except_bind_inv h
  cases hpure
  refine ⟨?_, rfl⟩
  show entries.map (·.1) = e.bodies.entries.map (·.1)
  -- the bodies are moved in order, each under its own handle
  clear h
  generalize e.bodies.entries = bodies at hmoved
  induction bodies generalizing entries with
  | nil =>
    cases hmoved
    rfl
  | cons b bodies ih =>
    rw [List.mapM_cons] at hmoved
    obtain ⟨b', hb, hmoved⟩ := except_bind_inv hmoved
    obtain ⟨entries', hrest, hpure⟩ := except_bind_inv hmoved
    obtain ⟨body, -, hbody⟩ := except_bind_inv hb
    cases hpure
    cases hbody
    rw [List.map_cons, List.map_cons, ih entries' hrest]

/-- The bodies in the enclosure, and the handles up to the next one. -/
def inventory (e : Enclosure) : Inventory := ⟨e.bodies.keys, fun h => h.number < e.nextNumber⟩

/-- The books depend on the handles that are in use and on the next one, and on nothing else. -/
theorem inventory_eq {e' : Enclosure} (hkeys : e'.bodies.keys = e.bodies.keys)
    (hnext : e'.nextNumber = e.nextNumber) : e'.inventory = e.inventory := by
  unfold inventory
  rw [hkeys, hnext]

/-- **The enclosure keeps its books.** -/
instance : LawfulPhysics Enclosure where
  inventory := inventory
  overlaps  := overlaps
  isSome_position? e h := by
    show ((e.bodies.get? h).map _).isSome = true ↔ h ∈ e.bodies.keys
    rw [Option.isSome_map, ← Table.contains_eq_isSome, Table.contains_iff_mem_keys]
  not_spent e _ _ _ := Nat.lt_irrefl e.nextNumber
  inventory_addBody e radius position layer hfresh := by
    refine congrArg₂ Inventory.mk (Table.keys_insert hfresh _) (funext fun h => propext ?_)
    show h.number < e.nextNumber + 1 ↔ h = ⟨e.nextNumber⟩ ∨ h.number < e.nextNumber
    rw [Nat.lt_succ_iff_lt_or_eq, or_comm]
    exact or_congr_left ⟨fun heq => by cases h; cases heq; rfl, fun heq => heq ▸ rfl⟩
  inventory_removeBody e h := congrArg (Inventory.mk · _) Table.keys_erase
  inventory_push e h force := inventory_eq (Table.keys_modify _) rfl
  inventory_rescale e h factor anchor := inventory_eq (Table.keys_modify _) rfl
  inventory_step e e' dt h := inventory_eq (step_inv h).1 (step_inv h).2
  overlapping_eq := overlapping_eq

end Enclosure

end Vivarium
