import Vivarium.Proofs.Scalar.Extent
import Vivarium.Proofs.World.Tick

/-!
# The walls

The walls of an enclosure stand where they were put: whatever happens to its bodies, its sides keep their
lengths. If both sides are spacious, every body can be held back from the walls, and every place between them
can be drawn.

Main results: `Enclosure.step_run`, `World.randomPlace_steady`.
-/

namespace Vivarium

namespace Enclosure

/-- The lengths of the sides. -/
def sides (e : Enclosure) : Float × Float := (e.width, e.height)

/-- Both sides are spacious. -/
def Roomy (e : Enclosure) : Prop := Spacious e.sides.1 ∧ Spacious e.sides.2

instance (e : Enclosure) : Decidable e.Roomy := inferInstanceAs (Decidable (_ ∧ _))

/-! ## Holding bodies back -/

theorem holdBack_run {r extent : Float} (h : r ≤ extent - r) (x v : Float) :
    ∃ held, holdBack r extent x v = .ok held := by
  unfold holdBack checkedClamp
  rw [if_pos h]
  split
  · exact ⟨_, rfl⟩
  · exact ⟨_, rfl⟩

/-- **A body of any radius can be held back** from the walls, wherever it is. -/
theorem contain_run {e : Enclosure} (h : e.Roomy) (b : Body) : ∃ b', e.contain b = .ok b' := by
  have halfNumber {extent : Float} (h : Spacious extent) : Double.IsNumber (extent / 2.0) :=
    (Double.le_iff.mp h.half_le).1
  -- what the body keeps off is at most half of either side, though its radius may be no number
  have hfirst := Double.lesser_le_right b.radius (halfNumber h.1)
  have hle : lesser (lesser b.radius (e.width / 2.0)) (e.height / 2.0) ≤ e.width / 2.0 :=
    Double.le_trans (Double.lesser_le_left (Double.le_iff.mp hfirst).1 _) hfirst
  have hle' : lesser (lesser b.radius (e.width / 2.0)) (e.height / 2.0) ≤ e.height / 2.0 :=
    Double.lesser_le_right _ (halfNumber h.2)
  obtain ⟨r, hr⟩ : ∃ r, r = lesser (lesser b.radius (e.width / 2.0)) (e.height / 2.0) := ⟨_, rfl⟩
  rw [← hr] at hle hle'
  have hwidth : r ≤ e.width - r := h.1.margin_le hle
  have hheight : r ≤ e.height - r := h.2.margin_le hle'
  obtain ⟨x, hx⟩ := holdBack_run hwidth b.position.x b.velocity.x
  obtain ⟨y, hy⟩ := holdBack_run hheight b.position.y b.velocity.y
  unfold contain
  dsimp only
  rw [← hr, hx]
  show ∃ b', (holdBack r e.height _ _ >>= fun y => _) = _
  rw [hy]
  exact ⟨_, rfl⟩

/-- Bodies are all moved if each of them can be. -/
theorem mapM_run {move : Body → Except Fault Body} (hmove : ∀ b, ∃ b', move b = .ok b') :
    ∀ bodies : List (Handle × Body),
      ∃ entries, bodies.mapM (fun (h, b) => do return (h, ← move b)) = Except.ok entries := by
  intro bodies
  induction bodies with
  | nil => exact ⟨[], rfl⟩
  | cons entry bodies ih =>
    obtain ⟨h, b⟩ := entry
    obtain ⟨b', hb⟩ := hmove b
    -- each body is moved on its own, so the list is moved as well
    obtain ⟨entries, hentries⟩ := ih
    refine ⟨(h, b') :: entries, ?_⟩
    rw [List.mapM_cons, hentries]
    dsimp only
    rw [hb]
    rfl

/-- **A step between spacious walls returns**, wherever the bodies are. -/
theorem step_run {e : Enclosure} (h : e.Roomy) (dt : Float) : ∃ e', e.step dt = .ok e' := by
  -- food stays where it is, and where there is room the walls hold everything else
  have hmoved (b : Body) : ∃ b', e.moveBody (dt * dt) b = .ok b' := by
    unfold moveBody
    split
    · exact ⟨b, rfl⟩
    · exact contain_run h _
  obtain ⟨entries, hentries⟩ := mapM_run hmoved e.bodies.entries
  refine ⟨{ e with bodies := ⟨entries⟩ }, ?_⟩
  unfold step
  rw [hentries]
  rfl

theorem step_steady {e : Enclosure} (h : e.Roomy) (dt : Float) : Steady (e.step dt) := by
  obtain ⟨e', hstep⟩ := step_run h dt
  rw [hstep]
  exact .ok

/-! ## The sides keep their lengths -/

variable (e : Enclosure)

@[simp] theorem sides_pushes (h : Handle) (forces : List Vec) :
    (forces.foldl (fun e force => e.push h force) e).sides = e.sides := by
  induction forces generalizing e with
  | nil => rfl
  | cons force forces ih => exact ih (e.push h force)

theorem sides_step {e e' : Enclosure} {dt : Float} (h : e.step dt = .ok e') : e'.sides = e.sides := by
  obtain ⟨entries, -, hpure⟩ := except_bind_inv h
  cases hpure
  rfl

end Enclosure

@[simp] theorem Creature.sides_setMass (c : Creature) (mass : Float) (e : Enclosure) :
    (c.setMass mass e).2.sides = e.sides := by
  unfold setMass
  dsimp only
  split
  · split
    · rfl
    · rfl
  · rfl

namespace World

variable (w : World Enclosure)

/-- A world's sides are those of its enclosure. -/
def sides : Float × Float := w.enclosure.sides

@[simp] theorem sides_setMass (rank : Rank) (mass : Float) : (w.setMass rank mass).sides = w.sides := by
  unfold setMass
  split
  · rfl
  · exact Creature.sides_setMass _ mass w.enclosure

@[simp] theorem sides_fed (rank : Rank) (eater : Creature) : (w.fed rank eater).sides = w.sides :=
  sides_setMass _ rank _

/-- Of both sides of an attack only the change of the mass touches the enclosure. -/
@[simp] theorem sides_exchanged (actor target : Rank) (attacker victim : Creature) (targetId : Ident) :
    (w.exchanged actor target attacker victim targetId).sides = w.sides :=
  (sides_setMass _ target _).trans (sides_setMass _ actor _)

/-! ## Places -/

/-- **A place can be drawn** between spacious sides, whatever margin is asked for. -/
theorem randomPlace_steady {config : WorldConfig} (hwidth : Spacious config.width)
    (hheight : Spacious config.height) {margin : Float} (hmargin : 0.0 ≤ margin)
    (hfinite : margin.isFinite = true) : (randomPlace config margin).Steady := by
  unfold randomPlace
  refine .bind (hwidth.closedReal_steady hmargin hfinite) .any fun _ _ => ?_
  exact .bind (hheight.closedReal_steady hmargin hfinite) .any fun _ _ => .pure

end World

end Vivarium
