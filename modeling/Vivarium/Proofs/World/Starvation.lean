import Vivarium.Proofs.World.Bystanders
import Vivarium.Proofs.World.Moments

/-!
# Only the starved die, and all of them

A creature is taken out of the world at two places: at the end of its own turn, and when it has been the
target of an attack; each time its hunger is looked at right before. Between these places nobody else loses
hunger, so when the turns are over, nobody starved is left: those who had a turn were looked at in the end
of it, and the others have not been attacked since without being looked at. It does not matter what state
the world was in when the tick began.

Main result: `only_the_starved_die`.
-/

namespace Vivarium

/-- A creature that has not starved starves of a change of hunger only, and newborns have not starved. -/
theorem Creature.fed_passive : Creature.Passive fun c => c.isStarved = false where
  newborn  := fun {_ _ _ _ _ c} h => by
    have hfull : decide ((1.0 : Float) ≤ 0.0) = false := by decide +kernel
    unfold Creature.isStarved
    rw [h.hunger_eq]
    exact hfull
  withMass := fun h _ => h
  survived := fun _ _ h => h

/-! ## Nobody starved is left -/

variable {E : Type}

namespace Stage

variable [Physics E] [LawfulPhysics E] {ranks : List Rank} {s s' : Stage E} {rank : Rank}

omit [LawfulPhysics E] in
/-- Whoever is there after its own turn has not starved. -/
theorem turn_feeds {c : Creature} (hturn : s.turn rank = .ok s')
    (hc : s'.world.creatures.get? rank = some c) : c.isStarved = false := by
  by_cases hthere : rank ∈ s.world.creatures.keys
  · obtain ⟨requests, ran, done, -, -, rfl⟩ := turn_inv hthere hturn
    rw [metabolize_eq, get?_reap_self, Option.filter_eq_some_iff] at hc
    simpa using hc.2
  · rw [turn_of_gone hthere hturn] at hc
    exact absurd (Table.mem_keys_of_get? hc) hthere

/-- **After the turns nobody starved is left.** -/
theorem turns_feed (hturns : s.turns ranks = .ok s')
    (h : s.world.Others (fun c => c.isStarved = false) ranks) :
    s'.world.Others (fun c => c.isStarved = false) [] := by
  unfold turns at hturns
  induction ranks generalizing s with
  | nil =>
    cases hturns
    exact h
  | cons rank ranks ih =>
    rw [List.foldlM_cons] at hturns
    obtain ⟨s₁, hturn, hturns⟩ := except_bind_inv hturns
    refine ih hturns fun other c hother hc => ?_
    -- the creature whose turn it was has just been looked at, the others were left alone
    by_cases hrank : other = rank
    · exact turn_feeds hturn (hrank ▸ hc)
    · have hothers := (turn_others Creature.fed_passive List.mem_cons_self s h).of_ok hturn
      exact hothers other c (List.not_mem_cons_of_ne_of_not_mem hrank hother) hc

end Stage

/-! ## Nobody else goes -/

namespace World

variable {w w' : World E}

/-- Whoever is there in `w` and not in `w'` had starved in `w`. -/
def Loses (w w' : World E) : Prop :=
  ∀ rank c, w.creatures.get? rank = some c → w'.creatures.get? rank = none → c.isStarved = true

theorem Loses.of_creatures_eq (h : w'.creatures = w.creatures) : w.Loses w' := by
  intro rank c hc hgone
  rw [h, hc] at hgone
  cases hgone

variable [Physics E] [LawfulPhysics E]

theorem Quiet.loses (h : w.Quiet w') : w.Loses w' := by
  intro rank c hc hgone
  obtain ⟨d, hd, -⟩ := h.lives rank c hc
  rw [hd] at hgone
  cases hgone

/-- A change takes out nobody but a creature that has starved. -/
theorem Change.loses {es : List Event} (h : w.Change es w') : w.Loses w' := by
  -- only a death takes somebody out, and a birth puts nobody in another's place
  cases h with
  | quiet hquiet => exact hquiet.loses
  | struck _ _ hquiet => exact hquiet.loses
  | pellet hspawn =>
    obtain ⟨source, -, -, rfl⟩ := spawnPellet_inv hspawn
    exact .of_creatures_eq rfl
  | eaten _ hremoved hquiet =>
    obtain ⟨-, rfl⟩ := removePellet_inv hremoved
    exact hquiet.loses
  | @died rank d _ hstarved hremoved =>
    obtain ⟨hd, rfl⟩ := removeCreature_inv hremoved
    intro other c hc hgone
    change (w.creatures.erase rank).get? other = none at hgone
    rw [Table.get?_erase] at hgone
    split at hgone
    · rename_i heq
      rw [heq, hd, Option.some.injEq] at hc
      exact hc ▸ hstarved
    · rw [hc] at hgone
      cases hgone
  | @born seed newborn _ w₁ _ hquiet =>
    intro other c hc hgone
    change (w₁.creatures.insert _ newborn).get? other = none at hgone
    rw [Table.get?_insert] at hgone
    split at hgone
    · cases hgone
    · exact hquiet.loses other c hc hgone

end World

variable [Physics E] [LawfulPhysics E]

theorem Stage.Moves.loses {s s' : Stage E} (h : s.Moves s') : s.world.Loses s'.world := by
  cases h with
  | refl => exact .of_creatures_eq rfl
  | single hstep =>
    rcases hstep.change with rfl | ⟨es, hchange, -⟩
    · exact .of_creatures_eq rfl
    · exact hchange.loses

/-- **Only the starved die, and all of them.** Whatever state a world is in, so also after its creatures
were changed from outside: from each moment of a tick to the next nobody is taken out of the world but who
had starved by the earlier one, and if the tick returns, the last of these moments is the world after it,
and nobody who is alive then has starved. -/
theorem only_the_starved_die (w : World E) (t : TickCall) :
    List.IsChain World.Loses (w :: w.moments t) ∧
    ∀ events w', w.tickBy t = .ok (events, w') →
      (w.moments t).getLast? = some w' ∧
      ∀ rank c, w'.creatures.get? rank = some c → c.isStarved = false := by
  refine ⟨?_, fun events w' htick => ⟨World.last_moment htick, ?_⟩⟩
  · have hpasses : Outcome.Passes World.Loses (·.2) w (w.moments t) (w.tickBy t) := by
      refine World.moments_pass (fun {v v' e} hfresh => ?_) Stage.Moves.loses fun start hstart => ?_
      · obtain ⟨seed, c, w₁, harrives, hquiet, rfl⟩ := v.spawnFresh_born.of_ok hfresh
        exact (World.Change.born harrives hquiet).loses
      · obtain ⟨w₁, rfl, -, hcreatures⟩ := (w.openingBy_ensures t).of_ok hstart
        exact .of_creatures_eq hcreatures
    exact hpasses.chain
  · obtain ⟨opened, stage, newborn, rest, -, hcreatures, hturns, -, hrefill, -⟩ := World.tickBy_inv htick
    -- all that were alive have a turn, so at first there is nobody else
    have hstart : opened.Others (fun c => c.isStarved = false) w.creatures.keys :=
      (World.Others.keys w).congr fun _ _ => by rw [hcreatures]
    have hfed : stage.world.Others (fun c => c.isStarved = false) [] := Stage.turns_feed hturns hstart
    have hfilled := (World.refill_others Creature.fed_passive hfed).of_ok hrefill
    exact fun rank c hc => hfilled rank c List.not_mem_nil hc

/-- Of two creatures, the first is starved from outside; in the next tick it dies, and the other lives. -/
theorem only_the_starved_die_gatherings :
    ∃ h c w events w', History.run .deserted (Enclosure.empty 1280.0 720.0) 0 gatherings = .ok h ∧
      h.world.creatures.get? ⟨1⟩ = some c ∧
      h.world.edit? c.id (fun c => { c with hunger := 0.0 }) = some w ∧
      w.tickBy .update = .ok (events, w') ∧
      w.creatures.keys = [⟨1⟩, ⟨2⟩] ∧ w'.creatures.keys = [⟨2⟩] ∧
      List.IsChain World.Loses (w :: w.moments .update) ∧
      (w.moments .update).getLast? = some w' ∧
      ∀ rank c, w'.creatures.get? rank = some c → c.isStarved = false := by
  -- who starves is computed, and that nobody else dies is taken from the theorem
  have hcheck : (History.run .deserted (Enclosure.empty 1280.0 720.0) 0 gatherings).toOption.any (fun h =>
      (h.world.creatures.get? ⟨1⟩).any fun c =>
        (h.world.edit? c.id (fun c => { c with hunger := 0.0 })).any fun w =>
          (w.tickBy .update).toOption.any fun r =>
            decide (w.creatures.keys = [⟨1⟩, ⟨2⟩] ∧ r.2.creatures.keys = [⟨2⟩])) = true := by
    decide +kernel
  obtain ⟨h, hrun, hcheck⟩ := except_any_inv hcheck
  obtain ⟨c, hc, hcheck⟩ := (Option.any_eq_true _ _).mp hcheck
  obtain ⟨w, hw, hcheck⟩ := (Option.any_eq_true _ _).mp hcheck
  obtain ⟨⟨events, w'⟩, htick, hcheck⟩ := except_any_inv hcheck
  obtain ⟨hbefore, hafter⟩ := of_decide_eq_true hcheck
  obtain ⟨hchain, hreturned⟩ := only_the_starved_die w .update
  obtain ⟨hlast, hfed⟩ := hreturned events w' htick
  exact ⟨h, c, w, events, w', hrun, hc, hw, htick, hbefore, hafter, hchain, hlast, hfed⟩

end Vivarium
