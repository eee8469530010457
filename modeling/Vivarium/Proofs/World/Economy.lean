import Vivarium.Proofs.Scalar.Arithmetic
import Vivarium.Proofs.World.Upkeep

/-!
# Bounds on mass and hunger

An accepted configuration guards most of what is written to a creature's mass, but not the gain from a
pellet: as long as that is not negative, no living creature is lighter than the minimum. Hunger is clamped
whenever it changes, so it never lies outside of zero and one. It can fail to be a number, though, once a
mass has grown to infinity; among moderate numbers this cannot happen.

Main result: `economy_keeps_its_bounds`.
-/

namespace Vivarium

namespace Config

/-! ## What an accepted configuration guards -/

/-- What the economy needs of the conditions that were judged. -/
structure Guarded (config : Config) : Prop where
  minMass_pos     : 0.0 < config.metabolism.minMass
  le_fresh        : config.metabolism.minMass ≤ config.world.freshSpawnMass
  le_birth        : config.metabolism.minMass ≤ config.metabolism.birthMass
  le_share        : config.metabolism.minMass ≤
    config.metabolism.replicateMass - config.metabolism.birthMass
  transfer_nonneg : 0.0 ≤ config.combat.massTransfer
  horizon_pos     : 0.0 < config.world.scheduleHorizon
  steady_nonneg   : 0.0 ≤ config.metabolism.starvationRate
  early_nonneg    : 0.0 ≤ config.metabolism.starvationRateEarly
  restore_nonneg  : 0.0 ≤ config.food.hungerRestore
  loss_nonneg     : 0.0 ≤ config.combat.targetHungerLoss
  reward_nonneg   : 0.0 ≤ config.combat.attackerHungerGain

/-- A valid configuration is guarded. -/
theorem Valid.guarded {config : Config} (h : config.Valid) : config.Guarded := by
  have hmet : ∀ condition ∈ config.conditions, condition.2 = true := fun _ => h.met
  simp only [conditions, List.forall_mem_cons, inClosed, Bool.and_eq_true, decide_eq_true_eq] at hmet
  obtain ⟨-, -, -, -, hfresh, -, -, hhorizon, hrestore, hrates, hmin, hbirth, hshare, hcombat, htransfer,
    -⟩ := hmet
  exact ⟨hmin, hfresh, hbirth, hshare, htransfer, hhorizon, hrates.1, hrates.2, hrestore.1, hcombat.1.1,
    hcombat.2.1⟩

/-- The bound on what a creature may gain at once: the largest double stays the same if so much is added. -/
def gainBound : Float := 1e290

/-- The numbers of the economy are finite, and what a creature gains at once is neither negative nor out
of all proportion. -/
structure Moderate (config : Config) : Prop where
  gain_nonneg    : 0.0 ≤ config.food.massGain
  gain_le        : config.food.massGain ≤ gainBound
  transfer_le    : config.combat.massTransfer ≤ gainBound
  fresh_finite   : config.world.freshSpawnMass.isFinite = true
  horizon_finite : config.world.scheduleHorizon.isFinite = true
  steady_finite  : config.metabolism.starvationRate.isFinite = true
  early_finite   : config.metabolism.starvationRateEarly.isFinite = true

variable {config : Config}

/-! ## Masses -/

/-- What every mass is. -/
def MassBound (config : Config) (m : Float) : Prop :=
  (0.0 ≤ config.food.massGain → config.metabolism.minMass ≤ m) ∧ (config.Moderate → m.isFinite = true)

/-- A gain of at most this much is lost when it is added to the largest number. -/
theorem isFinite_of_gain {g : Float} (hg : 0.0 ≤ g) (hle : g ≤ gainBound) :
    g.isFinite = true ∧ Double.largest + g ≤ Double.largest := by
  have hbound : gainBound.isFinite = true := by decide +kernel
  have hsame : gainBound + Double.largest ≤ Double.largest := by decide +kernel
  refine ⟨Double.isFinite_of_nonneg_of_le hg hle hbound, ?_⟩
  rw [Double.add_comm]
  exact Double.le_trans (Double.add_le_add_right hle Double.isFinite_largest) hsame

namespace Guarded

variable (hguarded : config.Guarded)

include hguarded

theorem birth_finite : config.metabolism.birthMass.isFinite = true := by
  have hpos := hguarded.minMass_pos
  refine Double.isFinite_of_sub_pos (Double.lt_of_lt_of_le hpos hguarded.le_share) ?_
  exact Double.le_trans (Double.le_of_lt hpos) hguarded.le_birth

theorem minMass_finite : config.metabolism.minMass.isFinite = true :=
  Double.isFinite_of_nonneg_of_le (Double.le_of_lt hguarded.minMass_pos) hguarded.le_birth
    hguarded.birth_finite

/-- No gain makes a mass too small or, among moderate numbers, infinite. -/
theorem massBound_add {m g : Float} (hm : config.MassBound m)
    (hg : 0.0 ≤ config.food.massGain → 0.0 ≤ g) (hle : config.Moderate → g ≤ gainBound) :
    config.MassBound (m + g) := by
  have hnonneg (hgain : 0.0 ≤ config.food.massGain) : 0.0 ≤ m :=
    Double.le_trans (Double.le_of_lt hguarded.minMass_pos) (hm.1 hgain)
  refine ⟨fun hgain => ?_, fun hmoderate => ?_⟩
  · exact Double.le_trans (hm.1 hgain) (Double.le_add_of_nonneg (hnonneg hgain) (hg hgain))
  · have hgain := hmoderate.gain_nonneg
    obtain ⟨hfinite, hsmall⟩ := isFinite_of_gain (hg hgain) (hle hmoderate)
    exact Double.isFinite_add (hm.2 hmoderate) (hnonneg hgain) (hg hgain) hfinite hsmall

/-- **Whatever is written to a mass keeps its bounds.** -/
theorem trade {m m' : Float} (hm : config.MassBound m) (htrade : config.Trade m m') :
    config.MassBound m' := by
  cases htrade with
  | food => exact hguarded.massBound_add hm (fun h => h) fun h => h.gain_le
  | prey => exact hguarded.massBound_add hm (fun _ => hguarded.transfer_nonneg) fun h => h.transfer_le
  | wound =>
    have hmin := hguarded.minMass_finite
    have hle := Double.le_greater (m - config.combat.massTransfer) (Double.isNumber_of_isFinite hmin)
    refine ⟨fun _ => hle, fun hmoderate => ?_⟩
    have htransfer := isFinite_of_gain hguarded.transfer_nonneg hmoderate.transfer_le
    rcases Double.greater_eq (m - config.combat.massTransfer) config.metabolism.minMass with heq | heq
    -- what is left lies between the minimum and the mass before
    · rw [heq] at hle ⊢
      exact Double.isFinite_of_le_of_le hmin hle
        (Double.sub_le_self (hm.2 hmoderate) hguarded.transfer_nonneg htransfer.1) (hm.2 hmoderate)
    · rw [heq]
      exact hmin
  | child hheavy =>
    have hbirth := hguarded.birth_finite
    have hshare (hgain : 0.0 ≤ config.food.massGain) :
        config.metabolism.minMass ≤ m - config.metabolism.birthMass := by
      have hm' := (Double.le_iff.mp (hm.1 hgain)).2.1
      have hreplicate := Double.isNumber_of_sub (Double.le_iff.mp hguarded.le_share).2.1
      exact Double.le_trans hguarded.le_share
        (Double.sub_le_sub_right (Double.le_of_not_lt hm' hreplicate hheavy) hbirth)
    refine ⟨hshare, fun hmoderate => ?_⟩
    have hbirth0 : 0.0 ≤ config.metabolism.birthMass :=
      Double.le_trans (Double.le_of_lt hguarded.minMass_pos) hguarded.le_birth
    exact Double.isFinite_of_le_of_le hguarded.minMass_finite (hshare hmoderate.gain_nonneg)
      (Double.sub_le_self (hm.2 hmoderate) hbirth0 hbirth) (hm.2 hmoderate)

end Guarded

/-! ## Hungers -/

/-- What every hunger is. -/
def HungerBound (config : Config) (h : Float) : Prop :=
  ¬ h < 0.0 ∧ ¬ 1.0 < h ∧ (config.Moderate → 0.0 ≤ h ∧ h ≤ 1.0)

/-- The force of a move is a number. -/
def ForceIsNumber (i : Instruction) : Prop := ∀ power, i = .move power → Double.IsNumber power

end Config

/-- A drawn real is a number, since it lies below a bound. -/
theorem Draw.attemptReal_isNumber (lo hi scale : Float) :
    ∀ fuel, (attemptReal lo hi scale fuel).Ensures Double.IsNumber
  | 0 => .throw
  | fuel + 1 => by
    unfold attemptReal
    refine .bind .any fun w _ => .ite (fun hlt => .pure (Double.lt_iff.mp hlt).1) fun _ => ?_
    exact attemptReal_isNumber lo hi scale fuel

theorem Draw.real_isNumber (lo hi : Float) : (real lo hi).Ensures Double.IsNumber :=
  .ite (fun _ => .ite (fun _ => attemptReal_isNumber lo hi _ _) fun _ => .throw) fun _ => .throw

/-- The force of a move is drawn from a range, so it is a number. -/
theorem heritable_forceIsNumber : Heritable Config.ForceIsNumber where
  drawn index len := by
    -- only a move has a force
    have still {i : Instruction} (hi : ∀ power, i ≠ .move power) : Config.ForceIsNumber i :=
      fun power heq => absurd heq (hi power)
    have jump {c : Condition} :
        Build.Yields (do return Instruction.jump c (← (Draw.position (max len 1) : Draw Nat)))
          Config.ForceIsNumber := .bind .any fun _ _ => .pure (still nofun)
    unfold Catalog.drawInstruction
    split
    · exact .bind (.lift (Draw.real_isNumber _ _)) fun power hpower => .pure fun p hp => by
        cases hp
        exact hpower
    · exact .pure (still nofun)
    · exact .bind .any fun _ _ => .pure (still nofun)
    · exact .pure (still nofun)
    · exact .pure (still nofun)
    · exact .pure (still nofun)
    · exact .pure (still nofun)
    · exact .pure (still nofun)
    · exact jump
    · exact jump
    · exact jump
    · exact .bind .any fun _ _ => jump
    · exact .bind .any fun _ _ => jump
    · exact .pure (still nofun)
    · exact .pure (still nofun)
    · exact .pure (still nofun)
    · exact .refused
  retarget i goal hi := by
    cases i with
    | jump c _ => exact nofun
    | _ => exact hi

namespace Config

variable {config : Config}

/-- The rate of starvation is a quotient by a number that is at least one. -/
theorem starvationRate_isNumber (hguarded : config.Guarded) (hmoderate : config.Moderate) (tick : Nat) :
    Double.IsNumber (config.starvationRate tick) := by
  have hone : (0.0 : Float) ≤ 1.0 := Double.le_of_lt Double.zero_lt_one
  have hage := Double.div_nonneg (Double.signOf?_ofNat tick) hguarded.horizon_pos
    hmoderate.horizon_finite
  -- the divisor is one more than what is not negative
  have hbelow : 0.0 < Float.ofNat tick / config.world.scheduleHorizon + 1.0 := by
    rw [Double.add_comm]
    exact Double.lt_of_lt_of_le Double.zero_lt_one (Double.le_add_of_nonneg hone hage)
  obtain ⟨hnumber, hpos⟩ := Double.pos_iff.mp hbelow
  have habove := Double.isFinite_sub hmoderate.early_finite hguarded.early_nonneg
    hmoderate.steady_finite hguarded.steady_nonneg
  exact Double.isNumber_add (Double.isNumber_div habove hnumber hpos.ne') hmoderate.steady_finite

/-- Among moderate numbers, every change of hunger is a number. -/
theorem shift_isNumber (hguarded : config.Guarded) (hmoderate : config.Moderate) {δ : Float}
    (hδ : config.Shift config.MassBound ForceIsNumber δ) : Double.IsNumber δ := by
  -- each change of the hunger is a number as long as its own constants are
  cases hδ with
  | food => exact (Double.nonneg_iff.mp hguarded.restore_nonneg).1
  | prey => exact (Double.nonneg_iff.mp hguarded.reward_nonneg).1
  | wound => exact Double.isNumber_neg (Double.nonneg_iff.mp hguarded.loss_nonneg).1
  | effort hpower =>
    have hfinite : Creature.moveCost.isFinite = true := by decide +kernel
    have hne : Double.units Creature.moveCost ≠ 0 := by decide +kernel
    exact Double.isNumber_mul (Double.isNumber_neg (hpower _ rfl)) hfinite hne
  | metabolism tick hm =>
    have hpos := Double.lt_of_lt_of_le hguarded.minMass_pos (hm.1 hmoderate.gain_nonneg)
    exact Double.isNumber_mul (Double.isNumber_neg (starvationRate_isNumber hguarded hmoderate tick))
      (hm.2 hmoderate) (Double.pos_iff.mp hpos).2.ne'

/-- **Whatever is added to a hunger keeps its bounds**, since it is clamped. -/
theorem hungerBound_clampTo (hguarded : config.Guarded) {h δ : Float} (hh : config.HungerBound h)
    (hδ : config.Shift config.MassBound ForceIsNumber δ) :
    config.HungerBound (clampTo 0.0 1.0 (h + δ)) := by
  obtain ⟨hlow, hhigh, hinside⟩ := Double.clampTo_bounds (h + δ)
  refine ⟨hlow, hhigh, fun hmoderate => hinside ?_⟩
  have hone : (1.0 : Float).isFinite = true := by decide +kernel
  obtain ⟨hh0, hh1⟩ := hh.2.2 hmoderate
  rw [Double.add_comm]
  exact Double.isNumber_add (shift_isNumber hguarded hmoderate hδ)
    (Double.isFinite_of_nonneg_of_le hh0 hh1 hone)

/-- An accepted configuration maintains the bounds. -/
theorem Guarded.maintains (hguarded : config.Guarded) :
    config.Maintains config.MassBound config.HungerBound ForceIsNumber where
  birthMass := ⟨fun _ => hguarded.le_birth, fun _ => hguarded.birth_finite⟩
  freshMass := ⟨fun _ => hguarded.le_fresh, fun hmoderate => hmoderate.fresh_finite⟩
  trade     := fun _ _ => hguarded.trade
  newborn   := ⟨by decide +kernel, by decide +kernel, fun _ => ⟨by decide +kernel, by decide +kernel⟩⟩
  shift     := fun _ _ => hungerBound_clampTo hguarded
  heritable := heritable_forceIsNumber

end Config

/-- **The bounds of the economy.** In every state that a world reaches from its creation by ticks, on
whatever configuration is accepted, no living creature's hunger lies outside of zero and one; and none is
lighter than the minimum, unless pellets take mass away. If the numbers of the economy are moderate, every
hunger is a number and lies inside. -/
theorem economy_keeps_its_bounds {E : Type} [Physics E] [LawfulPhysics E] {config : Config} {enclosure : E}
    {entropy : BitVec 256} {ticks : List TickCall} {h : History E}
    (hrun : History.run config enclosure entropy (ticks.map .tick) = .ok h) {rank : Rank} {c : Creature}
    (hc : h.world.creatures.get? rank = some c) :
    (0.0 ≤ config.food.massGain → config.metabolism.minMass ≤ c.mass) ∧
      ¬ c.hunger < 0.0 ∧ ¬ 1.0 < c.hunger ∧
      (config.Moderate → 0.0 ≤ c.hunger ∧ c.hunger ≤ 1.0) := by
  have hvalid : config.Valid := by
    obtain ⟨w, hw, -⟩ := except_bind_inv hrun
    exact (World.create_refill hw).1
  have hkeeps := (World.Upheld.run hvalid.guarded.maintains hrun).keeps rank c hc
  exact ⟨hkeeps.mass.1, hkeeps.hunger⟩

/-- A small world for one creature, in which a pellet changes its eater's mass by `gain`, and nobody grows
hungry by the passing of time. -/
def Config.larder (gain : Float) : Config where
  world      := { width := 20.0, height := 20.0, seed := some 1, populationFloor := 1 }
  food       := { massGain := gain }
  metabolism := { starvationRate := 0.0, starvationRateEarly := 0.0 }

/-- Whether a world of this kind, run for some ticks, leaves its first creature alive and such that it
passes a test. -/
def larderLeaves (gain : Float) (ticks : Nat) (test : Creature → Bool) : Bool :=
  (History.run (.larder gain) (Enclosure.empty 20.0 20.0) 0
    ((List.replicate ticks TickCall.update).map .tick)).toOption.any fun h =>
      (h.world.creatures.get? ⟨1⟩).any test

/-- A check of a run in the larder yields the run and its creature. -/
theorem of_larderLeaves {gain : Float} {ticks : Nat} {test : Creature → Bool}
    (hleaves : larderLeaves gain ticks test = true) :
    ∃ h c, History.run (.larder gain) (Enclosure.empty 20.0 20.0) 0
        ((List.replicate ticks TickCall.update).map .tick) = .ok h ∧
      h.world.creatures.get? ⟨1⟩ = some c ∧ test c = true := by
  obtain ⟨h, hrun, hany⟩ := except_any_inv hleaves
  obtain ⟨c, hc, htest⟩ := (Option.any_eq_true _ _).mp hany
  exact ⟨h, c, hrun, hc, htest⟩

/-- One meal of twenty in the larder. -/
theorem economy_keeps_its_bounds_larder :
    ∃ h c, History.run (.larder 20.0) (Enclosure.empty 20.0 20.0) 0
        ((List.replicate 1 TickCall.update).map .tick) = .ok h ∧
      h.world.creatures.get? ⟨1⟩ = some c ∧ (Config.larder 20.0).metabolism.minMass ≤ c.mass ∧
      0.0 ≤ c.hunger ∧ c.hunger ≤ 1.0 := by
  have hleaves : larderLeaves 20.0 1 (fun _ => true) = true := by decide +kernel
  have hmoderate : (Config.larder 20.0).Moderate := by
    refine ⟨?_, ?_, ?_, ?_, ?_, ?_, ?_⟩ <;> decide +kernel
  obtain ⟨h, c, hrun, hc, -⟩ := of_larderLeaves hleaves
  obtain ⟨hmass, -, -, hhunger⟩ := economy_keeps_its_bounds hrun hc
  exact ⟨h, c, hrun, hc, hmass hmoderate.gain_nonneg, hhunger hmoderate⟩

/-- **No condition guards the gain from a pellet.** One that takes mass away leaves a creature too light,
and one that makes a mass infinite leaves a creature whose hunger is not a number. -/
theorem unguarded_gain_breaks_bounds :
    (∃ h c, History.run (.larder (-50.0)) (Enclosure.empty 20.0 20.0) 0
        ((List.replicate 1 TickCall.update).map .tick) = .ok h ∧
      h.world.creatures.get? ⟨1⟩ = some c ∧ ¬ (Config.larder (-50.0)).metabolism.minMass ≤ c.mass) ∧
    ∃ h c, History.run (.larder 1.7e308) (Enclosure.empty 20.0 20.0) 0
        ((List.replicate 2 TickCall.update).map .tick) = .ok h ∧
      h.world.creatures.get? ⟨1⟩ = some c ∧ ¬ (0.0 ≤ c.hunger ∧ c.hunger ≤ 1.0) := by
  have hlight : larderLeaves (-50.0) 1 (fun c =>
      decide ¬ (Config.larder (-50.0)).metabolism.minMass ≤ c.mass) = true := by decide +kernel
  have hlost : larderLeaves 1.7e308 2 (fun c =>
      decide ¬ (0.0 ≤ c.hunger ∧ c.hunger ≤ 1.0)) = true := by decide +kernel
  obtain ⟨h, c, hrun, hc, hmass⟩ := of_larderLeaves hlight
  obtain ⟨h', c', hrun', hc', hhunger⟩ := of_larderLeaves hlost
  exact ⟨⟨h, c, hrun, hc, of_decide_eq_true hmass⟩, h', c', hrun', hc', of_decide_eq_true hhunger⟩

end Vivarium
