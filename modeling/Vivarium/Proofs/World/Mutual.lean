import Vivarium.Proofs.Kinship.Mutual
import Vivarium.Proofs.World.Capacity
import Vivarium.Proofs.World.Kin
import Vivarium.Proofs.World.TurnOrder

/-!
# Kinship is mutual

Of two live creatures either both count the other as kin or neither does, although each judges by what it
sees of the other and, where genomes are compared, asks a memo that others have been asking in between. For
what a creature sees of another is what that one is, identities in view belong to one creature each, and a
memo answers as computing would, whichever entries it has kept. So each judgement is that of the relation,
and both relations are symmetric.

Main result: `kinship_is_mutual`.
-/

namespace Vivarium

theorem Creature.isKinTo_comm (mode : KinshipMode) (c d : Creature) : c.isKinTo mode d = d.isKinTo mode c := by
  cases mode with
  | hue => exact isKin_comm _ _
  | similarity =>
    unfold isKinTo
    dsimp only
    rw [diceSimilarity_comm, isSimilarKin_comm]

/-! ## Whom a creature counts as kin -/

variable {E : Type} [Physics E]

namespace Stage

variable {s : Stage E}

omit [Physics E] in
/-- Whoever is told to be kin is in view, alive and similar enough. -/
theorem mem_foldl_addKin_inv {w : World E} {genome : String} {threshold : Float} {vs : List CreatureView}
    {kin : List Ident} {id : Ident} (h : id ∈ vs.foldl (addKin w genome threshold) kin) :
    id ∈ kin ∨ ∃ v ∈ vs, v.id = id ∧ ∃ d, w.creatures.get? v.rank = some d ∧
      isSimilarKin (diceSimilarity genome d.program.geneticString) threshold v.familyThreshold = true := by
  -- the induction is on the views, over the kin that were found before
  induction vs generalizing kin with
  | nil => exact .inl h
  | cons v vs ih =>
    rw [List.foldl_cons] at h
    rcases ih h with hadded | ⟨v', hv', hspec⟩
    · unfold addKin at hadded
      split at hadded
      · exact .inl hadded
      · rename_i d hd
        dsimp only at hadded
        split at hadded
        · rename_i hkin
          rcases List.mem_cons.mp hadded with rfl | hbefore
          · exact .inr ⟨v, List.mem_cons_self, rfl, d, hd, hkin⟩
          · exact .inl hbefore
        · exact .inl hadded
    · exact .inr ⟨v', List.mem_cons_of_mem _ hv', hspec⟩

/-- **A creature counts another as kin if and only if it is kin to it**, whatever the memo holds. -/
theorem isKin_eq_isKinTo (hranked : s.world.Ranked) (hcurrent : s.Current) (hliving : s.world.living.Nodup)
    (hmemo : s.world.similarity.Coherent) {c d : Creature} {v : CreatureView} (hv : v ∈ s.views)
    (hd : s.world.creatures.get? v.rank = some d) (hother : d.id ≠ c.id) :
    (s.surroundings c).1.isKin c v = c.isKinTo s.world.config.kinship.mode d := by
  obtain ⟨d', hd', hview⟩ := hcurrent.viewed hranked hv
  rw [hd, Option.some.injEq] at hd'
  subst hd'
  have hid : v.id = d.id := congrArg (·.id) hview
  have hhue : v.hue = d.hue := congrArg (·.hue) hview
  have hthreshold : v.familyThreshold = d.traits.familyThreshold := congrArg (·.familyThreshold) hview
  cases hcounted : (s.surroundings c).1.isKin c v with
  | false => exact (isKinTo_of_stranger hmemo hv (hid ▸ hother) hd hview hcounted).symm
  | true =>
    obtain ⟨m, -, hsight⟩ := surroundings_eq hmemo c
    rw [hsight] at hcounted
    unfold Surroundings.isKin sight at hcounted
    cases hmode : s.world.config.kinship.mode with
    | hue =>
      simp only [hmode, hhue, hthreshold] at hcounted
      exact hcounted.symm
    | similarity =>
      simp only [hmode, List.contains_iff_mem] at hcounted
      rcases mem_foldl_addKin_inv hcounted with hnone | ⟨u, hu, huid, e, he, hkin⟩
      · cases hnone
      -- the view that made it kin shows the same creature, for its identity is not used twice
      · obtain ⟨e', he', huview⟩ := hcurrent.viewed hranked (List.mem_filter.mp hu).1
        rw [he, Option.some.injEq] at he'
        subst he'
        have hsame : e.id = d.id := ((congrArg (·.id) huview).symm.trans huid).trans hid
        rw [World.rank_eq_of_id_eq hliving he hd hsame, hd, Option.some.injEq] at he
        subst he
        rw [show u.familyThreshold = d.traits.familyThreshold from congrArg (·.familyThreshold) huview] at hkin
        exact hkin.symm

end Stage

/-! ## Where creatures look around -/

theorem World.similarity_setCreatureMass (w : World E) (id : Ident) (mass : Float) :
    ((w.setCreatureMass? id mass).getD w).similarity = w.similarity := by
  unfold setCreatureMass?
  cases w.liveRank? id with
  | none => rfl
  | some rank =>
    show (w.setMass rank mass).similarity = w.similarity
    unfold setMass
    split
    · rfl
    · rfl

namespace History

/-- The stages that show a history's present: between two ticks, with the views that would be taken; and
within a tick, after some of its turns, and when in the next turn a creature has fed and its laser has been
counted down. That is when it looks around. -/
inductive Shows (h : History E) : Stage E → Prop
  | between : Shows h (.start h.world h.world.pendingEvents)
  | turn {t : TickCall} {start s : Stage E} {before after : List Rank} (hstart : h.world.openingBy t = .ok start)
      (hranks : start.views.map (·.rank) = before ++ after) (hturns : start.turns before = .ok s) : Shows h s
  | ready {t : TickCall} {start s : Stage E} {before after : List Rank} {rank : Rank}
      (hstart : h.world.openingBy t = .ok start) (hranks : start.views.map (·.rank) = before ++ rank :: after)
      (hturns : start.turns before = .ok s) : Shows h (s.prepared rank)

variable [LawfulPhysics E] {config : Config} {enclosure : E} {entropy : BitVec 256} {calls : List Call}
  {h : History E}

omit [LawfulPhysics E] in
/-- **The memo holds no wrong score** in any state that calls lead to. -/
theorem memo_coherent_of_calls (hrun : run config enclosure entropy calls = .ok h) :
    h.world.similarity.Coherent := by
  refine run_induction hrun (P := fun h => h.world.similarity.Coherent) (fun w hw => ?_)
    fun h c h' _ ih hcall => ?_
  -- what was set up is a run of no ticks
  · have hnone : run config enclosure entropy (([] : List TickCall).map .tick) = .ok { world := w } := by
      show (World.create config enclosure entropy >>= fun w => [].foldlM call { world := w }) = _
      rw [hw]
      rfl
    exact memo_coherent hnone
  · cases c with
    | tick t =>
      obtain ⟨⟨events, w'⟩, htick, hpure⟩ := except_bind_inv hcall
      cases hpure
      exact (((World.Alike.refl ih).tickBy t).of_ok htick htick).2.1
    | insertCreature seed =>
      obtain ⟨⟨id, w'⟩, hinsert, hpure⟩ := except_bind_inv hcall
      cases hpure
      obtain ⟨c, source, -, -, rfl⟩ := World.insertCreature_inv (Outcome.ofFault_inv hinsert)
      exact ih
    | insertPellet place =>
      obtain ⟨⟨id, w'⟩, hinsert, hpure⟩ := except_bind_inv hcall
      cases hpure
      obtain ⟨pellet, hspawn⟩ := World.insertPellet_inv (Outcome.ofFault_inv hinsert)
      obtain ⟨source, -, -, rfl⟩ := World.spawnPellet_inv hspawn
      exact ih
    | setMass id mass =>
      cases hcall
      show ((h.world.setCreatureMass? id mass).getD h.world).similarity.Coherent
      rw [World.similarity_setCreatureMass]
      exact ih
    | compare a b =>
      cases hcall
      obtain ⟨m, hm, heq⟩ := World.genomeSimilarity_eq ih a b
      show (h.world.genomeSimilarity a b).2.similarity.Coherent
      rw [heq]
      exact hm

/-- What a history shows is in step and up to date, if the identities drawn so far are distinct. -/
theorem Shows.sound (hempty : Physics.handles enclosure = []) {s : Stage E}
    (hrun : run config enclosure entropy calls = .ok h)
    (hshows : h.Shows s) (hdistinct : (h.guests ++ births (h.log ++ s.events)).Nodup) :
    s.world.Ranked ∧ s.Current ∧ s.world.living.Nodup ∧ s.world.similarity.Coherent ∧
      s.world.config = config := by
  have hranked : h.world.Ranked := ranked_run hrun
  have hmemo := memo_coherent_of_calls hrun
  -- a course that was told leads on to distinct identities
  have hdistinctly {told : List Event} {w : World E} (hcourse : h.world.counted.Course told w)
      (hevents : s.events = h.world.pendingEvents ++ told) : w.living.Nodup := by
    rw [hevents] at hdistinct
    have hdrawn : (drawn { h with
        world := { h.world with pendingEvents := [] }
        log := h.log ++ (h.world.pendingEvents ++ told ++ []) }).Nodup := by
      simpa [drawn] using hdistinct
    obtain ⟨hcoherent, hborn⟩ := coherent_born hempty hrun hdrawn
    have hcounted : h.world.counted.Coherent [] := hcoherent.retold _ _
    exact (hcounted.course hcourse hborn).living_nodup
  have hpending {t : TickCall} {start : Stage E} (hstart : h.world.openingBy t = .ok start) :
      start.events = h.world.pendingEvents := by
    obtain ⟨opened, rfl, -, -⟩ := (h.world.openingBy_ensures t).of_ok hstart
    rfl
  cases hshows with
  | between =>
    exact ⟨hranked, .start _ _, hdistinctly (w := h.world.counted) .refl (by simp [Stage.start]), hmemo,
      config_run hrun⟩
  | turn hstart hranks hturns =>
    obtain ⟨hnow, hcurrent, told, hcourse, htold⟩ := during_tick hrun hstart hturns
    exact ⟨hnow, hcurrent, hdistinctly hcourse (hpending hstart ▸ htold),
      Stage.memo_at_turn hmemo hstart hturns, hcourse.frame.1.trans (config_run hrun)⟩
  | @ready t start s before after rank hstart hranks hturns =>
    obtain ⟨hnow, hcurrent, told, hcourse, htold⟩ := during_tick hrun hstart hturns
    obtain ⟨hready, hreadyCurrent⟩ := (s.prepared_steps rank).current hnow hcurrent
    obtain ⟨own, hprepared, hown⟩ := (s.prepared_steps rank).advances
    have hwhole := hcourse.trans hprepared
    refine ⟨hready, hreadyCurrent, hdistinctly hwhole ?_,
      Stage.memo_prepared (Stage.memo_at_turn hmemo hstart hturns) rank,
      hwhole.frame.1.trans (config_run hrun)⟩
    rw [hown, htold, hpending hstart, List.append_assoc]

end History

/-- Whoever is alive is in view. -/
theorem Stage.Current.seen {s : Stage E} (h : s.Current) {rank : Rank} {c : Creature}
    (hc : s.world.creatures.get? rank = some c) : ∃ v ∈ s.views, v.rank = rank ∧ v.id = c.id := by
  have hmem : World.unplacedView rank c ∈ s.views.map (·.unplaced) := by
    rw [h.creatures, World.unplaced_creatureViews]
    exact List.mem_map_of_mem (Table.mem_entries_of_get? hc)
  obtain ⟨v, hv, hview⟩ := List.mem_map.mp hmem
  exact ⟨v, hv, congrArg (·.rank) hview, congrArg (·.id) hview⟩

/-- **Kinship is mutual.** The relation is symmetric in either mode, whatever hues and thresholds the two
creatures have. And it is what every creature goes by, wherever it looks around: in every state that calls
lead to, between two ticks or within one, of two live creatures each has the other in view, and either counts
the other as kin if and only if the two are kin. In this, each of the two may ask a memo of its own, of any
capacity and with any entries, as long as it holds no wrong score. The memo of the state holds none, nor does
what a creature leaves of it when it has looked around. -/
theorem kinship_is_mutual [LawfulPhysics E] {config : Config} {enclosure : E}
    (hempty : Physics.handles enclosure = []) {entropy : BitVec 256} {calls : List Call} {h : History E}
    {s : Stage E} (hrun : History.run config enclosure entropy calls = .ok h)
    (hshows : h.Shows s) (hdistinct : (h.guests ++ births (h.log ++ s.events)).Nodup) :
    (∀ mode (c d : Creature), c.isKinTo mode d = d.isKinTo mode c) ∧
    s.world.similarity.Coherent ∧ (∀ c, (s.surroundings c).2.similarity.Coherent) ∧
    (∀ rank c, s.world.creatures.get? rank = some c → ∃ v ∈ s.views, v.rank = rank ∧ v.id = c.id) ∧
    ∀ c d, ∀ u ∈ s.views, ∀ v ∈ s.views, u.rank ≠ v.rank →
      s.world.creatures.get? u.rank = some c → s.world.creatures.get? v.rank = some d →
      ∀ k k' m m', m.Coherent → m'.Coherent →
        ((s.recalling k m).surroundings c).1.isKin c v = c.isKinTo config.kinship.mode d ∧
        ((s.recalling k' m').surroundings d).1.isKin d u = c.isKinTo config.kinship.mode d := by
  obtain ⟨hranked, hcurrent, hliving, hmemo, hconfig⟩ := hshows.sound hempty hrun hdistinct
  refine ⟨Creature.isKinTo_comm, hmemo, fun c => ?_, fun rank c hc => hcurrent.seen hc,
    fun c d u hu v hv hne hc hd k k' m m' hm hm' => ?_⟩
  · obtain ⟨m, hm, hsight⟩ := Stage.surroundings_eq hmemo c
    rw [hsight]
    exact hm
  · have hother : d.id ≠ c.id := fun heq => hne (World.rank_eq_of_id_eq hliving hc hd heq.symm)
    -- another memo leaves ranks, views and identities as they are
    have hranked' (k : Nat) (m : Cache) : (s.recalling k m).world.Ranked :=
      ⟨hranked.nodup, hranked.le, hranked.creatures_ascending, hranked.pellets_ascending⟩
    have hcurrent' (k : Nat) (m : Cache) : (s.recalling k m).Current := ⟨hcurrent.creatures, hcurrent.pellets⟩
    rw [← hconfig]
    refine ⟨Stage.isKin_eq_isKinTo (hranked' k m) (hcurrent' k m) hliving hm hv hd hother, ?_⟩
    rw [Creature.isKinTo_comm]
    exact Stage.isKin_eq_isKinTo (hranked' k' m') (hcurrent' k' m') hliving hm' hu hc hother.symm

/-- The small world again, with genomes compared. -/
def Config.discreet : Config := { Config.cramped with kinship := { mode := .similarity } }

/-- Its two creatures are not kin, and neither takes the other for kin, although one asks a memo that holds
nothing, and the other that of the world. -/
theorem kinship_is_mutual_discreet :
    ∃ h s c d u v, History.run .discreet (Enclosure.empty 20.0 20.0) 0 [] = .ok h ∧ h.Shows s ∧
      (h.guests ++ births (h.log ++ s.events)).Nodup ∧ s.views = [u, v] ∧ u.rank ≠ v.rank ∧
      s.world.creatures.get? u.rank = some c ∧ s.world.creatures.get? v.rank = some d ∧
      ((s.recalling 0 (.empty 0)).surroundings c).1.isKin c v = false ∧
      (s.surroundings d).1.isKin d u = false := by
  -- that the two take each other for strangers is computed, and that they do so in any memo is taken from
  -- the theorem
  have hcheck : (History.run .discreet (Enclosure.empty 20.0 20.0) 0 []).toOption.any (fun h =>
      let views := (Stage.start h.world h.world.pendingEvents).views
      views.head?.any fun u => views.getLast?.any fun v =>
        decide ((h.guests ++ births (h.log ++ h.world.pendingEvents)).Nodup ∧ views = [u, v] ∧
          u.rank ≠ v.rank) &&
          (h.world.creatures.get? u.rank).any fun c =>
            (h.world.creatures.get? v.rank).any fun d => !c.isKinTo .similarity d) = true := by
    decide +kernel
  obtain ⟨h, hrun, hcheck⟩ := except_any_inv hcheck
  obtain ⟨u, -, hcheck⟩ := (Option.any_eq_true _ _).mp hcheck
  obtain ⟨v, -, hcheck⟩ := (Option.any_eq_true _ _).mp hcheck
  obtain ⟨hshown, hcheck⟩ := Bool.and_eq_true_iff.mp hcheck
  obtain ⟨hdistinct, hviews, hranks⟩ := of_decide_eq_true hshown
  obtain ⟨c, hc, hcheck⟩ := (Option.any_eq_true _ _).mp hcheck
  obtain ⟨d, hd, hcheck⟩ := (Option.any_eq_true _ _).mp hcheck
  have hstrangers : c.isKinTo .similarity d = false := Bool.not_eq_true' _ ▸ hcheck
  have hu : u ∈ (Stage.start h.world h.world.pendingEvents).views := by rw [hviews]; simp
  have hv : v ∈ (Stage.start h.world h.world.pendingEvents).views := by rw [hviews]; simp
  obtain ⟨-, hmemo, -, -, hmutual⟩ := kinship_is_mutual rfl hrun .between hdistinct
  obtain ⟨hfirst, hsecond⟩ := hmutual c d u hu v hv hranks hc hd 0
    h.world.config.kinship.similarityCacheCapacity (.empty 0) h.world.similarity (.empty 0) hmemo
  exact ⟨h, _, c, d, u, v, hrun, .between, hdistinct, hviews, hranks, hc, hd, hfirst.trans hstrangers,
    hsecond.trans hstrangers⟩

end Vivarium
