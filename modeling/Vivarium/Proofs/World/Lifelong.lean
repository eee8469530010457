import Vivarium.Proofs.Evolution.Sequence
import Vivarium.Proofs.World.Arena
import Vivarium.Proofs.World.Moments

/-!
# What creatures keep for life

A creature changes in its own turn and in those of others, by feeding, genes, attacks, births and hunger. None
of these touches what it is: its identity, body, lineage, traits, program, hue and the tick of its birth. To
say so at every moment, and not only after each call, the moments of a whole run are listed, from the bare
world on: those of setting it up, those of each tick, and the world after each other call.

From one moment to the next, whoever is alive was alive before under the same rank and is the same, or holds a
rank that was never given out before (`World.Succeeds`). So whoever holds a rank is the same at all moments at
which somebody holds it. What takes one moment to the next is the same for every such relation
(`World.Passage`), so a run is gone through once for all of them.

Main results: `History.timeline_passes`, `creatures_stay_what_they_are`.
-/

namespace Vivarium

/-- The hue is that of the program's genetic string. -/
def Creature.Hued (c : Creature) : Prop := c.hue = geneticHue c.program.geneticString

/-- The same creature has the same program and the same hue. -/
theorem Creature.Same.hued {c d : Creature} (h : c.Same d) (hc : c.Hued) : d.Hued := by
  unfold Creature.Hued
  rw [h.hue_eq, h.program_eq]
  exact hc

variable {E : Type}

/-- A newborn has the hue of its program. -/
theorem Creature.Newborn.hued [Physics E] {seed : Seed} {tick : Nat} {e : E} {c : Creature}
    (h : c.Newborn seed tick e) : c.Hued := by
  unfold Creature.Hued
  rw [h.hue_eq, h.program_eq]

namespace World

variable {w w' w'' : World E}

/-! ## From an earlier moment to a later one -/

/-- Whoever holds in `w'` a rank that was given out by the time of `w` was alive in `w` and is the same. -/
structure Precedes (w w' : World E) : Prop where
  lastRank_le : w.lastRank ≤ w'.lastRank
  kept        : ∀ rank d, w'.creatures.get? rank = some d → rank.number ≤ w.lastRank →
    ∃ c, w.creatures.get? rank = some c ∧ c.Same d

theorem Precedes.trans (h : w.Precedes w') (h' : w'.Precedes w'') : w.Precedes w'' := by
  refine ⟨h.lastRank_le.trans h'.lastRank_le, fun rank e he hle => ?_⟩
  obtain ⟨d, hd, hde⟩ := h'.kept rank e he (hle.trans h.lastRank_le)
  obtain ⟨c, hc, hcd⟩ := h.kept rank d hd hle
  exact ⟨c, hc, hcd.trans hde⟩

/-- Whoever holds the same rank at both moments is the same. -/
theorem Precedes.same (h : w.Precedes w') (hranked : w.Ranked) {rank : Rank} {c d : Creature}
    (hc : w.creatures.get? rank = some c) (hd : w'.creatures.get? rank = some d) : c.Same d := by
  have hle := hranked.le rank (List.mem_append_left _ (Table.mem_keys_of_get? hc))
  obtain ⟨c', hc', hsame⟩ := h.kept rank d hd hle
  rw [hc] at hc'
  cases hc'
  exact hsame

/-! ## From one moment to the next -/

variable [Physics E]

/-- How somebody new appears right after `w`: by arriving, or, as one of the guests, by being put in from
outside. -/
inductive Appears (guests : List Ident) (w : World E) (d : Creature) : Prop
  | arrived {seed : Seed} {es : List Event} (h : w.Arrives seed d es)
  | invited {seed : Seed} (hguest : d.id ∈ guests) (h : d.Newborn seed w.tick w.enclosure)

/-- The moment `w'` comes right after `w`: whoever is alive in it was alive before and is the same, or has
just appeared under a new rank. -/
structure Succeeds (guests : List Ident) (w w' : World E) : Prop where
  ranked      : w.Ranked → w'.Ranked
  lastRank_le : w.lastRank ≤ w'.lastRank
  origin      : ∀ rank d, w'.creatures.get? rank = some d →
    (∃ c, w.creatures.get? rank = some c ∧ c.Same d) ∨ w.lastRank < rank.number ∧ Appears guests w d

namespace Succeeds

variable {guests : List Ident}

/-- Nobody came and nobody left. -/
theorem of_creatures_eq (hranked : w.Ranked → w'.Ranked) (hlast : w.lastRank ≤ w'.lastRank)
    (hcreatures : w'.creatures = w.creatures) : Succeeds guests w w' := by
  refine ⟨hranked, hlast, fun rank d hd => .inl ⟨d, ?_, .refl d⟩⟩
  rwa [hcreatures] at hd

/-- Hues are those of the genetic strings from one moment to the next. -/
theorem hued (h : Succeeds guests w w') (hall : w.All Creature.Hued) : w'.All Creature.Hued := by
  intro rank d hd
  rcases h.origin rank d hd with ⟨c, hc, hsame⟩ | ⟨-, happears⟩
  · exact hsame.hued (hall rank c hc)
  · cases happears with
    | arrived harrives =>
      cases harrives with
      | fresh _ hnewborn => exact hnewborn.hued
      | child _ _ _ _ _ hnewborn => exact hnewborn.hued
    | invited _ hnewborn => exact hnewborn.hued

/-- Whoever appears and is neither a guest nor without a parent has a parent among the living. A child
whose lineage counts no more mutations than its parent's has the parent's genetic string. -/
theorem parent_of_new (h : Succeeds guests w w') {rank : Rank} {d : Creature}
    (hd : w'.creatures.get? rank = some d) (hnew : w.creatures.get? rank = none) :
    d.id ∈ guests ∨ d.lineage.parentId = none ∨
      ∃ rank' parent, w.creatures.get? rank' = some parent ∧ d.lineage.parentId = some parent.id ∧
        (d.lineage.mutations = parent.lineage.mutations →
          d.program.geneticString = parent.program.geneticString) := by
  rcases h.origin rank d hd with ⟨c, hc, -⟩ | ⟨-, happears⟩
  · rw [hnew] at hc
    cases hc
  cases happears with
  | invited hguest _ => exact .inl hguest
  | arrived harrives =>
    cases harrives with
    | fresh _ hnewborn =>
      refine .inr (.inl ?_)
      exact congrArg (·.parentId) hnewborn.lineage_eq
    | @child rank' parent o _ lineage _ hparent _ _ hreproduced hlineage hnewborn =>
      have hline : d.lineage = lineage := hnewborn.lineage_eq
      have hprogram : d.program = o.program := hnewborn.program_eq
      rw [hline, hprogram, Birth.childLineage_inv hlineage]
      refine .inr (.inr ⟨rank', parent, hparent, rfl, fun hsame => ?_⟩)
      -- a counter that did not go up was not added to
      have hplain : o.mutated = false := by
        change parent.lineage.mutations + o.mutated.toNat = parent.lineage.mutations at hsame
        cases hmutated : o.mutated with
        | false => rfl
        | true =>
          rw [hmutated] at hsame
          exact absurd hsame (Nat.succ_ne_self _)
      have hindices := hreproduced.resequenced
      rw [hreproduced.operator_of_plain hplain] at hindices
      exact Program.geneticString_eq_of_indices hindices

end Succeeds

/-- What comes right after a moment comes later. -/
theorem Succeeds.precedes {guests : List Ident} (h : Succeeds guests w w') : w.Precedes w' := by
  refine ⟨h.lastRank_le, fun rank d hd hle => ?_⟩
  -- a rank that was given out already is not new
  rcases h.origin rank d hd with hbefore | ⟨hnew, -⟩
  · exact hbefore
  · exact absurd hle (Nat.not_le_of_lt hnew)

/-- Where each moment comes right after the one before it, what is said of two moments in a row holds of any
two in order. -/
theorem pairwise_precedes {guests : List Ident} {moments : List (World E)} (h : moments.IsChain (Succeeds guests)) :
    moments.Pairwise Precedes := by
  have : Trans (Precedes (E := E)) Precedes Precedes := ⟨fun h h' => h.trans h'⟩
  exact List.isChain_iff_pairwise.mp (h.imp fun _ _ hnext => hnext.precedes)

variable [LawfulPhysics E]

/-- The relation holds from each moment to the next, as long as nobody is put in from outside: wherever nothing
happens or a single change, where a tick is opened, and where the births of the setting up are put off. -/
structure Passage (R : World E → World E → Prop) : Prop where
  refl    : ∀ w, R w w
  change  : ∀ {w w' : World E} {es : List Event}, w.Change es w' → R w w'
  opening : ∀ {w : World E} {t : TickCall} {start : Stage E}, w.openingBy t = .ok start → R w start.world
  pended  : ∀ (w : World E) (pendingEvents : List Event), R w { w with pendingEvents }

namespace Passage

variable {R : World E → World E → Prop}

/-- No part of a turn does more than one change. -/
theorem moves (hR : Passage R) {s s' : Stage E} (h : s.Moves s') : R s.world s'.world := by
  cases h with
  | refl => exact hR.refl _
  | single hstep =>
    rcases hstep.change with rfl | ⟨es, hchange, -⟩
    · exact hR.refl _
    · exact hR.change hchange

/-- A fresh creature is one change. -/
theorem spawnFresh (hR : Passage R) {e : Event} (h : w.spawnFresh = .ok (e, w')) : R w w' := by
  obtain ⟨seed, c, w₁, harrives, hquiet, rfl⟩ := w.spawnFresh_born.of_ok h
  exact hR.change (.born harrives hquiet)

end Passage

namespace Succeeds

variable {guests : List Ident}

/-- A change leads from a moment to the next. -/
theorem change {es : List Event} (h : w.Change es w') : Succeeds guests w w' := by
  refine ⟨fun hranked => hranked.change h, h.lastRank_le, fun rank d hd => ?_⟩
  rcases h.origin hd with ⟨c, hc, hlives⟩ | ⟨seed, harrives, hnew⟩
  · exact .inl ⟨c, hc, hlives.toSame⟩
  · exact .inr ⟨hnew, .arrived harrives⟩

/-- The opening of a tick brings nobody. -/
theorem opening {t : TickCall} {start : Stage E} (h : w.openingBy t = .ok start) :
    Succeeds guests w start.world := by
  obtain ⟨w₁, rfl, hcourse, hcreatures⟩ := (w.openingBy_ensures t).of_ok h
  refine of_creatures_eq (fun hranked => ?_) hcourse.lastRank_le hcreatures
  have hcounted : w.counted.Ranked := hranked.retold _ _ _
  exact hcounted.course hcourse

/-- Whoever is put in from outside is a guest. -/
theorem insertCreature {seed : Seed} {id : Ident} (h : w.insertCreature seed = .ok (id, w'))
    (hguest : id ∈ guests) : Succeeds guests w w' := by
  obtain ⟨c, source, rfl, hnewborn, rfl⟩ := insertCreature_inv h
  refine ⟨fun hranked => ?_, Nat.le_succ _, fun rank d hd => ?_⟩
  · have hbodied : Ranked { w with enclosure := seed.bodied w.enclosure } := hranked.retold _ _ _
    exact (hbodied.quiet (.memory _ source w.similarity)).spawnCreature c
  · -- the guest stands under the rank after the last one, and the others where they stood
    change (w.creatures.insert ⟨w.lastRank + 1⟩ c).get? rank = some d at hd
    rw [Table.get?_insert] at hd
    split at hd
    · rename_i hrank
      cases hd
      rw [hrank]
      exact .inr ⟨Nat.lt_succ_self _, .invited hguest hnewborn⟩
    · exact .inl ⟨d, hd, .refl d⟩

/-- So all that is not done from outside leads from a moment to the next. -/
theorem passage : Passage (E := E) (Succeeds guests) where
  refl _     := of_creatures_eq id le_rfl rfl
  change     := change
  opening    := opening
  pended _ _ := of_creatures_eq (fun hranked => hranked.retold _ _ _) le_rfl rfl

end Succeeds

end World

/-! ## The moments of a run -/

namespace History

variable [Physics E]

/-- The moments of a call: those of a tick, and otherwise the world after it. -/
def callMoments (h : History E) : Call → List (World E)
  | .tick t => h.world.moments t
  | c       => (h.call c).andThen fun h' => [h'.world]

/-- The moments of calls, one after the other. -/
def moments : (calls : List Call) → History E → List (World E)
  | [], _         => []
  | c :: calls, h => h.callMoments c ++ (h.call c).andThen (moments calls)

/-- The moments of setting up a world: one for each fresh creature, and the world at the end. -/
def createMoments (config : Config) (enclosure : E) (entropy : BitVec 256) : List (World E) :=
  let bare := World.bare config enclosure entropy
  bare.spawnMoments bare.missing ++ (World.create config enclosure entropy).andThen fun w => [w]

/-- **All moments of a run**, from the bare world on. -/
def timeline (config : Config) (enclosure : E) (entropy : BitVec 256) (calls : List Call) : List (World E) :=
  World.bare config enclosure entropy :: (createMoments config enclosure entropy ++
    (World.create config enclosure entropy).andThen fun w => moments calls { world := w })

open World (Succeeds Passage)

section

variable {R : World E → World E → Prop}

/-- A call that is no tick has one moment. -/
theorem once_pass {h : History E} {c : Call}
    (hmoments : h.callMoments c = (h.call c).andThen fun h' => [h'.world])
    (hcall : ∀ h', h.call c = .ok h' → R h.world h'.world) :
    Outcome.Passes R (·.world) h.world (h.callMoments c) (h.call c) := by
  rw [hmoments]
  exact .once hcall

variable [LawfulPhysics E]

/-- Of the calls all but the ticks have one moment. -/
theorem called_passes (hR : Passage R) {h h' : History E} {c : Call} (hcall : h.Called c h')
    (hguest : ∀ seed id w', c = .insertCreature seed → h.world.insertCreature seed = .ok (id, w') →
      R h.world w') (hc : ∀ t, c ≠ .tick t) : R h.world h'.world := by
  cases hcall with
  | tick _ => exact absurd rfl (hc _)
  | guest hinsert => exact hguest _ _ _ rfl hinsert
  | change hchange => exact hR.change hchange

/-- The moments of a call follow each other. -/
theorem callMoments_pass (hR : Passage R) {h : History E} {c : Call}
    (hguest : ∀ seed id w', c = .insertCreature seed → h.world.insertCreature seed = .ok (id, w') →
      R h.world w') :
    Outcome.Passes R (·.world) h.world (h.callMoments c) (h.call c) := by
  cases c with
  | tick t =>
    have htick := World.moments_pass (w := h.world) (t := t) hR.spawnFresh hR.moves fun _ => hR.opening
    refine htick.ending ?_
    rintro ⟨events, w'⟩ h' hh'
    cases hh'
    rfl
  | _ => exact once_pass rfl fun h' hh' => called_passes hR (called_of_call hh') hguest nofun

/-- And so do those of all calls. The induction is on the calls, over the state as the first has left it. -/
theorem moments_pass (hR : Passage R) {calls : List Call} {h : History E}
    (hguests : ∀ before seed after h' id w', calls = before ++ .insertCreature seed :: after →
      before.foldlM call h = .ok h' → h'.world.insertCreature seed = .ok (id, w') → R h'.world w') :
    Outcome.Passes R (·.world) h.world (moments calls h) (calls.foldlM call h) := by
  -- by induction on the calls; who is put in by the rest of them is put in by all of them
  induction calls generalizing h with
  | nil => exact ⟨List.isChain_singleton _, fun h' hh' => by cases hh'; rfl⟩
  | cons c calls ih =>
    rw [List.foldlM_cons]
    refine (callMoments_pass hR fun seed id w' hc hinsert => ?_).bind fun h' hh' =>
      ih fun before seed after h'' id w' hcalls hbefore hinsert => ?_
    · exact hguests [] seed calls h id w' (congrArg (· :: calls) hc) rfl hinsert
    · refine hguests (c :: before) seed after h'' id w' (congrArg (c :: ·) hcalls) ?_ hinsert
      rw [List.foldlM_cons, hh']
      exact hbefore

/-- A world is set up by one fresh creature after the other. -/
theorem createMoments_pass (hR : Passage R) (config : Config) (enclosure : E) (entropy : BitVec 256) :
    Outcome.Passes R id (.bare config enclosure entropy)
      (createMoments config enclosure entropy) (World.create config enclosure entropy) := by
  have hfilled := World.spawnMoments_pass hR.spawnFresh
    (World.bare config enclosure entropy).missing (World.bare config enclosure entropy)
  unfold createMoments World.create
  split
  · refine ⟨?_, fun w hw => by cases hw⟩
    show List.IsChain R (_ :: (_ ++ []))
    rw [List.append_nil]
    exact hfilled.chain
  · rw [Outcome.andThen_bind]
    -- what was born is put off until the first tick
    exact hfilled.bind fun (births, w) _ => .single id (hR.pended w births)

/-- **From the bare world on, each moment of a run is related to the next**, if that is so for every passage and
for everybody who is put in; and the last moment is the world that the run returns. -/
theorem timeline_passes (hR : Passage R) {config : Config} {enclosure : E} {entropy : BitVec 256}
    {calls : List Call}
    (hguests : ∀ before seed after h id w', calls = before ++ .insertCreature seed :: after →
      run config enclosure entropy before = .ok h → h.world.insertCreature seed = .ok (id, w') →
      R h.world w') :
    Outcome.Passes R (·.world) (.bare config enclosure entropy)
      (createMoments config enclosure entropy ++
        (World.create config enclosure entropy).andThen fun w => moments calls { world := w })
      (run config enclosure entropy calls) := by
  refine (createMoments_pass hR config enclosure entropy).bind fun w hw => ?_
  refine moments_pass hR (h := { world := w }) fun before seed after h id w' hcalls hbefore hinsert => ?_
  refine hguests before seed after h id w' hcalls ?_ hinsert
  unfold run
  rw [hw]
  exact hbefore

end

/-- Further calls add their moments at the end. -/
theorem moments_append (before after : List Call) (h : History E) :
    moments (before ++ after) h = moments before h ++ (before.foldlM call h).andThen (moments after) := by
  induction before generalizing h with
  | nil => rfl
  | cons c before ih =>
    rw [List.cons_append, List.foldlM_cons]
    unfold moments
    -- a call that fails ends the course, and there is nothing to append to
    cases hcall : h.call c with
    | error failure => simp [Outcome.andThen, bind, Except.bind]
    | ok h' =>
      show _ ++ moments (before ++ after) h' = (_ ++ moments before h') ++ _
      rw [ih, List.append_assoc]
      rfl

/-! ## Identities -/

/-- From `h` to the later `h'` the new identities were drawn, and whoever is alive was alive before under the
same rank and is the same, or has one of them. Guests are never forgotten. -/
structure Grows (new : List Ident) (h h' : History E) : Prop where
  drawn  : h'.drawn.Perm (h.drawn ++ new)
  guests : h.guests ⊆ h'.guests
  origin : ∀ rank d, h'.world.creatures.get? rank = some d →
    (∃ c, h.world.creatures.get? rank = some c ∧ c.Same d) ∨ d.id ∈ new

namespace Grows

variable {new : List Ident} {h h' h'' : History E}

omit [Physics E] in
theorem refl (h : History E) : Grows [] h h :=
  ⟨.of_eq (List.append_nil _).symm, List.Subset.refl _, fun _ d hd => .inl ⟨d, hd, .refl d⟩⟩

omit [Physics E] in
theorem trans {more : List Ident} (hgrows : Grows new h h') (hgrows' : Grows more h' h'') :
    Grows (new ++ more) h h'' := by
  refine ⟨?_, List.Subset.trans hgrows.guests hgrows'.guests, fun rank e he => ?_⟩
  · rw [← List.append_assoc]
    exact hgrows'.drawn.trans (hgrows.drawn.append_right more)
  · rcases hgrows'.origin rank e he with ⟨d, hd, hde⟩ | hmore
    · rcases hgrows.origin rank d hd with ⟨c, hc, hcd⟩ | hnew
      · exact .inl ⟨c, hc, hcd.trans hde⟩
      · rw [hde.id_eq]
        exact .inr (List.mem_append_left _ hnew)
    · exact .inr (List.mem_append_right _ hmore)

/-- To put a creature in draws one identity. -/
theorem insertCreature {seed : Seed} {id : Ident} {w' : World E}
    (hinsert : h.world.insertCreature seed = .ok (id, w')) :
    Grows [id] h { h with world := w', guests := h.guests ++ [id] } := by
  obtain ⟨c, source, rfl, -, rfl⟩ := World.insertCreature_inv hinsert
  refine ⟨?_, List.subset_append_left _ _, fun rank d hd => ?_⟩
  · -- guests are listed before the newborn, so the new name is moved to the end
    show ((h.guests ++ [c.id]) ++ births (h.log ++ h.world.pendingEvents)).Perm (h.drawn ++ [c.id])
    rw [List.append_assoc]
    exact List.perm_middle.trans (List.perm_append_singleton _ _).symm
  · change (h.world.creatures.insert _ c).get? rank = some d at hd
    rw [Table.get?_insert] at hd
    split at hd
    · cases hd
      exact .inr (List.mem_singleton_self _)
    · exact .inl ⟨d, hd, .refl d⟩

variable [LawfulPhysics E]

/-- A change without births draws no identity. -/
theorem change {w' : World E} (hchange : h.world.Change [] w') : Grows [] h { h with world := w' } := by
  refine ⟨.of_eq ?_, List.Subset.refl _, fun rank d hd => ?_⟩
  · show h.guests ++ births (h.log ++ w'.pendingEvents) = _
    rw [hchange.frame.2.2, List.append_nil]
    rfl
  · rcases hchange.origin hd with ⟨c, hc, hlives⟩ | ⟨seed, harrives, -⟩
    · exact .inl ⟨c, hc, hlives.toSame⟩
    · have hborn : births [] = [d.id] := harrives.births_eq
      cases hborn

/-- A tick draws the identities whose births it tells. -/
theorem tick {t : TickCall} {events : List Event} {w' : World E}
    (htick : h.world.tickBy t = .ok (events, w')) :
    ∃ new, Grows new h { h with world := w', log := h.log ++ events } := by
  obtain ⟨es, hcourse, hevents⟩ := (h.world.tickBy_ensures t).of_ok htick
  refine ⟨births es, .of_eq (drawn_tick hcourse hevents), List.Subset.refl _, fun rank d hd => ?_⟩
  rcases hcourse.origin hd with ⟨c, hc, hlives⟩ | ⟨hborn, -⟩
  · exact .inl ⟨c, hc, hlives.toSame⟩
  · exact .inr hborn

/-- Any call draws some identities. -/
theorem call {c : Call} (hcall : h.call c = .ok h') : ∃ new, Grows new h h' := by
  cases called_of_call hcall with
  | tick htick => exact tick htick
  | guest hinsert => exact ⟨_, insertCreature hinsert⟩
  | change hchange => exact ⟨_, change hchange⟩

/-- So do any number of calls, one after the other. -/
theorem calls {calls : List Call} (hcalls : calls.foldlM History.call h = .ok h') :
    ∃ new, Grows new h h' := by
  induction calls generalizing h with
  | nil =>
    cases hcalls
    exact ⟨[], .refl _⟩
  | cons c calls ih =>
    rw [List.foldlM_cons] at hcalls
    obtain ⟨h₁, hfirst, hrest⟩ := except_bind_inv hcalls
    -- the names that are drawn by the first call come before those of the others
    obtain ⟨new, hgrows⟩ := call hfirst
    obtain ⟨more, hgrows'⟩ := ih hrest
    exact ⟨new ++ more, hgrows.trans hgrows'⟩

/-- **An identity belongs to one creature.** If no identity is drawn twice, whoever has the same identity
before and after has the same rank and is the same. -/
theorem same_of_id_eq (hgrows : Grows new h h') (htracked : h.Tracked) (hdistinct : h'.drawn.Nodup)
    {rank rank' : Rank} {c d : Creature} (hc : h.world.creatures.get? rank = some c)
    (hd : h'.world.creatures.get? rank' = some d) (hid : d.id = c.id) : rank' = rank ∧ c.Same d := by
  obtain ⟨hbefore, -, hdisjoint⟩ := List.nodup_append.mp (hgrows.drawn.nodup_iff.mp hdistinct)
  obtain ⟨hcoherent, hmem⟩ := htracked hbefore
  rcases hgrows.origin rank' d hd with ⟨c', hc', hsame⟩ | hnew
  · -- both were alive before, where each is found by its identity
    have hfind (rank : Rank) := hcoherent.creatureOfId.get?_eq_some_iff hcoherent.creatures_nodup
      hcoherent.living_nodup (b := c.id) (k := rank)
    have hrank := (hfind rank).mpr ⟨c, hc, rfl⟩
    have hrank' := (hfind rank').mpr ⟨c', hc', hsame.id_eq.symm.trans hid⟩
    rw [hrank, Option.some.injEq] at hrank'
    subst hrank'
    rw [hc, Option.some.injEq] at hc'
    exact ⟨rfl, hc' ▸ hsame⟩
  · -- the identity was drawn before, when `c` had it, and is none of the new ones
    have hold := hmem c.id (List.mem_map_of_mem (Table.mem_values_of_get? hc))
    exact absurd hid.symm (hdisjoint _ hold _ hnew)

end Grows

/-! ## The moments of a whole run -/

section

variable {config : Config} {enclosure : E} {entropy : BitVec 256} {calls before after : List Call}
  {h h' : History E}

/-- A run went through the state that the first part of its calls led to. -/
theorem run_append_inv (hrun : run config enclosure entropy (before ++ after) = .ok h') :
    ∃ h, run config enclosure entropy before = .ok h ∧ after.foldlM call h = .ok h' := by
  obtain ⟨w, hw, hcalls⟩ := except_bind_inv hrun
  rw [List.foldlM_append] at hcalls
  obtain ⟨h, hbefore, hafter⟩ := except_bind_inv hcalls
  refine ⟨h, ?_, hafter⟩
  unfold run
  rw [hw]
  exact hbefore

/-- More calls add their moments at the end. -/
theorem timeline_append (hrun : run config enclosure entropy before = .ok h) (after : List Call) :
    timeline config enclosure entropy (before ++ after) =
      timeline config enclosure entropy before ++ moments after h := by
  obtain ⟨w, hw, hcalls⟩ := except_bind_inv hrun
  have hmoments := moments_append before after { world := w }
  rw [hcalls] at hmoments
  unfold timeline
  rw [hw, List.cons_append, List.append_assoc]
  exact congrArg (_ :: _ ++ ·) hmoments

variable [LawfulPhysics E]

/-- **Each moment of a run comes right after the one before it**, and the last is the world that the run
returns. -/
theorem timeline_pass (hrun : run config enclosure entropy calls = .ok h) :
    Outcome.Passes (Succeeds h.guests) (·.world) (.bare config enclosure entropy)
      (createMoments config enclosure entropy ++
        (World.create config enclosure entropy).andThen fun w => moments calls { world := w })
      (run config enclosure entropy calls) := by
  refine timeline_passes Succeeds.passage ?_
  rintro before seed after h₁ id w' rfl hbefore hinsert
  -- whoever is put in on the way is among the guests of the end, since none is forgotten
  obtain ⟨_, hbefore', hafter⟩ := run_append_inv hrun
  rw [hbefore, Except.ok.injEq] at hbefore'
  subst hbefore'
  rw [List.foldlM_cons] at hafter
  obtain ⟨h₂, hcall, hafter⟩ := except_bind_inv hafter
  obtain ⟨⟨id', w''⟩, hinsert', hpure⟩ := except_bind_inv hcall
  cases hpure
  cases hinsert.symm.trans (Outcome.ofFault_inv hinsert')
  obtain ⟨new, hgrows⟩ := Grows.calls hafter
  exact .insertCreature hinsert (hgrows.guests List.mem_concat_self)

/-- What holds of the bare world, and from one moment to the next, holds at every moment. -/
theorem timeline_forall {P : World E → Prop} (hrun : run config enclosure entropy calls = .ok h)
    (hcarry : ∀ ⦃w w' : World E⦄, Succeeds h.guests w w' → P w → P w')
    (hbare : P (.bare config enclosure entropy)) : ∀ w ∈ timeline config enclosure entropy calls, P w :=
  List.forall_mem_cons.mpr ⟨hbare, (timeline_pass hrun).forall_mem hcarry hbare⟩

/-- The world after any part of the calls is one of the moments. -/
theorem world_mem_timeline (hrun : run config enclosure entropy before = .ok h) (after : List Call) :
    h.world ∈ timeline config enclosure entropy (before ++ after) := by
  rw [timeline_append hrun]
  exact List.mem_append_left _ (List.mem_of_getLast? ((timeline_pass hrun).last h hrun))

end

end History

variable [Physics E] [LawfulPhysics E]

/-- **Creatures stay what they are.** A world is set up and any calls are made, in any order: ticks with or
without a step of the bodies, creatures and pellets put in, masses set, genomes compared. The states after the
calls are among the moments of the run, and whoever has an identity after some of the calls and after all of
them is the same, if no identity was drawn twice. At any two moments, be they in the middle of a tick, whoever
holds a rank is the same: in identity, body, lineage, traits, program, hue and the tick of birth. At each
moment hues are those of the genetic strings. From one moment to the next, whoever is new was put in, or has
no parent, or has one among the living, and if the child's lineage counts no more mutations than the parent's,
it has the parent's genetic string and hue. -/
theorem creatures_stay_what_they_are {config : Config} {enclosure : E}
    (hempty : Physics.handles enclosure = []) {entropy : BitVec 256} {calls : List Call} {h : History E}
    (hrun : History.run config enclosure entropy calls = .ok h) (hdistinct : h.drawn.Nodup) :
    (∀ before after, calls = before ++ after → ∃ h₁,
      History.run config enclosure entropy before = .ok h₁ ∧
      h₁.world ∈ History.timeline config enclosure entropy calls ∧
      ∀ rank rank' c d, h₁.world.creatures.get? rank = some c → h.world.creatures.get? rank' = some d →
        d.id = c.id → rank' = rank ∧ c.Same d) ∧
    ((History.timeline config enclosure entropy calls).Pairwise fun w w' =>
      ∀ rank c d, w.creatures.get? rank = some c → w'.creatures.get? rank = some d → c.Same d) ∧
    (∀ w ∈ History.timeline config enclosure entropy calls, ∀ rank c,
      w.creatures.get? rank = some c → c.hue = geneticHue c.program.geneticString) ∧
    (History.timeline config enclosure entropy calls).IsChain fun w w' =>
      ∀ rank d, w'.creatures.get? rank = some d → w.creatures.get? rank = none →
        d.id ∈ h.guests ∨ d.lineage.parentId = none ∨
        ∃ rank' parent, w.creatures.get? rank' = some parent ∧ d.lineage.parentId = some parent.id ∧
          (d.lineage.mutations = parent.lineage.mutations →
            d.program.geneticString = parent.program.geneticString ∧ d.hue = parent.hue) := by
  have hchain := (History.timeline_pass hrun).chain
  have hranked := History.timeline_forall hrun (fun _ _ hnext => hnext.ranked) (World.Ranked.bare ..)
  have hbare : (World.bare config enclosure entropy).All Creature.Hued :=
    fun _ _ hc => by cases hc
  have hhued := History.timeline_forall hrun (fun _ _ hnext => hnext.hued) hbare
  refine ⟨?_, ?_, hhued, ?_⟩
  · -- between calls, by identity
    rintro before after rfl
    obtain ⟨h₁, hbefore, hafter⟩ := History.run_append_inv hrun
    refine ⟨h₁, hbefore, History.world_mem_timeline hbefore after, fun rank rank' c d hc hd hid => ?_⟩
    obtain ⟨new, hgrows⟩ := History.Grows.calls hafter
    exact hgrows.same_of_id_eq (History.tracked_run hempty hbefore) hdistinct hc hd hid
  · -- between any two moments, by rank
    refine (World.pairwise_precedes hchain).imp_of_mem fun hw _ hprecedes rank c d hc hd => ?_
    exact hprecedes.same (hranked _ hw) hc hd
  · -- from one moment to the next; equal strings have equal hues
    refine hchain.imp_of_mem_imp fun w w' hw hw' hnext rank d hd hnew => ?_
    refine (hnext.parent_of_new hd hnew).imp_right (Or.imp_right ?_)
    rintro ⟨rank', parent, hparent, hid, hplain⟩
    refine ⟨rank', parent, hparent, hid, fun hsame => ?_⟩
    have hstring := hplain hsame
    have hchild : d.hue = geneticHue d.program.geneticString := hhued w' hw' rank d hd
    have hown : parent.hue = geneticHue parent.program.geneticString := hhued w hw rank' parent hparent
    exact ⟨hstring, by rw [hchild, hown, hstring]⟩

/-- Fifteen genes, all of which replicate. -/
def Program.budding : Program where
  genes     := (List.range 15).map fun i => ⟨.ofNat i, 14, 5, .replicate⟩
  isProgram := ⟨by decide, by decide, by decide⟩

/-- A creature whose children are not changed is put in and has a child in the tick after that. -/
def budding : List Call :=
  [.insertCreature
    { program := .budding, position := ⟨30.0, 40.0⟩, mass := 400.0, traits := { mutationRate := 0.0 } },
    .tick .update]

/-- It is the same after the tick as it was when it was put in, and its child has a hue of its genome. -/
theorem creatures_stay_what_they_are_budding :
    ∃ h₁ h before parent child,
      History.run .deserted (Enclosure.empty 1280.0 720.0) 0 (budding.take 1) = .ok h₁ ∧
      History.run .deserted (Enclosure.empty 1280.0 720.0) 0 budding = .ok h ∧ h.drawn.Nodup ∧
      h₁.world.creatures.get? ⟨1⟩ = some before ∧ h.world.creatures.get? ⟨1⟩ = some parent ∧
      before.hunger ≠ parent.hunger ∧ before.Same parent ∧
      h.world.creatures.get? ⟨3⟩ = some child ∧ child.lineage.parentId = some parent.id ∧
      child.lineage.mutations = parent.lineage.mutations ∧
      child.hue = geneticHue child.program.geneticString := by
  -- who the three creatures are is computed, and that they have stayed so is taken from the theorem
  have hcheck : (History.run .deserted (Enclosure.empty 1280.0 720.0) 0 (budding.take 1)).toOption.any (fun h₁ =>
      (History.run .deserted (Enclosure.empty 1280.0 720.0) 0 budding).toOption.any fun h =>
        (h₁.world.creatures.get? ⟨1⟩).any fun before => (h.world.creatures.get? ⟨1⟩).any fun parent =>
          (h.world.creatures.get? ⟨3⟩).any fun child =>
            decide (h.drawn.Nodup ∧ before.hunger ≠ parent.hunger ∧ before.id = parent.id ∧
              child.lineage.parentId = some parent.id ∧
              child.lineage.mutations = parent.lineage.mutations)) = true := by
    decide +kernel
  obtain ⟨h₁, hfirst, hcheck⟩ := except_any_inv hcheck
  obtain ⟨h, hrun, hcheck⟩ := except_any_inv hcheck
  obtain ⟨before, hbefore, hcheck⟩ := (Option.any_eq_true _ _).mp hcheck
  obtain ⟨parent, hparent, hcheck⟩ := (Option.any_eq_true _ _).mp hcheck
  obtain ⟨child, hchild, hcheck⟩ := (Option.any_eq_true _ _).mp hcheck
  obtain ⟨hdistinct, hhungry, hid, hborn, hplain⟩ := of_decide_eq_true hcheck
  obtain ⟨hcalls, -, hhued, -⟩ := creatures_stay_what_they_are rfl hrun hdistinct
  obtain ⟨h₁', hfirst', -, hsame⟩ := hcalls (budding.take 1) (budding.drop 1) rfl
  rw [hfirst] at hfirst'
  cases hfirst'
  obtain ⟨-, hstays⟩ := hsame ⟨1⟩ ⟨1⟩ before parent hbefore hparent hid.symm
  have hlast : h.world ∈ History.timeline .deserted (Enclosure.empty 1280.0 720.0) 0 budding := by
    have hmem := History.world_mem_timeline hrun []
    rwa [List.append_nil] at hmem
  exact ⟨h₁, h, before, parent, child, hfirst, hrun, hdistinct, hbefore, hparent, hhungry, hstays, hchild,
    hborn, hplain, hhued _ hlast _ _ hchild⟩

end Vivarium
