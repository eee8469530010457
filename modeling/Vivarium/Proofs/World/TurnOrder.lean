import Vivarium.Proofs.World.Newcomers
import Vivarium.Proofs.World.Requests

/-!
# Who has a turn in a tick

The turns of a tick go down the list of those who were alive when it began. On the way some of these are
killed and others are born, so the world that a turn finds is not the one that the list was made of. Still
each creature of the list that is alive when it is reached has the four passes of its turn, each of them
once, and a creature that was killed before has none; who is killed is told by a death, and by nothing
else. Newcomers are not on the list, so they stay as they were born.

To speak of passes, the turns are run once more with notes: `Stage.notedTurns` does what `Stage.turns` does
and writes down which pass ran on which creature.

Main result: `turns_follow_snapshot`.
-/

namespace Vivarium

variable {E : Type}

namespace World

/-! ## Fates -/

/-- What has become of a creature since some events were told: it lives and its death was not told, or it
is gone, for good, and its death was told. -/
inductive Fate (rank : Rank) (c : Creature) (es : List Event) (w : World E) : Prop
  | alive {d : Creature} (hd : w.creatures.get? rank = some d) (hlives : c.Lives d)
      (htold : ∀ age tick, Event.death c.id age tick ∉ es)
  | dead {age tick : Nat} (hgone : w.creatures.get? rank = none) (hle : rank.number ≤ w.lastRank)
      (htold : Event.death c.id age tick ∈ es)

/-- Who is there is who was not told to have died. -/
theorem Fate.mem_keys_iff {rank : Rank} {c : Creature} {es : List Event} {w : World E}
    (h : w.Fate rank c es) :
    rank ∈ w.creatures.keys ↔ ∀ age tick, Event.death c.id age tick ∉ es := by
  -- who is alive has not been told of as dead, and who is gone has been
  cases h with
  | alive hd _ htold => exact ⟨fun _ => htold, fun _ => Table.mem_keys_of_get? hd⟩
  | dead hgone _ htold =>
    constructor
    · intro hmem
      exact absurd hmem (Table.get?_eq_none_iff.mp hgone)
    · intro hnone
      exact absurd htold (hnone _ _)

/-- Distinct identities tell ranks apart. -/
theorem rank_eq_of_id_eq {w : World E} (hliving : w.living.Nodup) {rank rank' : Rank} {c d : Creature}
    (hc : w.creatures.get? rank = some c) (hd : w.creatures.get? rank' = some d) (hid : c.id = d.id) :
    rank = rank' := by
  unfold living Table.values at hliving
  rw [List.map_map] at hliving
  have heq := List.inj_on_of_nodup_map hliving (Table.mem_entries_of_get? hc)
    (Table.mem_entries_of_get? hd) hid
  exact congrArg Prod.fst heq

section

variable [Physics E] [LawfulPhysics E] {w w' : World E} {rank : Rank} {c : Creature} {es : List Event}

/-- The death of a living creature takes it out of the world, and is told. -/
theorem Change.fate (h : w.Change es w') (hranked : w.Ranked) (hliving : w.living.Nodup)
    (hc : w.creatures.get? rank = some c) : w'.Fate rank c es := by
  have hmem : rank ∈ w.ranks := List.mem_append_left _ (Table.mem_keys_of_get? hc)
  have hle : rank.number ≤ w.lastRank := hranked.le rank hmem
  -- only a death tells of a death, and a birth is under a rank that nobody has had
  cases h with
  | quiet hquiet =>
    obtain ⟨d, hd, hlives⟩ := hquiet.lives rank c hc
    exact .alive hd hlives (by simp)
  | struck _ _ hquiet =>
    obtain ⟨d, hd, hlives⟩ := hquiet.lives rank c hc
    exact .alive hd hlives (by simp)
  | pellet hspawn =>
    obtain ⟨source, -, -, rfl⟩ := spawnPellet_inv hspawn
    exact .alive hc (.refl c) (by simp)
  | eaten _ hremoved hquiet =>
    obtain ⟨-, rfl⟩ := removePellet_inv hremoved
    obtain ⟨d, hd, hlives⟩ := hquiet.lives rank c hc
    exact .alive hd hlives (by simp)
  | @died rank' d _ _ hremoved =>
    obtain ⟨hd, rfl⟩ := removeCreature_inv hremoved
    by_cases hrank : rank = rank'
    · subst hrank
      rw [hc, Option.some.injEq] at hd
      subst hd
      refine .dead ?_ hle (List.mem_singleton_self _)
      show (w.creatures.erase rank).get? rank = none
      rw [Table.get?_erase, if_pos rfl]
    · refine .alive (d := c) ?_ (.refl c) fun age tick htold => ?_
      · show (w.creatures.erase rank').get? rank = some c
        rw [Table.get?_erase, if_neg hrank]
        exact hc
      · -- the one who died has an identity of its own
        rw [List.mem_singleton, Event.death.injEq] at htold
        exact hrank (rank_eq_of_id_eq hliving hc hd htold.1)
  | @born seed newborn _ w₁ harrives hquiet =>
    obtain ⟨d, hd, hlives⟩ := hquiet.lives rank c hc
    refine .alive (d := d) ?_ hlives fun age tick htold => ?_
    · show (w₁.creatures.insert ⟨w₁.lastRank + 1⟩ newborn).get? rank = some d
      rw [Table.get?_insert, if_neg ?_]
      · exact hd
      · rintro rfl
        have hlast : w₁.lastRank = w.lastRank := hquiet.lastRank_eq
        change w₁.lastRank + 1 ≤ w.lastRank at hle
        omega
    · cases harrives with
      | fresh _ _ => simp at htold
      | @child _ _ o _ _ _ _ _ _ _ _ _ => cases hop : o.operator <;> simp [hop] at htold

/-- No rank that was given out is given out again. -/
theorem Change.gone (h : w.Change es w') (hgone : w.creatures.get? rank = none)
    (hle : rank.number ≤ w.lastRank) :
    w'.creatures.get? rank = none ∧ rank.number ≤ w'.lastRank := by
  -- a quiet change brings nobody back
  have quiet {v v' : World E} (hquiet : v.Quiet v') (hnone : v.creatures.get? rank = none)
      (hle : rank.number ≤ v.lastRank) :
      v'.creatures.get? rank = none ∧ rank.number ≤ v'.lastRank := by
    rw [Table.get?_eq_none_iff, hquiet.keys_eq, hquiet.lastRank_eq]
    exact ⟨Table.get?_eq_none_iff.mp hnone, hle⟩
  cases h with
  | quiet hquiet => exact quiet hquiet hgone hle
  | struck _ _ hquiet => exact quiet hquiet hgone hle
  | pellet hspawn =>
    obtain ⟨source, -, -, rfl⟩ := spawnPellet_inv hspawn
    exact ⟨hgone, Nat.le_succ_of_le hle⟩
  | eaten _ hremoved hquiet =>
    obtain ⟨-, rfl⟩ := removePellet_inv hremoved
    exact quiet hquiet hgone hle
  | @died rank' _ _ _ hremoved =>
    obtain ⟨-, rfl⟩ := removeCreature_inv hremoved
    refine ⟨?_, hle⟩
    show (w.creatures.erase rank').get? rank = none
    rw [Table.get?_erase, hgone, ite_self]
  | @born seed newborn _ w₁ _ hquiet =>
    obtain ⟨hnone, hle'⟩ := quiet hquiet hgone hle
    refine ⟨?_, Nat.le_succ_of_le hle'⟩
    show (w₁.creatures.insert ⟨w₁.lastRank + 1⟩ newborn).get? rank = none
    rw [Table.get?_insert, if_neg ?_]
    · exact hnone
    · rintro rfl
      change w₁.lastRank + 1 ≤ w₁.lastRank at hle'
      omega

/-- **Every creature meets one fate**: it is there until its death is told, and not afterwards. -/
theorem Course.fate (h : w.Course es w') (hranked : w.Ranked) (hdistinct : (w.living ++ births es).Nodup)
    (hc : w.creatures.get? rank = some c) : w'.Fate rank c es := by
  -- the induction is on the course: the dead stay dead, and the living meet their fate in the last change
  induction h with
  | refl => exact .alive hc (.refl c) (by simp)
  | @step w' w'' es fs hcourse hchange ih =>
    rw [births_append, ← List.append_assoc] at hdistinct
    have hbefore : (w.living ++ births es).Nodup := (List.nodup_append.mp hdistinct).1
    have hliving : w'.living.Nodup := by
      rw [hcourse.living_eq hranked hbefore]
      exact hbefore.sublist (replay_sublist es w.living)
    cases ih hbefore with
    | dead hgone hle htold =>
      obtain ⟨hgone', hle'⟩ := hchange.gone hgone hle
      exact .dead hgone' hle' (List.mem_append_left _ htold)
    | alive hd hlives htold =>
      cases hchange.fate (hranked.course hcourse) hliving hd with
      | alive hd' hlives' htold' =>
        refine .alive hd' (hlives.trans hlives') fun age tick hmem => ?_
        rw [hlives.id_eq] at htold'
        rcases List.mem_append.mp hmem with hmem | hmem
        · exact htold age tick hmem
        · exact htold' age tick hmem
      | dead hgone hle htold' =>
        rw [hlives.id_eq] at htold'
        exact .dead hgone hle (List.mem_append_right _ htold')

end

end World

/-! ## Turns with notes -/

/-- What runs on a creature in its turn. -/
inductive Pass where
  | feeding
  | laser
  | genes
  | metabolism
deriving DecidableEq, Repr

/-- The passes of a turn, in order. -/
def Pass.all : List Pass := [.feeding, .laser, .genes, .metabolism]

/-- All passes of the turns of the given creatures, one turn after the other. -/
def passesOf (ranks : List Rank) : List (Pass × Rank) :=
  ranks.flatMap fun rank => Pass.all.map fun pass => (pass, rank)

namespace Stage

/-- The note that a pass runs on a creature, which it does if the creature is there. -/
def note (s : Stage E) (pass : Pass) (rank : Rank) : List (Pass × Rank) :=
  if s.world.creatures.contains rank then [(pass, rank)] else []

variable [Physics E]

/-- A turn, with notes of its passes. -/
def notedTurn (s : Stage E) (rank : Rank) : Outcome (List (Pass × Rank) × Stage E) := do
  if s.world.creatures.contains rank then
    let fed := s.feed rank
    let ready := fed.tickLaser rank
    let (requests, run) ← Outcome.ofFault (ready.runGenes rank)
    let done ← requests.foldlM (interact rank) run
    return (s.note .feeding rank ++ fed.note .laser rank ++ ready.note .genes rank
      ++ done.note .metabolism rank, done.metabolize rank)
  else
    return ([], s)

/-- The turns of the given creatures, with notes. -/
def notedTurns (s : Stage E) : (ranks : List Rank) → Outcome (List (Pass × Rank) × Stage E)
  | []            => return ([], s)
  | rank :: ranks => do
    let (passes, s) ← s.notedTurn rank
    let (others, s) ← s.notedTurns ranks
    return (passes ++ others, s)

/-- Without the notes it is the turn. -/
theorem turn_eq_notedTurn (s : Stage E) (rank : Rank) : s.turn rank = (·.2) <$> s.notedTurn rank := by
  unfold turn notedTurn
  split
  · simp only [map_bind, map_pure]
  · rfl

theorem turns_eq_notedTurns (s : Stage E) (ranks : List Rank) :
    s.turns ranks = (·.2) <$> s.notedTurns ranks := by
  unfold turns
  induction ranks generalizing s with
  | nil => rfl
  | cons rank ranks ih =>
    rw [List.foldlM_cons, turn_eq_notedTurn, notedTurns]
    simp only [map_bind, map_pure, bind_map_left, ih]
    simp only [map_eq_pure_bind]

/-- Turns that were taken can be noted. -/
theorem notedTurns_of_turns {s s' : Stage E} {ranks : List Rank} (h : s.turns ranks = .ok s') :
    ∃ passes, s.notedTurns ranks = .ok (passes, s') := by
  rw [turns_eq_notedTurns, map_eq_pure_bind] at h
  obtain ⟨⟨passes, s''⟩, hnoted, hpure⟩ := except_bind_inv h
  cases hpure
  exact ⟨passes, hnoted⟩

variable [LawfulPhysics E]

/-! ## The actor stays -/

omit [Physics E] [LawfulPhysics E] in
/-- Whoever is there stays there when another one is spawned. -/
theorem mem_keys_spawnCreature {w : World E} {rank : Rank} (h : rank ∈ w.creatures.keys) (c : Creature) :
    rank ∈ (w.spawnCreature c).creatures.keys := by
  rw [Table.mem_keys_iff_isSome] at h ⊢
  show ((w.creatures.insert ⟨w.lastRank + 1⟩ c).get? rank).isSome = true
  rw [Table.get?_insert]
  split
  · rfl
  · exact h

/-- An attack on somebody else, or a replication, leaves the actor there. -/
theorem mem_keys_interact {actor : Rank} (s : Stage E) {r : Interaction}
    (hother : ∀ id, r ≠ .attack actor id) (h : actor ∈ s.world.creatures.keys) :
    Outcome.Ensures (interact actor s r) (actor ∈ ·.world.creatures.keys) := by
  cases r with
  | attack target targetId =>
    refine .pure ?_
    rcases s.attack_cases actor target targetId with hnothing | ⟨attacker, victim, -, -, -, hattack⟩
    · rw [hnothing]
      exact h
    · rw [hattack]
      have hne : actor ≠ target := by
        rintro rfl
        exact hother targetId rfl
      -- nobody but the target is reaped, and that is somebody else
      have hquiet := s.world.exchanged_quiet actor target attacker victim targetId
      rw [Table.mem_keys_iff_isSome, get?_reap hne, ← Table.mem_keys_iff_isSome]
      show actor ∈ (s.world.exchanged actor target attacker victim targetId).creatures.keys
      rw [hquiet.keys_eq]
      exact h
  | replicate =>
    refine (s.replicate_cases actor).mono fun s' hreplicated => ?_
    cases hreplicated with
    | refused => exact h
    | @delivered _ birth =>
      rw [deliver_world]
      refine mem_keys_spawnCreature ?_ birth.creature
      rw [(World.Quiet.setMass _ _ _).keys_eq]
      exact h

/-- No creature asks to attack itself: it chooses among those of other identities in view. -/
theorem runGenes_spares {s s' : Stage E} (hranked : s.world.Ranked) (hcurrent : s.Current) {rank : Rank}
    {requests : List Interaction} (hgenes : s.runGenes rank = .ok (requests, s')) :
    ∀ r ∈ requests, ∀ id, r ≠ .attack rank id := by
  intro r hr id heq
  subst heq
  cases hget : s.world.creatures.get? rank with
  | none =>
    rw [runGenes_of_none hget] at hgenes
    cases hgenes
    cases hr
  | some c =>
    obtain ⟨-, -, -, -, c', -, hlives, hoffered⟩ := runGenes_offers hget hgenes
    obtain ⟨v, hv, hrank, -⟩ := hoffered _ hr
    have hseen := hv.mem
    rw [(s.surroundings_seen c).1] at hseen
    obtain ⟨d, hd, hview⟩ := hcurrent.mem_views hranked hseen
    -- who is in view under this rank would be the creature itself
    rw [hrank, hget, Option.some.injEq] at hd
    refine hv.other ?_
    rw [← hview, ← hd, hlives.id_eq]

/-! ## The passes of turns -/

/-- **A creature that is alive when its turn comes has all its passes, and any other has none.** -/
theorem notedTurn_passes {s s' : Stage E} (hranked : s.world.Ranked) (hcurrent : s.Current) {rank : Rank}
    {passes : List (Pass × Rank)} (h : s.notedTurn rank = .ok (passes, s')) :
    passes = if s.world.creatures.contains rank then passesOf [rank] else [] := by
  unfold notedTurn at h
  split at h
  · rename_i hthere
    rw [if_pos hthere]
    obtain ⟨⟨requests, run⟩, hgenes, h⟩ := except_bind_inv h
    obtain ⟨done, hdone, hpure⟩ := except_bind_inv h
    cases hpure
    have hgenes := Outcome.ofFault_inv hgenes
    obtain ⟨hranked', hcurrent'⟩ := (s.prepared_steps rank).current hranked hcurrent
    -- nobody leaves before the requests are carried out, and the actor not even then
    have hstart : rank ∈ s.world.creatures.keys := Table.contains_iff_mem_keys.mp hthere
    have hfed : rank ∈ (s.feed rank).world.creatures.keys := (s.feed_retains rank).keys_eq ▸ hstart
    have hready : rank ∈ (s.prepared rank).world.creatures.keys :=
      (s.prepared_retains rank).keys_eq ▸ hstart
    have hrun : rank ∈ run.world.creatures.keys := by
      obtain ⟨world, rfl, hquiet⟩ := runGenes_quiet hgenes
      exact hquiet.keys_eq ▸ hready
    have hlast : rank ∈ done.world.creatures.keys := by
      have hspared := runGenes_spares hranked' hcurrent' hgenes
      exact (Outcome.Ensures.foldlM_of_mem (I := fun s => rank ∈ s.world.creatures.keys)
        (fun r hr s hs => mem_keys_interact s (hspared r hr) hs) run hrun).of_ok hdone
    have noted {s : Stage E} (hmem : rank ∈ s.world.creatures.keys) (pass : Pass) :
        s.note pass rank = [(pass, rank)] := if_pos (Table.contains_iff_mem_keys.mpr hmem)
    rw [noted hstart, noted hfed, noted hlast,
      show ((s.feed rank).tickLaser rank).note .genes rank = _ from noted hready .genes]
    rfl
  · rename_i hgone
    cases h
    rw [if_neg hgone]

/-- The first of a list without repetitions is among those who acted just where it is put before them, and of
the others nothing is changed by that. -/
theorem mem_acted_cons {first : Rank} {ranks acted : List Rank} (hnodup : (first :: ranks).Nodup)
    (hsublist : acted.Sublist ranks) (there : Bool) :
    (first ∈ (if there then [first] else []) ++ acted ↔ there = true) ∧
    ∀ rank ∈ ranks, (rank ∈ (if there then [first] else []) ++ acted ↔ rank ∈ acted) := by
  have hfresh := (List.nodup_cons.mp hnodup).1
  have hother : first ∉ acted := fun hmem => hfresh (hsublist.subset hmem)
  cases there with
  | false => exact ⟨iff_of_false hother Bool.false_ne_true, fun _ _ => .rfl⟩
  | true =>
    refine ⟨iff_of_true List.mem_cons_self rfl, fun rank hrank => ?_⟩
    have hne : rank ≠ first := fun heq => hfresh (heq ▸ hrank)
    exact List.mem_cons.trans (or_iff_right hne)

/-- The passes of a list of turns are those of some creatures of the list, in its order: of those that
are there when the turns before theirs have been taken. -/
theorem notedTurns_passes {s s' : Stage E} (hranked : s.world.Ranked) (hcurrent : s.Current)
    {ranks : List Rank} {passes : List (Pass × Rank)} (h : s.notedTurns ranks = .ok (passes, s')) :
    ∃ acted, passes = passesOf acted ∧ acted.Sublist ranks ∧
      (ranks.Nodup → ∀ before rank after now, ranks = before ++ rank :: after →
        s.turns before = .ok now → (rank ∈ acted ↔ rank ∈ now.world.creatures.keys)) := by
  -- the induction is on the ranks, over the stage at which the first of them has its turn
  induction ranks generalizing s passes with
  | nil =>
    cases h
    exact ⟨[], rfl, List.Sublist.refl _, fun _ before rank after _ hsplit => by simp at hsplit⟩
  | cons first ranks ih =>
    obtain ⟨⟨own, s₁⟩, hfirst, h⟩ := except_bind_inv h
    obtain ⟨⟨others, s₂⟩, hothers, hpure⟩ := except_bind_inv h
    cases hpure
    have hturn : s.turn first = .ok s₁ := by
      rw [turn_eq_notedTurn, hfirst]
      rfl
    obtain ⟨hranked₁, hcurrent₁⟩ := ((s.turn_ensures first).of_ok hturn).current hranked hcurrent
    obtain ⟨acted, rfl, hsublist, hacted⟩ := ih hranked₁ hcurrent₁ hothers
    refine ⟨(if s.world.creatures.contains first then [first] else []) ++ acted, ?_, ?_, ?_⟩
    · rw [notedTurn_passes hranked hcurrent hfirst]
      split
      · rfl
      · rfl
    · split
      · exact hsublist.cons_cons first
      · exact hsublist.cons first
    · intro hnodup before rank after now hsplit hnow
      obtain ⟨hmem, hothers⟩ := mem_acted_cons hnodup hsublist (s.world.creatures.contains first)
      cases before with
      | nil =>
        cases hsplit
        cases hnow
        rw [hmem, Table.contains_iff_mem_keys]
      | cons first' before =>
        cases hsplit
        unfold turns at hnow
        rw [List.foldlM_cons, hturn] at hnow
        rw [hothers rank (List.mem_append_right _ List.mem_cons_self)]
        exact hacted (List.nodup_cons.mp hnodup).2 before rank after now rfl hnow

end Stage

/-! ## Ticks -/

variable [Physics E] [LawfulPhysics E]

/-- Among distinct identities the world is coherent, and those of the living and those born in the next tick
are distinct. -/
theorem History.coherent_born {config : Config} {enclosure : E} (hempty : Physics.handles enclosure = [])
    {entropy : BitVec 256} {calls : List Call} {h : History E}
    (hrun : run config enclosure entropy calls = .ok h)
    {told rest : List Event} {w' : World E} (hdistinct :
      (drawn { h with world := w', log := h.log ++ (h.world.pendingEvents ++ told ++ rest) }).Nodup) :
    h.world.Coherent [] ∧ (h.world.living ++ births told).Nodup := by
  have htracked : h.Tracked := tracked_run hempty hrun
  -- what was drawn before comes first, then what the tick told
  have hdrawn : drawn { h with world := w', log := h.log ++ (h.world.pendingEvents ++ told ++ rest) } =
      (h.drawn ++ births told) ++ births (rest ++ w'.pendingEvents) := by
    unfold drawn
    simp only [births_append, List.append_assoc]
  rw [hdrawn] at hdistinct
  have hbefore := (List.nodup_append.mp hdistinct).1
  obtain ⟨hcoherent, hmem⟩ := htracked (List.nodup_append.mp hbefore).1
  exact ⟨hcoherent, living_append_nodup hcoherent.living_nodup hmem hbefore⟩

/-- Whenever a turn of a tick begins, tables, indices and engine are in step, views are current, and the
world has gone through a course of changes, which was told and in which nobody was born under an identity
that was in use. -/
theorem History.at_turn {config : Config} {enclosure : E} (hempty : Physics.handles enclosure = [])
    {entropy : BitVec 256} {calls : List Call} {h h' : History E} {t : TickCall} {start now : Stage E}
    {before after : List Rank} (hrun : run config enclosure entropy calls = .ok h)
    (hcall : h.call (.tick t) = .ok h') (hdistinct : h'.drawn.Nodup)
    (hstart : h.world.openingBy t = .ok start)
    (hranks : start.views.map (·.rank) = before ++ after) (hnow : start.turns before = .ok now) :
    now.world.Coherent [] ∧ now.Current ∧ ∃ told, h.world.counted.Course told now.world ∧
      now.events = start.events ++ told ∧ (h.world.counted.living ++ births told).Nodup := by
  obtain ⟨⟨events, w'⟩, htick, hpure⟩ := except_bind_inv hcall
  cases hpure
  obtain ⟨opened, stage, newborn, rest, hstart', hcreatures, hturns, -, -, rfl⟩ :=
    World.tickBy_inv htick
  rw [hstart, Except.ok.injEq] at hstart'
  subst hstart'
  rw [Stage.start_ranks, hcreatures] at hranks
  obtain ⟨-, hcurrent, told, hcourse, htold⟩ := during_tick hrun hstart hnow
  -- the turns after this one tell their events after those told so far
  obtain ⟨now', hnow', hlater⟩ := Stage.turns_append_inv (hranks ▸ hturns)
  rw [hnow, Except.ok.injEq] at hnow'
  subst hnow'
  obtain ⟨later, -, hlater⟩ := ((Stage.turns_ensures _ _).of_ok hlater).advances
  rw [hlater, htold, List.append_assoc] at hdistinct
  obtain ⟨hcoherent, hborn⟩ := coherent_born hempty hrun hdistinct
  have hcounted : h.world.counted.Coherent [] := hcoherent.retold _ _
  exact ⟨hcounted.course hcourse hborn, hcurrent, told, hcourse, htold, hborn⟩

/-- **Turns follow the snapshot.** In every tick from every state that can be reached, the passes that run
are the four of a turn, one turn after the other, of some of the creatures that were alive when the tick
began. These come in spawn order and each of them once, and a creature is left out if and only if its
death was told in the turns before its own. Whoever came into the world during the tick and is alive in the
end has not been touched by any turn: its program stands at the first gene, without delay or jump, and it
holds no laser. -/
theorem turns_follow_snapshot {config : Config} {enclosure : E} (hempty : Physics.handles enclosure = [])
    {entropy : BitVec 256} {calls : List Call} {h h' : History E} {t : TickCall}
    (hrun : History.run config enclosure entropy calls = .ok h)
    (hcall : h.call (.tick t) = .ok h') (hdistinct : h'.drawn.Nodup) :
    ∃ start passes stage acted,
      h.world.openingBy t = .ok start ∧
      start.notedTurns h.world.creatures.keys = .ok (passes, stage) ∧
      h.world.tickBy t = World.closing h.world.creatures.keys stage ∧
      passes = passesOf acted ∧ acted.Sublist h.world.creatures.keys ∧
      h.world.creatures.keys.Pairwise (·.number < ·.number) ∧
      (∀ before rank after c, h.world.creatures.keys = before ++ rank :: after →
        h.world.creatures.get? rank = some c → ∃ now, start.turns before = .ok now ∧
        (rank ∈ acted ↔ ∀ age tick, Event.death c.id age tick ∉ now.events.drop start.events.length)) ∧
      ∀ rank c, h'.world.creatures.get? rank = some c → rank ∉ h.world.creatures.keys →
        c.Pristine := by
  obtain ⟨⟨events, w'⟩, htick, hpure⟩ := except_bind_inv hcall
  cases hpure
  have hranked : h.world.Ranked := History.ranked_run hrun
  obtain ⟨w, stage, newborn, rest, hstart, hcreatures, hturns, hclosing, hrefill, rfl⟩ :=
    World.tickBy_inv htick
  obtain ⟨passes, hnoted⟩ := Stage.notedTurns_of_turns hturns
  have hnone : (Stage.start w h.world.pendingEvents).turns [] = .ok _ := rfl
  obtain ⟨hopened, hcurrent, -⟩ := History.during_tick hrun hstart hnone
  obtain ⟨acted, hpasses, hsublist, hacted⟩ := Stage.notedTurns_passes hopened hcurrent hnoted
  refine ⟨_, passes, stage, acted, hstart, hnoted, htick.trans hclosing.symm, hpasses, hsublist,
    hranked.creatures_ascending, fun before rank after c hsplit hc => ?_,
    fun rank c hc hnew => ?_⟩
  · -- the creature is there at its turn if and only if its death was not told before
    obtain ⟨now, hnow, hlater⟩ := Stage.turns_append_inv (hsplit ▸ hturns)
    obtain ⟨-, -, told, hcourse, htold⟩ := History.during_tick hrun hstart hnow
    obtain ⟨later, -, hlater⟩ := ((Stage.turns_ensures _ _).of_ok hlater).advances
    rw [hlater, htold, List.append_assoc] at hdistinct
    have hborn : (h.world.counted.living ++ births told).Nodup :=
      (History.coherent_born hempty hrun hdistinct).2
    have hfate := World.Course.fate hcourse (hranked.retold _ _ _) hborn hc
    refine ⟨now, hnow, ?_⟩
    rw [hacted hranked.creatures_nodup before rank after now hsplit hnow, hfate.mem_keys_iff, htold,
      List.drop_left]
  · have hresting : w.Resting h.world.creatures.keys := (World.Resting.keys h.world).congr hcreatures
    have hturned := (Stage.turns_resting (s := Stage.start w h.world.pendingEvents)
      (fun rank hrank => hrank) hresting).of_ok hturns
    exact (World.refill_resting hturned).of_ok hrefill rank c hnew hc

/-- A world as small as before, in which an attack kills. -/
def Config.deadly : Config := { Config.cramped with combat := { targetHungerLoss := 1.0 } }

/-- The first of two creatures kills the second before its turn, and a third comes for it in the end. -/
theorem turns_follow_snapshot_deadly :
    ∃ h h' start passes stage acted c,
      History.run .deadly (Enclosure.empty 20.0 20.0) 0 [] = .ok h ∧
      h.call (.tick .update) = .ok h' ∧ h'.drawn.Nodup ∧
      h.world.creatures.keys = [⟨1⟩, ⟨2⟩] ∧ h'.world.creatures.keys = [⟨1⟩, ⟨3⟩] ∧
      h.world.openingBy .update = .ok start ∧
      start.notedTurns h.world.creatures.keys = .ok (passes, stage) ∧
      passes = passesOf acted ∧ passes = passesOf [⟨1⟩] ∧
      h'.world.creatures.get? ⟨3⟩ = some c ∧ c.Pristine := by
  have hcheck : (History.run .deadly (Enclosure.empty 20.0 20.0) 0 []).toOption.any (fun h =>
      (h.call (.tick .update)).toOption.any fun h' =>
        (h.world.openingBy .update).toOption.any fun start =>
          (start.notedTurns h.world.creatures.keys).toOption.any fun noted =>
            decide (h'.drawn.Nodup ∧ h.world.creatures.keys = [⟨1⟩, ⟨2⟩] ∧
              h'.world.creatures.keys = [⟨1⟩, ⟨3⟩] ∧ noted.1 = passesOf [⟨1⟩]) &&
            (h'.world.creatures.get? ⟨3⟩).isSome) = true := by
    decide +kernel
  obtain ⟨h, hrun, hcheck⟩ := except_any_inv hcheck
  obtain ⟨h', hcall, hcheck⟩ := except_any_inv hcheck
  obtain ⟨start, hstart, hcheck⟩ := except_any_inv hcheck
  obtain ⟨⟨passes, stage⟩, hnoted, hcheck⟩ := except_any_inv hcheck
  rw [Bool.and_eq_true, decide_eq_true_eq] at hcheck
  obtain ⟨⟨hdistinct, hbefore, hafter, hpasses⟩, hthird⟩ := hcheck
  obtain ⟨c, hc⟩ := Option.isSome_iff_exists.mp hthird
  obtain ⟨start', passes', stage', acted, hstart', hnoted', -, hpasses', -, -, -, hpristine⟩ :=
    turns_follow_snapshot rfl hrun hcall hdistinct
  -- the opening and the turns that the theorem speaks of are those that were checked
  rw [hstart, Except.ok.injEq] at hstart'
  subst hstart'
  rw [hnoted, Except.ok.injEq, Prod.mk.injEq] at hnoted'
  obtain ⟨rfl, rfl⟩ := hnoted'
  have hnew : (⟨3⟩ : Rank) ∉ h.world.creatures.keys := by
    rw [hbefore]
    decide
  exact ⟨h, h', start, passes, stage, acted, c, hrun, hcall, hdistinct, hbefore, hafter, hstart, hnoted,
    hpasses', hpasses, hc, hpristine _ c hc hnew⟩

end Vivarium
