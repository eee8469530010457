import Vivarium.Proofs.Turn.Effects

/-!
# How fast a creature runs through its program

Where every gene takes time, a turn either executes one gene, which leaves a delay, or waits out one tick of
the delay that is left. So the delay of a gene is paid in full before the next one is executed, no more and
no less: the gene costs its delay and the turn that executed it.

Turns are taken on occasions, one after the other, with nothing else happening to the creature in between;
each occasion brings its own place, surroundings and source. `Follows` says turn by turn what happened.

Main result: `instruction_time_is_charged_exactly`.
-/

namespace Vivarium

/-! ## The delay of a gene -/

/-- The gene that the creature executes next is an attack, and there is nobody whom it could attack. -/
def Creature.Misses (c : Creature) (position : Vec) (s : Surroundings) : Prop :=
  c.nextGene.instruction = .attack ∧ ∀ v, ¬ s.Exposes c position v

/-- Only an attack that finds nobody sets the delay. -/
theorem Creature.execute_delay (c : Creature) (position : Vec) (s : Surroundings) (i : Instruction) :
    (c.execute position s i).Ensures fun effect =>
      (i = .attack ∧ ∀ v, ¬ s.Exposes c position v) ∧
        effect.creature.moveDelay = s.config.combat.missDelay ∨
      ¬ (i = .attack ∧ ∀ v, ¬ s.Exposes c position v) ∧ effect.creature.moveDelay = c.moveDelay := by
  unfold execute
  -- only an attack looks for somebody, and only one that finds nobody is delayed
  cases i with
  | move power => exact .pure (.inr ⟨nofun, rfl⟩)
  | turn facing => exact .bind .any fun direction _ => .pure (.inr ⟨nofun, rfl⟩)
  | jump condition goal =>
    exact .ite (fun _ => .pure (.inr ⟨nofun, rfl⟩)) fun _ => .pure (.inr ⟨nofun, rfl⟩)
  | attack =>
    dsimp only
    split
    · rename_i v hnearest
      exact .pure (.inr ⟨fun h => h.2 v (nearestCreature_exposes hnearest), rfl⟩)
    · rename_i hnobody
      exact .pure (.inl ⟨⟨rfl, nearestCreature_eq_none_iff.mp hnobody⟩, rfl⟩)
  | replicate => exact .ite (fun _ => .pure (.inr ⟨nofun, rfl⟩)) fun _ => .pure (.inr ⟨nofun, rfl⟩)
  | wait => exact .pure (.inr ⟨nofun, rfl⟩)

/-- A gene leaves its time cost as delay, or that of a missed attack. -/
theorem Turn.executeGene_delay (position : Vec) (s : Surroundings) (t : Turn) :
    (executeGene position s t).Ensures fun t' =>
      t.creature.Misses position s ∧ t'.creature.moveDelay = s.config.combat.missDelay ∨
      ¬ t.creature.Misses position s ∧ t'.creature.moveDelay = t.creature.nextGene.timeCost := by
  have hexposes : (∀ v, ¬ s.Exposes t.creature.atGene position v) ↔ ∀ v, ¬ s.Exposes t.creature position v :=
    forall_congr' fun v => not_congr ⟨(·.congr t.creature.same_atGene.symm), (·.congr t.creature.same_atGene)⟩
  unfold executeGene
  refine .bind (t.creature.atGene.execute_delay position s t.creature.nextGene.instruction)
    fun effect heffect => ?_
  rw [hexposes] at heffect
  exact .bind .any fun next _ => .pure heffect

/-! ## Turns on occasions -/

/-- What a turn finds: where the creature is, what it may sense, and what its draws are made of. -/
structure Occasion where
  position     : Vec
  surroundings : Surroundings
  source       : Source

/-- A turn that was taken on an occasion by a creature as it was then. -/
structure Episode where
  creature : Creature
  occasion : Occasion
  turn     : Turn

/-- Turns taken on occasions, one after the other. -/
def Creature.takeTurns (c : Creature) : List Occasion → Except Fault (List Episode)
  | []      => return []
  | o :: os => do
    let (turn, _) ← (c.takeTurn o.position o.surroundings).run o.source
    let es ← turn.creature.takeTurns os
    return { creature := c, occasion := o, turn } :: es

namespace Episode

/-- The turn executed one gene, the one at which the creature stood, and left the delay that goes with it. -/
structure Acts (e : Episode) : Prop where
  ready    : e.creature.moveDelay = 0
  executed : ∃ source, (Turn.executeGene e.occasion.position e.occasion.surroundings
    { creature := e.creature }).run e.occasion.source = .ok (e.turn, source)
  ops_eq   : e.turn.ops = 1
  charged  : ¬ e.creature.Misses e.occasion.position e.occasion.surroundings →
    e.turn.creature.moveDelay = e.creature.nextGene.timeCost
  missed   : e.creature.Misses e.occasion.position e.occasion.surroundings →
    e.turn.creature.moveDelay = e.occasion.surroundings.config.combat.missDelay

/-- The turn executed nothing, and one tick of the delay was over. -/
structure Waits (e : Episode) : Prop where
  busy    : 0 < e.creature.moveDelay
  turn_eq : e.turn =
    { creature := { e.creature with moveDelay := e.creature.moveDelay - 1 }
      pushes := [], requests := [], ops := 0 }

/-- The delay that the turn left. -/
def delay (e : Episode) : Nat := e.turn.creature.moveDelay

/-- The delays that were left by the turns that executed something. -/
def delays (es : List Episode) : List Nat := (es.filter (0 < ·.turn.ops)).map delay

/-- The number of genes that were executed in all. -/
def executions (es : List Episode) : Nat := (es.map (·.turn.ops)).sum

/-- In these turns the creature `c`, which had no delay left, was charged exactly for each gene. -/
structure Charged (c : Creature) (es : List Episode) : Prop where
  /-- Each turn executes one gene or nothing. -/
  each    : ∀ e ∈ es, e.Acts ∨ e.Waits
  /-- The first turn executes the gene at which the creature stands. -/
  first   : ∀ e ∈ es.head?, e.Acts ∧ e.creature = c
  /-- After a gene, as many turns wait as it left delay; the one after them executes the gene at the cursor
  that it left. -/
  spaced  : ∀ before e after, es = before ++ e :: after → e.Acts →
    (∀ w ∈ after.take e.delay, w.Waits) ∧
    ∀ next ∈ after[e.delay]?, next.Acts ∧ next.creature = { e.turn.creature with moveDelay := 0 } ∧
      c.program.get? e.turn.creature.cursor = some next.creature.nextGene
  /-- One gene more than `k` takes one turn more than the first `k` genes cost, with their delays. -/
  counted : ∀ k < (delays es).length,
    executions (es.take (((delays es).take k).map (· + 1)).sum) = k ∧
    executions (es.take ((((delays es).take k).map (· + 1)).sum + 1)) = k + 1

end Episode

namespace Creature

variable {c : Creature} {position : Vec} {s : Surroundings} {source source' : Source} {t : Turn}

/-- Every gene of the program takes time. -/
def Timed (c : Creature) : Prop := ∀ g ∈ c.program.genes, 1 ≤ g.timeCost

/-- The same creature has the same program, and so the same times. -/
theorem Same.timed {d : Creature} (h : c.Same d) (hc : c.Timed) : d.Timed := by
  unfold Timed
  rw [h.program_eq]
  exact hc

/-- The gene that is executed next is one of the program. -/
theorem nextGene_mem (c : Creature) : c.nextGene ∈ c.program.genes := List.get_mem _ _

/-- Where genes take time, and misses too, each gene leaves a delay. -/
theorem delay_pos (htimed : c.Timed) (hmiss : 1 ≤ s.config.combat.missDelay)
    (hgene : (Turn.executeGene position s { creature := c }).run source = .ok (t, source')) :
    0 < t.creature.moveDelay := by
  rcases Turn.executeGene_delay position s _ source t source' hgene with ⟨-, hdelay⟩ | ⟨-, hdelay⟩
  · rw [hdelay]
    exact hmiss
  · rw [hdelay]
    exact htimed _ c.nextGene_mem

/-- So a creature that does not have to wait executes one gene. -/
theorem takeTurn_executeGene (htimed : c.Timed) (hmiss : 1 ≤ s.config.combat.missDelay)
    (hbudget : 1 ≤ s.config.evolution.maxOpsPerTick) (hready : c.moveDelay = 0)
    (hrun : (c.takeTurn position s).run source = .ok (t, source')) :
    (Turn.executeGene position s { creature := c }).run source = .ok (t, source') ∧ t.ops = 1 := by
  -- one gene at least was executed
  have hcompletes := takeTurn_completes hbudget hready hrun
  have hpos := hcompletes.ops_pos
  generalize hn : t.ops = n at hpos
  have hexecutes := hcompletes.executes
  rw [hn] at hexecutes
  cases hexecutes with
  | done => exact absurd hpos (Nat.lt_irrefl 0)
  | gene _ hgene hrest =>
    cases hrest with
    | done => exact ⟨hgene, rfl⟩
    | gene hready' =>
      -- the first gene has left a delay, so there was no second one
      have hdelay := delay_pos htimed hmiss hgene
      omega

end Creature

namespace Episode

variable {c : Creature} {e : Episode} {es before after : List Episode} {os : List Occasion}

/-! ## Turn by turn -/

theorem Acts.same (h : e.Acts) : e.creature.Same e.turn.creature := by
  obtain ⟨source, hgene⟩ := h.executed
  exact (Creature.executeGene_ensures _ _ _ _ _ _ hgene).toSame

theorem Acts.seated (h : e.Acts) : e.turn.creature.Seated := by
  obtain ⟨source, hgene⟩ := h.executed
  exact (Turn.executeGene_seated _ _ _ _ _ _ hgene).2

theorem Waits.same (h : e.Waits) : e.creature.Same e.turn.creature := by
  rw [h.turn_eq]
  exact ⟨rfl, rfl, rfl, rfl, rfl, rfl, rfl⟩

/-- What happened in turns that a creature took one after the other. -/
inductive Follows : Creature → List Episode → Prop
  | done {c : Creature} : Follows c []
  | acts {e : Episode} {es : List Episode} (h : e.Acts) (hrest : Follows e.turn.creature es) :
      Follows e.creature (e :: es)
  | waits {e : Episode} {es : List Episode} (h : e.Waits) (hrest : Follows e.turn.creature es) :
      Follows e.creature (e :: es)

/-- An occasion on which the turn returned is one or the other. -/
theorem acts_or_waits {o : Occasion} {turn : Turn} {source : Source} (htimed : c.Timed)
    (hmiss : 1 ≤ o.surroundings.config.combat.missDelay)
    (hbudget : 1 ≤ o.surroundings.config.evolution.maxOpsPerTick)
    (hrun : (c.takeTurn o.position o.surroundings).run o.source = .ok (turn, source)) :
    Acts { creature := c, occasion := o, turn } ∨ Waits { creature := c, occasion := o, turn } := by
  by_cases hready : c.moveDelay = 0
  · -- every gene takes time, so the first one uses the turn up
    obtain ⟨hgene, hops⟩ := Creature.takeTurn_executeGene htimed hmiss hbudget hready hrun
    have hdelay := Turn.executeGene_delay _ _ _ _ _ _ hgene
    refine .inl ⟨hready, ⟨source, hgene⟩, hops, fun hfound => ?_, fun hmissed => ?_⟩
    · exact (hdelay.resolve_left fun h => hfound h.1).2
    · exact (hdelay.resolve_right fun h => h.1 hmissed).2
  · rw [Creature.takeTurn_of_delay (Nat.pos_of_ne_zero hready)] at hrun
    cases hrun
    exact .inr ⟨Nat.pos_of_ne_zero hready, rfl⟩

/-- Turns are taken on all occasions, each of which executes one gene or waits, unless one is given up. -/
theorem takeTurns_follows (htimed : c.Timed)
    (hos : ∀ o ∈ os, 1 ≤ o.surroundings.config.combat.missDelay ∧
      1 ≤ o.surroundings.config.evolution.maxOpsPerTick) :
    (∃ es, c.takeTurns os = .ok es ∧ es.map (·.occasion) = os ∧ Follows c es) ∨
      c.takeTurns os = .error .exhausted ∧ ∃ o ∈ os, ∃ k, (o.source.after k).Barren c.program.length := by
  -- the induction is on the occasions, over the creature as the turns so far have left it
  induction os generalizing c with
  | nil => exact .inl ⟨[], rfl, rfl, .done⟩
  | cons o os ih =>
    obtain ⟨⟨hmiss, hbudget⟩, hos⟩ := List.forall_mem_cons.mp hos
    unfold Creature.takeTurns
    rcases c.takeTurn_settles o.position o.surroundings o.source with ⟨turn, k, hrun⟩ | ⟨hgiven, hbarren⟩
    · have hturn := acts_or_waits htimed hmiss hbudget hrun
      have hsame : c.Same turn.creature := hturn.elim (fun h => h.same) fun h => h.same
      rw [hrun]
      rcases ih (hsame.timed htimed) hos with ⟨es, htaken, hoccasions, hfollows⟩ | ⟨hgiven, o', ho', hbarren⟩
      · refine .inl ⟨{ creature := c, occasion := o, turn } :: es, ?_, congrArg (o :: ·) hoccasions, ?_⟩
        · show (turn.creature.takeTurns os >>= _) = _
          rw [htaken]
          rfl
        · rcases hturn with hacts | hwaits
          · exact .acts hacts hfollows
          · exact .waits hwaits hfollows
      · rw [hsame.program_eq] at hbarren
        refine .inr ⟨?_, o', List.mem_cons_of_mem o ho', hbarren⟩
        show (turn.creature.takeTurns os >>= _) = _
        rw [hgiven]
        rfl
    · rw [hgiven]
      exact .inr ⟨rfl, o, List.mem_cons_self, hbarren⟩

namespace Follows

theorem each (h : Follows c es) : ∀ e ∈ es, e.Acts ∨ e.Waits := by
  induction h with
  | done => exact List.forall_mem_nil _
  | acts hacts _ ih => exact List.forall_mem_cons.mpr ⟨.inl hacts, ih⟩
  | waits hwaits _ ih => exact List.forall_mem_cons.mpr ⟨.inr hwaits, ih⟩

/-- A creature without delay executes a gene in its first turn. -/
theorem ready (h : Follows c (e :: es)) (hready : c.moveDelay = 0) :
    e.Acts ∧ e.creature = c ∧ Follows e.turn.creature es := by
  cases h with
  | acts hacts hrest => exact ⟨hacts, rfl, hrest⟩
  | waits hwaits => exact absurd hready (Nat.pos_iff_ne_zero.mp hwaits.busy)

/-- The turns from some turn on are turns of the creature as it was then, which has kept its program. -/
theorem from_turn (h : Follows c (before ++ e :: after)) :
    e.creature.program = c.program ∧ Follows e.creature (e :: after) := by
  -- the induction is on the turns that come before, each of which leaves the program alone
  induction before generalizing c with
  | nil =>
    cases h with
    | acts hacts hrest => exact ⟨rfl, .acts hacts hrest⟩
    | waits hwaits hrest => exact ⟨rfl, .waits hwaits hrest⟩
  | cons b before ih =>
    cases h with
    | acts hacts hrest =>
      obtain ⟨hprogram, hrest⟩ := ih hrest
      exact ⟨hprogram.trans hacts.same.program_eq, hrest⟩
    | waits hwaits hrest =>
      obtain ⟨hprogram, hrest⟩ := ih hrest
      exact ⟨hprogram.trans hwaits.same.program_eq, hrest⟩

/-- A delay is waited out, turn by turn; then the creature goes on as it was, without delay. -/
theorem wait_out (h : Follows c es) :
    (∀ w ∈ es.take c.moveDelay, w.Waits) ∧ Follows { c with moveDelay := 0 } (es.drop c.moveDelay) := by
  -- by induction on the delay: each turn that waits takes one from it
  generalize hdelay : c.moveDelay = d
  induction d generalizing c es with
  | zero =>
    rw [List.take_zero, List.drop_zero, ← hdelay]
    exact ⟨List.forall_mem_nil _, h⟩
  | succ d ih =>
    cases h with
    | done => exact ⟨List.forall_mem_nil _, .done⟩
    | acts hacts =>
      have hready := hacts.ready
      omega
    | @waits e es hwaits hrest =>
      obtain ⟨hwaited, hrest⟩ := ih hrest (by rw [hwaits.turn_eq]; dsimp only; omega)
      rw [hwaits.turn_eq] at hrest
      exact ⟨List.forall_mem_cons.mpr ⟨hwaits, hwaited⟩, hrest⟩

end Follows

/-! ## Counting -/

@[simp] theorem delays_append (es fs : List Episode) : delays (es ++ fs) = delays es ++ delays fs := by
  unfold delays
  rw [List.filter_append, List.map_append]

@[simp] theorem executions_append (es fs : List Episode) :
    executions (es ++ fs) = executions es + executions fs := by
  unfold executions
  rw [List.map_append, List.sum_append]

/-- Turns that wait execute nothing. -/
theorem delays_of_waits (h : ∀ w ∈ es, w.Waits) : delays es = [] := by
  unfold delays
  rw [List.map_eq_nil_iff, List.filter_eq_nil_iff]
  intro w hw
  rw [(h w hw).turn_eq]
  exact Bool.false_ne_true

/-- Those who wait execute nothing. -/
theorem executions_of_waits (h : ∀ w ∈ es, w.Waits) : executions es = 0 := by
  unfold executions
  rw [List.sum_eq_zero_iff_forall_eq_nat]
  intro n hn
  obtain ⟨w, hw, rfl⟩ := List.mem_map.mp hn
  rw [(h w hw).turn_eq]

/-- A turn that executes a gene is counted with its delay. -/
theorem Acts.delays_cons (h : e.Acts) (es : List Episode) : delays (e :: es) = e.delay :: delays es := by
  unfold delays
  rw [List.filter_cons_of_pos (by rw [h.ops_eq]; decide), List.map_cons]

/-- Those who act execute one gene. -/
theorem Acts.executions_cons (h : e.Acts) (es : List Episode) : executions (e :: es) = 1 + executions es := by
  unfold executions
  rw [List.map_cons, List.sum_cons, h.ops_eq]

/-- **Before one gene more the earlier ones are paid for**: the first `k` genes and their delays fill a number
of turns, and the turn after these executes the next gene. -/
theorem Follows.counted (h : Follows c es) (hready : c.moveDelay = 0) :
    ∀ k < (delays es).length,
      executions (es.take (((delays es).take k).map (· + 1)).sum) = k ∧
      executions (es.take ((((delays es).take k).map (· + 1)).sum + 1)) = k + 1 := by
  -- by induction on `k`: the first gene is paid for, and the creature goes on without delay
  intro k hk
  induction k generalizing c es with
  | zero =>
    cases es with
    | nil => cases hk
    | cons e es =>
      obtain ⟨hacts, -, -⟩ := h.ready hready
      exact ⟨rfl, hacts.executions_cons []⟩
  | succ k ih =>
    cases es with
    | nil => cases hk
    | cons e es =>
      obtain ⟨hacts, -, hrest⟩ := h.ready hready
      obtain ⟨hwaited, hrest⟩ := hrest.wait_out
      change ∀ w ∈ es.take e.delay, w.Waits at hwaited
      change Follows _ (es.drop e.delay) at hrest
      -- of what follows the first gene, the delay is waited out and the rest is as before
      have hdelays : delays es = delays (es.drop e.delay) := by
        conv_lhs => rw [← List.take_append_drop e.delay es]
        rw [delays_append, delays_of_waits hwaited, List.nil_append]
      have hexecutions (n : Nat) :
          executions ((e :: es).take (e.delay + 1 + n)) = 1 + executions ((es.drop e.delay).take n) := by
        rw [Nat.add_right_comm, List.take_succ_cons, hacts.executions_cons, List.take_add, executions_append,
          executions_of_waits hwaited, Nat.zero_add]
      rw [hacts.delays_cons, List.length_cons, hdelays] at hk
      obtain ⟨hbefore, hafter⟩ := ih hrest rfl (Nat.lt_of_succ_lt_succ hk)
      rw [hacts.delays_cons, hdelays, List.take_succ_cons, List.map_cons, List.sum_cons,
        hexecutions, Nat.add_assoc (e.delay + 1), hexecutions, hbefore, hafter]
      exact ⟨Nat.add_comm 1 k, Nat.add_comm 1 (k + 1)⟩

theorem Follows.charged (h : Follows c es) (hready : c.moveDelay = 0) : Charged c es where
  each    := h.each
  first   := by
    intro e he
    cases es with
    | nil => cases he
    | cons e' es =>
      cases he
      obtain ⟨hacts, hcreature, -⟩ := h.ready hready
      exact ⟨hacts, hcreature⟩
  spaced  := by
    rintro before e after rfl hacts
    obtain ⟨hprogram, hrest⟩ := h.from_turn
    obtain ⟨-, -, hrest⟩ := hrest.ready hacts.ready
    obtain ⟨hwaited, hrest⟩ := hrest.wait_out
    refine ⟨hwaited, fun next hnext => ?_⟩
    -- the turn after the delay is the first one of the creature without delay
    rw [Option.mem_def, ← List.head?_drop] at hnext
    change Follows _ (after.drop e.delay) at hrest
    obtain ⟨later, hlater⟩ := List.head?_eq_some_iff.mp hnext
    rw [hlater] at hrest
    obtain ⟨hnextActs, hcreature, -⟩ := hrest.ready rfl
    refine ⟨hnextActs, hcreature, ?_⟩
    rw [hcreature, ← hprogram, ← hacts.same.program_eq]
    have hseated := hacts.seated.cursor_lt
    unfold Creature.nextGene Program.wrap Program.gene Program.get?
    rw [dif_pos hseated]
    exact List.getElem?_eq_getElem hseated
  counted := h.counted hready

end Episode

/-- **Instruction time is charged exactly.** Take a creature without delay whose genes all take time, and any
number of turns with any surroundings and sources, where misses take time too and there is a budget. Each turn
executes one gene or none. A gene leaves its time cost as delay, or, if it is an attack that finds nobody,
the delay of a miss. Exactly as many turns as that execute nothing, and the one after them executes the gene
at the cursor that was left. So the first `k + 1` genes take one turn more than the first `k` and their delays.
A turn may only be given up, and then somewhere in its source all words are refused that a position could be
made of. -/
theorem instruction_time_is_charged_exactly (c : Creature) (os : List Occasion) (htimed : c.Timed)
    (hos : ∀ o ∈ os, 1 ≤ o.surroundings.config.combat.missDelay ∧
      1 ≤ o.surroundings.config.evolution.maxOpsPerTick) (hready : c.moveDelay = 0) :
    (∃ es, c.takeTurns os = .ok es ∧ es.map (·.occasion) = os ∧ Episode.Charged c es) ∨
      c.takeTurns os = .error .exhausted ∧
        ∃ o ∈ os, ∃ k, (o.source.after k).Barren c.program.length := by
  refine (Episode.takeTurns_follows htimed hos).imp_left ?_
  rintro ⟨es, htaken, hoccasions, hfollows⟩
  exact ⟨es, htaken, hoccasions, hfollows.charged hready⟩

/-- A creature that attacks and then waits, from the start of its program. -/
def Creature.lurking : Creature :=
  { Creature.idle 0 with
    program     :=
      { genes     := ⟨default, Instruction.attack.catalogIndex, 5, .attack⟩ ::
          List.replicate 14 ⟨default, Instruction.wait.catalogIndex, 2, .wait⟩
        isProgram := { shortest_le := by decide, le_longest := by decide, catalogued := by decide } }
    cursor      := 0
    pendingJump := none }

/-- Six turns in which there is nobody to attack, and a miss takes one tick. -/
def loneliness : List Occasion :=
  List.replicate 6
    { position     := ⟨0.0, 0.0⟩
      surroundings :=
        { creatures := [], pellets := [], population := 1, config := { combat := { missDelay := 1 } } }
      source       := ⟨[], default⟩ }

/-- The miss costs two turns, the wait after it three. -/
theorem instruction_time_is_charged_exactly_lurking :
    Creature.lurking.Timed ∧
    (∀ o ∈ loneliness, 1 ≤ o.surroundings.config.combat.missDelay ∧
      1 ≤ o.surroundings.config.evolution.maxOpsPerTick) ∧
    Creature.lurking.moveDelay = 0 ∧
    ∃ es, Creature.lurking.takeTurns loneliness = .ok es ∧ Episode.Charged .lurking es ∧
      es.map (·.turn.ops) = [1, 0, 1, 0, 0, 1] ∧ Episode.delays es = [1, 2, 2] := by
  have htimed : Creature.lurking.Timed := by
    unfold Creature.Timed
    decide
  have hloneliness : ∀ o ∈ loneliness, 1 ≤ o.surroundings.config.combat.missDelay ∧
      1 ≤ o.surroundings.config.evolution.maxOpsPerTick := by
    decide
  -- what the occasions come to is computed, and that the time is charged is taken from the theorem
  have hcheck : (Creature.lurking.takeTurns loneliness).toOption.any (fun es =>
      decide (es.map (·.turn.ops) = [1, 0, 1, 0, 0, 1] ∧ Episode.delays es = [1, 2, 2])) = true := by
    decide +kernel
  obtain ⟨es, htaken, hcheck⟩ := except_any_inv hcheck
  obtain ⟨hops, hdelays⟩ := of_decide_eq_true hcheck
  refine ⟨htimed, hloneliness, rfl, es, htaken, ?_, hops, hdelays⟩
  rcases instruction_time_is_charged_exactly .lurking loneliness htimed hloneliness rfl with
    ⟨es', htaken', -, hcharged⟩ | ⟨hgiven, -⟩
  · cases htaken.symm.trans htaken'
    exact hcharged
  · cases htaken.symm.trans hgiven

end Vivarium
