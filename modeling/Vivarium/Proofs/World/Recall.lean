import Vivarium.Proofs.Kinship.Memo
import Vivarium.Proofs.World.History

/-!
# Worlds that differ in their memos alone

`w.recalling k m` is the world `w` with the memo `m`, configured for the capacity `k`. Whatever neither
asks the memo nor sets one up does the same to both: it commutes with `recalling`. Two things ask it, a
creature that tells its kin by their genomes and a comparison from outside, and a memo without a wrong
score answers both as computing would. So from two worlds that differ in such memos alone, every tick
returns the same events, and leaves two worlds that differ in such memos alone.

Main results: `World.Alike.tickBy`, `World.Alike.genomeSimilarity`.
-/

namespace Vivarium

/-! ## Two computations side by side -/

/-- Both computations return, and the values are related, or both end early for the same cause. -/
def Agree {ε α β : Type} (R : α → β → Prop) : Except ε α → Except ε β → Prop
  | .ok a,    .ok b     => R a b
  | .error e, .error e' => e = e'
  | _,        _         => False

namespace Agree

variable {ε α β γ δ : Type} {R : α → β → Prop} {S : γ → δ → Prop}

/-- Related values agree. -/
theorem pure {a : α} {b : β} (h : R a b) : Agree (ε := ε) R (Pure.pure a) (Pure.pure b) := h

/-- Sequences agree if their first parts do, and their second parts do on whatever related values these
returned. -/
theorem bind {x : Except ε α} {y : Except ε β} {f : α → Except ε γ} {g : β → Except ε δ}
    (h : Agree R x y) (hfg : ∀ a b, R a b → Agree S (f a) (g b)) : Agree S (x >>= f) (y >>= g) := by
  -- the one fails just where the other does, and in the same way
  cases x with
  | ok a =>
    cases y with
    | ok b => exact hfg a b h
    | error _ => cases h
  | error e =>
    cases y with
    | ok _ => cases h
    | error e' => exact h

/-- A computation and what a map makes of it. -/
theorem map_right {x : Except ε α} {f : α → β} (h : ∀ a, x = .ok a → R a (f a)) : Agree R x (f <$> x) := by
  cases x with
  | ok a => exact h a rfl
  | error _ => rfl

/-- A computation and what becomes of it with another memo in the place of its own, if putting its own
there changes nothing: it did not touch the memo that it began with. -/
theorem map_memo {x : Except ε α} {g : Nat → Cache → α → α} {c : α → Cache} {own other : Nat}
    {m m' : Cache} {Q : α → α → Prop} (hc : ∀ k m a, c (g k m a) = m) (hown : x = g own m <$> x)
    (h : ∀ a, c a = m → Q a (g other m' a)) : Agree Q x (g other m' <$> x) := by
  refine .map_right fun a ha => h a ?_
  rw [ha] at hown
  rw [Except.ok.inj hown, hc]

/-- Steps that agree on related states agree when they are taken one after the other. -/
theorem foldlM {ι : Type} {f : α → ι → Except ε α} {g : β → ι → Except ε β}
    (hfg : ∀ a b i, R a b → Agree R (f a i) (g b i)) :
    ∀ (is : List ι) {a : α} {b : β}, R a b → Agree R (is.foldlM f a) (is.foldlM g b)
  | [], a, b, h => by
    rw [List.foldlM_nil, List.foldlM_nil]
    exact .pure h
  | i :: is, a, b, h => by
    rw [List.foldlM_cons, List.foldlM_cons]
    exact .bind (hfg a b i h) fun _ _ h' => foldlM hfg is h'

/-- What may only break off agrees the same way among the computations that may also be refused. -/
theorem ofFault {x : Except Fault α} {y : Except Fault β} (h : Agree R x y) :
    Agree R (Outcome.ofFault x) (Outcome.ofFault y) := by
  cases x with
  | ok a =>
    cases y with
    | ok b => exact h
    | error _ => cases h
  | error e =>
    cases y with
    | ok _ => cases h
    | error e' => exact congrArg Failure.fault h

end Agree

/-! ## Another memo -/

/-- The configuration with another capacity of the memo. -/
def Config.withCapacity (c : Config) (k : Nat) : Config :=
  { c with kinship := { c.kinship with similarityCacheCapacity := k } }

variable {E : Type}

namespace World

/-- The world with another memo, configured for the capacity `k`. -/
def recalling (w : World E) (k : Nat) (m : Cache) : World E :=
  { w with config := w.config.withCapacity k, similarity := m }

/-- What a computation returned, with the world that it left recalling another memo. -/
def recallingIn {α : Type} (k : Nat) (m : Cache) (x : α × World E) : α × World E :=
  (x.1, x.2.recalling k m)

section Recalling

variable (w : World E) (k : Nat) (m : Cache)

/-- Memo and capacity are no part of the creatures. -/
theorem creatures_recalling : (w.recalling k m).creatures = w.creatures := rfl

theorem modifyCreature_recalling (rank : Rank) (f : Creature → Creature) :
    (w.recalling k m).modifyCreature rank f = (w.modifyCreature rank f).recalling k m := rfl

/-- A draw looks at the source and at nothing else of the world. -/
theorem draw_recalling {α : Type} (d : Draw α) :
    (w.recalling k m).draw d = recallingIn k m <$> w.draw d := by
  unfold draw
  rw [map_bind]
  rfl

variable [Physics E]

/-- To set a mass is to scale a body, which does not look at the memo. -/
theorem setMass_recalling (rank : Rank) (mass : Float) :
    (w.recalling k m).setMass rank mass = (w.setMass rank mass).recalling k m := by
  unfold setMass
  rw [creatures_recalling]
  cases w.creatures.get? rank <;> rfl

/-- Who is taken out is looked up among the creatures. -/
theorem removeCreature_recalling (rank : Rank) :
    (w.recalling k m).removeCreature rank = (w.removeCreature rank).map (recallingIn k m) := by
  unfold removeCreature
  rw [Option.map_map]
  rfl

/-- What is eaten is looked up among the pellets. -/
theorem removePellet_recalling (rank : Rank) :
    (w.recalling k m).removePellet rank = (w.removePellet rank).map (recallingIn k m) := by
  unfold removePellet
  rw [Option.map_map]
  rfl

/-- A meal is worth what the configuration says, apart from the capacity. -/
theorem fed_recalling (rank : Rank) (eater : Creature) :
    (w.recalling k m).fed rank eater = (w.fed rank eater).recalling k m := by
  unfold fed
  rw [modifyCreature_recalling, setMass_recalling]
  rfl

/-- Nor do the two sides of an attack depend on the capacity or the memo. -/
theorem exchanged_recalling (actor target : Rank) (attacker victim : Creature) (targetId : Ident) :
    (w.recalling k m).exchanged actor target attacker victim targetId =
      (w.exchanged actor target attacker victim targetId).recalling k m := by
  -- each half of the exchange writes to the creatures and the bodies, and reads no score
  have hrewarded : ∀ laser, (w.recalling k m).rewarded actor attacker laser =
      (w.rewarded actor attacker laser).recalling k m := by
    intro laser
    unfold rewarded
    rw [modifyCreature_recalling, setMass_recalling]
    rfl
  have hbitten : ∀ (w' : World E) (combat : CombatConfig), (w'.recalling k m).bitten combat target victim =
      (w'.bitten combat target victim).recalling k m := by
    intro w' combat
    unfold bitten
    dsimp only
    rw [modifyCreature_recalling, setMass_recalling]
    rfl
  unfold exchanged
  rw [hrewarded, hbitten]
  rfl

/-! ### Drawing and spawning -/

omit [Physics E] in
theorem build_recalling {α : Type} (b : Build α) :
    (w.recalling k m).build b = recallingIn k m <$> w.build b := by
  unfold build
  rw [draw_recalling]
  cases w.draw b.run with
  | error e => rfl
  | ok x =>
    obtain ⟨⟨r⟩ | r, w'⟩ := x <;> rfl

/-- A pellet takes its identity from the source and its body from the engine. -/
theorem spawnPellet_recalling (place : Vec) :
    (w.recalling k m).spawnPellet place = recallingIn k m <$> w.spawnPellet place := by
  unfold spawnPellet
  dsimp only
  rw [show ({ w.recalling k m with
      enclosure := (Physics.addBody (w.recalling k m).enclosure Pellet.radius place .food).2 } : World E) =
    recalling { w with enclosure := (Physics.addBody w.enclosure Pellet.radius place .food).2 } k m from rfl,
    draw_recalling, bind_map_left, map_bind]
  rfl

/-- So does a creature that is put in from outside. -/
theorem insertCreature_recalling (seed : Seed) :
    (w.recalling k m).insertCreature seed = recallingIn k m <$> w.insertCreature seed := by
  unfold insertCreature
  rw [draw_recalling, bind_map_left, map_bind]
  rfl

/-- And a pellet that is put in from outside. -/
theorem insertPellet_recalling (place : Vec) :
    (w.recalling k m).insertPellet place = recallingIn k m <$> w.insertPellet place := by
  unfold insertPellet
  rw [spawnPellet_recalling, bind_map_left, map_bind]
  rfl

/-- No birth looks at the capacity. -/
theorem root_withCapacity (place : Vec) (tick : Nat) (config : Config) (e : E) :
    Birth.root place tick (config.withCapacity k) e = Birth.root place tick config e := rfl

theorem ofFault_map {α β : Type} (f : α → β) (x : Except Fault α) :
    Outcome.ofFault (f <$> x) = f <$> Outcome.ofFault x := by
  cases x <;> rfl

/-- A fresh creature is made of the source, the engine and a configuration whose capacity does not matter. -/
theorem spawnFresh_recalling : (w.recalling k m).spawnFresh = recallingIn k m <$> w.spawnFresh := by
  unfold spawnFresh
  rw [draw_recalling, ofFault_map, bind_map_left, map_bind]
  refine bind_congr fun (place, w₁) => ?_
  dsimp only [recallingIn]
  rw [show (w₁.recalling k m).config = w₁.config.withCapacity k from rfl, root_withCapacity,
    build_recalling, bind_map_left, map_bind]
  rfl

/-- The induction is on how many are spawned, with the world as the last one has left it. -/
theorem spawnMany_recalling (n : Nat) :
    (w.recalling k m).spawnMany n = recallingIn k m <$> w.spawnMany n := by
  -- the induction is on how many are spawned, over the world so far
  induction n generalizing w with
  | zero => rfl
  | succ n ih =>
    unfold spawnMany
    rw [spawnFresh_recalling, bind_map_left, map_bind]
    refine bind_congr ?_
    rintro ⟨event, w₁⟩
    dsimp only [recallingIn]
    rw [ih, bind_map_left, map_bind]
    rfl

/-- How many are missing does not depend on the memo. -/
theorem refill_recalling : (w.recalling k m).refill = recallingIn k m <$> w.refill :=
  spawnMany_recalling w k m w.missing

/-- Whether food is due is a matter of the clock and of how many pellets there are. -/
theorem spawnFood_recalling :
    (w.recalling k m).spawnFood = (·.recalling k m) <$> w.spawnFood := by
  unfold spawnFood
  rw [show (w.recalling k m).config.spawnsFood (w.recalling k m).tick (w.recalling k m).foodCount =
    w.config.spawnsFood w.tick w.foodCount from rfl, map_bind]
  refine bind_congr fun due => ?_
  split
  · rw [draw_recalling, bind_map_left, map_bind]
    -- the place is drawn and the pellet put there, and neither of them looks into the memo
    refine bind_congr fun (place, w₁) => ?_
    dsimp only [recallingIn]
    rw [spawnPellet_recalling, bind_map_left, map_bind]
    rfl
  · rfl

end Recalling

end World

/-! ## Stages with another memo -/

namespace Stage

/-- The stage with another memo in its world. -/
def recalling (s : Stage E) (k : Nat) (m : Cache) : Stage E := { s with world := s.world.recalling k m }

section Recalling

variable [Physics E] (s : Stage E) (k : Nat) (m : Cache) (rank : Rank)

omit [Physics E] in
theorem creatures_recalling : (s.recalling k m).world.creatures = s.world.creatures := rfl

/-- The dead are taken out of the world and of the views, and neither knows of the memo. -/
theorem kill_recalling : (s.recalling k m).kill rank = (s.kill rank).recalling k m := by
  unfold kill
  rw [show (s.recalling k m).world = s.world.recalling k m from rfl, World.removeCreature_recalling]
  cases s.world.removeCreature rank <;> rfl

/-- Whether somebody has starved is a matter of its hunger. -/
theorem reap_recalling : (s.recalling k m).reap rank = (s.reap rank).recalling k m := by
  unfold reap
  rw [creatures_recalling, kill_recalling]
  split <;> rfl

/-- A meal is found by the engine and the index of the pellets. -/
theorem feed_recalling : (s.recalling k m).feed rank = (s.feed rank).recalling k m := by
  rw [feed_eq, feed_eq, creatures_recalling]
  cases s.world.creatures.get? rank with
  | none => rfl
  -- what is eaten depends on the bodies and the pellets, which are the same
  | some eater =>
    rw [show (s.recalling k m).world = s.world.recalling k m from rfl,
      show (s.world.recalling k m).enclosure = s.world.enclosure from rfl,
      show (s.world.recalling k m).pelletOfBody = s.world.pelletOfBody from rfl,
      show (s.recalling k m).pelletViews = s.pelletViews from rfl]
    dsimp only
    split
    · rfl
    · rename_i food _
      rw [World.removePellet_recalling]
      cases s.world.removePellet food with
      | none => rfl
      | some x =>
        dsimp only [Option.map_some, World.recallingIn]
        rw [World.fed_recalling]
        rfl

/-- A laser is counted down at the places of two bodies. -/
theorem tickLaser_recalling : (s.recalling k m).tickLaser rank = (s.tickLaser rank).recalling k m := by
  unfold tickLaser
  rw [creatures_recalling]
  cases s.world.creatures.get? rank with
  | none => rfl
  | some c =>
    dsimp only
    split <;> rfl

/-- The outcome of an attack was fixed when it was asked for, so the memo does not matter any more. -/
theorem attack_recalling (target : Rank) (targetId : Ident) :
    (s.recalling k m).attack rank target targetId =
      (s.attack rank target targetId).recalling k m := by
  rw [attack_eq, attack_eq, creatures_recalling]
  split
  · split
    · rfl
    · rw [show (s.recalling k m).world = s.world.recalling k m from rfl, World.exchanged_recalling,
        ← reap_recalling]
      rfl
  · rfl

/-- Metabolism is charged at a rate that the clock decides. -/
theorem metabolize_recalling :
    (s.recalling k m).metabolize rank = (s.metabolize rank).recalling k m := by
  rw [metabolize_eq, metabolize_eq, ← reap_recalling]
  rfl

/-- What is delivered is put in, seen and told, whatever is remembered. -/
theorem deliver_recalling (parent : Creature) (birth : Birth) (paid : World E) :
    (s.recalling k m).deliver parent birth (paid.recalling k m) =
      (s.deliver parent birth paid).recalling k m := by
  unfold deliver
  cases birth.operator <;> rfl

/-- No child's birth looks at the capacity either. -/
theorem child_withCapacity (parent : Creature) (place : Vec) (tick : Nat) (config : Config)
    (e : E) :
    Birth.child parent place tick (config.withCapacity k) e = Birth.child parent place tick config e :=
  rfl

/-- A parent is guarded by its mass and by the population, and pays by its mass. -/
theorem replicate_recalling :
    (s.recalling k m).replicate rank = (·.recalling k m) <$> s.replicate rank := by
  rw [replicate_eq, replicate_eq, creatures_recalling]
  cases s.world.creatures.get? rank with
  | none => rfl
  | some parent =>
    rw [show (s.recalling k m).world = s.world.recalling k m from rfl,
      show (s.world.recalling k m).config = s.world.config.withCapacity k from rfl]
    dsimp only
    rw [child_withCapacity, World.build_recalling, apply_ite (Functor.map _)]
    refine ite_congr rfl (fun _ => rfl) fun _ => ?_
    rw [bind_map_left, map_bind]
    refine bind_congr fun ((birth, enclosure), world) => ?_
    -- the parent pays in a world whose engine holds one more body
    have hpaid : World.setMass { world.recalling k m with enclosure } rank
          (parent.mass - birth.creature.mass) =
        (World.setMass { world with enclosure } rank (parent.mass - birth.creature.mass)).recalling k m :=
      World.setMass_recalling { world with enclosure } k m rank _
    dsimp only [World.recallingIn]
    rw [hpaid, deliver_recalling]
    rfl

/-- So neither kind of request depends on memo or capacity. -/
theorem interact_recalling (i : Interaction) :
    interact rank (s.recalling k m) i = (·.recalling k m) <$> interact rank s i := by
  cases i with
  | attack target targetId => exact congrArg pure (attack_recalling s k m rank target targetId)
  | replicate => exact replicate_recalling s k m rank

end Recalling

end Stage

/-! ## Sensing with a memo and without -/

namespace Stage

/-- Adds a creature in view to the kin of a creature, as `addSimilar` does, by computing. -/
def addKin (w : World E) (genome : String) (threshold : Float) (kin : List Ident) (v : CreatureView) :
    List Ident :=
  match w.creatures.get? v.rank with
  | none       => kin
  | some other =>
    let score := diceSimilarity genome other.program.geneticString
    if isSimilarKin score threshold v.familyThreshold then v.id :: kin else kin

/-- With a coherent memo, to add somebody to the kin is to compare the two strings, and the memo stays coherent. -/
theorem addSimilar_eq (w : World E) (genome : String) (threshold : Float) (kin : List Ident) {m : Cache}
    (hm : m.Coherent) (v : CreatureView) :
    ∃ m', m'.Coherent ∧
      addSimilar w genome threshold (kin, m) v = (addKin w genome threshold kin v, m') := by
  unfold addSimilar addKin
  dsimp only
  cases w.creatures.get? v.rank with
  | none => exact ⟨m, hm, rfl⟩
  | some other =>
    -- the score that is told is that of the genomes, whatever the memo holds
    obtain ⟨m', hm', hscore⟩ := Cache.similarity_eq hm genome other.program.geneticString
    refine ⟨m', hm', ?_⟩
    dsimp only
    rw [hscore]
    split <;> rfl

/-- So it is for all that are in view, one after the other. -/
theorem foldl_addSimilar_eq (w : World E) (genome : String) (threshold : Float) :
    ∀ (vs : List CreatureView) (kin : List Ident) {m : Cache}, m.Coherent →
      ∃ m', m'.Coherent ∧ vs.foldl (addSimilar w genome threshold) (kin, m) =
        (vs.foldl (addKin w genome threshold) kin, m')
  | [], kin, m, hm => ⟨m, hm, rfl⟩
  | v :: vs, kin, m, hm => by
    -- one view at a time, with the memo that the one before has left
    obtain ⟨m₁, hm₁, hfirst⟩ := addSimilar_eq w genome threshold kin hm v
    rw [List.foldl_cons, List.foldl_cons, hfirst]
    exact foldl_addSimilar_eq w genome threshold vs _ hm₁

/-- What a creature may sense, its kin told by computing. -/
def sight (s : Stage E) (c : Creature) : Surroundings :=
  { creatures := s.views, pellets := s.pelletViews, population := s.world.population
    config    := s.world.config
    kin       := match s.world.config.kinship.mode with
      | .hue        => none
      | .similarity => some ((s.views.filter fun v => v.id ≠ c.id).foldl
          (addKin s.world c.program.geneticString c.traits.familyThreshold) []) }

/-- What a creature senses does not depend on a memo without a wrong score, which stays without one. -/
theorem surroundings_eq {s : Stage E} (h : s.world.similarity.Coherent) (c : Creature) :
    ∃ m, m.Coherent ∧ s.surroundings c = (s.sight c, { s.world with similarity := m }) := by
  unfold surroundings sight
  cases s.world.config.kinship.mode with
  | hue => exact ⟨_, h, rfl⟩
  | similarity =>
    -- the kin are found one by one, and the memo holds no wrong score after any of them
    obtain ⟨m, hm, hkin⟩ := foldl_addSimilar_eq s.world c.program.geneticString
      c.traits.familyThreshold (s.views.filter fun v => v.id ≠ c.id) [] h
    refine ⟨m, hm, ?_⟩
    unfold similarKin
    dsimp only
    rw [hkin]

end Stage

/-! ## Turns under another capacity -/

/-- The surroundings under a configuration with another capacity. -/
def Surroundings.withCapacity (s : Surroundings) (k : Nat) : Surroundings :=
  { s with config := s.config.withCapacity k }

/-- Who is seen as kin does not depend on the memo at all, since the sight asks the strings. -/
theorem Stage.sight_recalling (s : Stage E) (k : Nat) (m : Cache) (c : Creature) :
    (s.recalling k m).sight c = (s.sight c).withCapacity k := by
  unfold sight
  rw [show (s.recalling k m).world.config.kinship.mode = s.world.config.kinship.mode from rfl]
  cases s.world.config.kinship.mode <;> rfl

section WithCapacity

variable (position : Vec) (s : Surroundings) (k : Nat)

/-- No instruction looks at the capacity. -/
theorem execute_withCapacity (c : Creature) (i : Instruction) :
    c.execute position (s.withCapacity k) i = c.execute position s i := by
  cases i with
  | turn facing => cases facing <;> rfl
  | jump condition goal => cases condition <;> rfl
  | _ => rfl

/-- So no number of genes does. -/
theorem executeGenes_withCapacity :
    ∀ (budget : Nat) (t : Turn),
      Turn.executeGenes position (s.withCapacity k) budget t = Turn.executeGenes position s budget t
  | 0, _ => rfl
  | budget + 1, t => by
    -- no instruction looks at the capacity
    have hgene : ∀ t : Turn,
        Turn.executeGene position (s.withCapacity k) t = Turn.executeGene position s t := by
      intro t
      unfold Turn.executeGene
      dsimp only
      rw [execute_withCapacity]
    unfold Turn.executeGenes
    rw [hgene]
    split
    · exact bind_congr fun t' => executeGenes_withCapacity budget t'
    · rfl

/-- And no turn does. -/
theorem takeTurn_withCapacity (c : Creature) :
    c.takeTurn position (s.withCapacity k) = c.takeTurn position s := by
  unfold Creature.takeTurn
  rw [executeGenes_withCapacity]
  rfl

end WithCapacity

/-! ## Alike worlds and stages -/

/-- Two worlds that differ at most in their memos, neither of which holds a wrong score, and in the
capacity that is configured for these. -/
def World.Alike (w w' : World E) : Prop :=
  w.similarity.Coherent ∧ ∃ k m, m.Coherent ∧ w' = w.recalling k m

/-- So do two stages. -/
def Stage.Alike (s s' : Stage E) : Prop :=
  s.world.similarity.Coherent ∧ ∃ k m, m.Coherent ∧ s' = s.recalling k m

namespace Stage.Alike

variable [Physics E] {s s' : Stage E}

omit [Physics E] in
/-- What commutes with the change of memos leads from alike stages to alike ones. -/
theorem map {f : Stage E → Stage E} (hf : ∀ s k m, f (s.recalling k m) = (f s).recalling k m)
    (h : s.Alike s') : (f s).Alike (f s') := by
  obtain ⟨hs, k, m, hm, rfl⟩ := h
  -- with its own memo in the place of its own, the stage is the same; so it was not touched
  have hown : f s = (f s).recalling s.world.config.kinship.similarityCacheCapacity
      s.world.similarity := hf s _ _
  have hmemo : (f s).world.similarity = s.world.similarity := by
    rw [hown]
    rfl
  rw [hf]
  exact ⟨hmemo ▸ hs, k, m, hm, rfl⟩

omit [Physics E] in
/-- The same for a step that may break off or be refused. -/
theorem mapM {f : Stage E → Outcome (Stage E)}
    (hf : ∀ s k m, f (s.recalling k m) = (·.recalling k m) <$> f s) (h : s.Alike s') :
    Agree Alike (f s) (f s') := by
  obtain ⟨hs, k, m, hm, rfl⟩ := h
  rw [hf]
  refine .map_memo (g := fun k m (t : Stage E) => t.recalling k m)
    (c := fun t : Stage E => t.world.similarity)
    (fun _ _ _ => rfl) (hf s s.world.config.kinship.similarityCacheCapacity s.world.similarity) ?_
  exact fun t ht => ⟨ht ▸ hs, k, m, hm, rfl⟩

/-- Running genes asks the memo, and gets the same answers from both. -/
theorem runGenes (h : s.Alike s') (rank : Rank) :
    Agree (fun x y => x.1 = y.1 ∧ x.2.Alike y.2) (s.runGenes rank) (s'.runGenes rank) := by
  obtain ⟨hs, k, m, hm, rfl⟩ := h
  unfold Stage.runGenes
  rw [creatures_recalling]
  cases s.world.creatures.get? rank with
  | none => exact .pure ⟨rfl, hs, k, m, hm, rfl⟩
  | some c =>
    -- neither memo holds a wrong score, so both tell the creature the same
    obtain ⟨m₁, hm₁, hsensed⟩ := surroundings_eq hs c
    obtain ⟨m₂, hm₂, hsensed'⟩ := surroundings_eq (s := s.recalling k m) hm c
    dsimp only
    rw [hsensed, hsensed', sight_recalling]
    dsimp only
    rw [takeTurn_withCapacity,
      show ({ (s.recalling k m).world with similarity := m₂ } : World E) =
        World.recalling { s.world with similarity := m₁ } k m₂ from rfl,
      show (World.recalling { s.world with similarity := m₁ } k m₂).placeOf c.body =
        World.placeOf { s.world with similarity := m₁ } c.body from rfl,
      World.draw_recalling]
    refine .bind (.map_right (R := fun x y => y = World.recallingIn k m₂ x ∧ x.2.similarity = m₁) ?_) ?_
    · rintro ⟨turn, world⟩ hdraw
      obtain ⟨source, -, rfl⟩ := World.draw_inv hdraw
      exact ⟨rfl, rfl⟩
    · rintro ⟨turn, world⟩ _ ⟨rfl, hmemo⟩
      exact .pure ⟨rfl, hmemo ▸ hm₁, k, m₂, hm₂, rfl⟩

/-- **Stages that are alike have turns that are alike**, whatever the memos of the two remember. -/
theorem turn (h : s.Alike s') (rank : Rank) : Agree Alike (s.turn rank) (s'.turn rank) := by
  -- whether the creature is still there is not a matter of the memo
  have hsame : s'.world.creatures.contains rank = s.world.creatures.contains rank := by
    obtain ⟨-, k, m, -, rfl⟩ := h
    rfl
  unfold Stage.turn
  rw [hsame]
  split
  · have hbefore : ((s.feed rank).tickLaser rank).Alike ((s'.feed rank).tickLaser rank) :=
      (h.map (f := (·.feed rank)) fun s k m => s.feed_recalling k m rank).map (f := (·.tickLaser rank))
        fun s k m => s.tickLaser_recalling k m rank
    refine .bind (.ofFault (hbefore.runGenes rank)) ?_
    rintro ⟨requests, t⟩ ⟨_, t'⟩ ⟨rfl, halike⟩
    refine .bind (.foldlM (fun a b i hab => ?_) requests halike) fun u u' halike' => .pure ?_
    · -- the requests are carried out in two worlds that stay alike
      exact hab.mapM (f := (interact rank · i)) fun s k m => s.interact_recalling k m rank i
    · exact halike'.map (f := (·.metabolize rank)) fun s k m => s.metabolize_recalling k m rank
  · exact .pure h

/-- And so have they after any number of turns. -/
theorem turns (h : s.Alike s') (ranks : List Rank) : Agree Alike (s.turns ranks) (s'.turns ranks) :=
  .foldlM (fun _ _ rank hab => hab.turn rank) ranks h

end Stage.Alike

/-! ## Ticks and other calls -/

namespace World

/-- Two computations on worlds return the same and leave alike worlds, or end early for the same cause. -/
def Tells {ε α : Type} (x y : Except ε (α × World E)) : Prop :=
  Agree (fun a b => a.1 = b.1 ∧ a.2.Alike b.2) x y

section Recalling

variable [Physics E] (w : World E) (k : Nat) (m : Cache)

/-- The clock, the pending events and the food do not look at the memo. -/
theorem openingBy_recalling (t : TickCall) :
    (w.recalling k m).openingBy t = (·.recalling k m) <$> w.openingBy t := by
  have hopening : ∀ w : World E, (w.recalling k m).opening = (Stage.recalling · k m) <$> w.opening := by
    intro w
    -- the clock and the food do not depend on the memo
    have hcount : (w.recalling k m).countTick = (·.recalling k m) <$> w.countTick := by
      unfold countTick
      rw [apply_ite (Functor.map _)]
      rfl
    unfold opening
    rw [hcount, ofFault_map, bind_map_left, map_bind]
    refine bind_congr fun w₁ => ?_
    have hfood : spawnFood { w₁.recalling k m with pendingEvents := [] } =
        (·.recalling k m) <$> spawnFood { w₁ with pendingEvents := [] } :=
      spawnFood_recalling { w₁ with pendingEvents := [] } k m
    dsimp only
    rw [hfood, ofFault_map, bind_map_left, map_bind]
    rfl
  cases t with
  | update => exact hopening w
  | advance dt =>
    unfold openingBy
    rw [map_bind]
    exact bind_congr fun e => hopening { w with enclosure := e }

/-- Nor does the end of a tick. -/
theorem closing_recalling (ranks : List Rank) (s : Stage E) :
    closing ranks (s.recalling k m) = recallingIn k m <$> closing ranks s := by
  unfold closing
  rw [show (s.recalling k m).world = s.world.recalling k m from rfl, refill_recalling, bind_map_left,
    map_bind]
  refine bind_congr fun (births, w) => ?_
  rw [apply_ite (Functor.map _)]
  rfl

end Recalling

/-- The similarity of two creatures' genomes, computed. -/
def similarityOf? (w : World E) (a b : Ident) : Option Float :=
  match w.creature? a, w.creature? b with
  | some a, some b => some (diceSimilarity a.program.geneticString b.program.geneticString)
  | _, _           => none

/-- With a coherent memo the answer is the coefficient of the two strings, and the memo stays coherent. -/
theorem genomeSimilarity_eq {w : World E} (h : w.similarity.Coherent) (a b : Ident) :
    ∃ m, m.Coherent ∧ w.genomeSimilarity a b = (w.similarityOf? a b, { w with similarity := m }) := by
  unfold genomeSimilarity similarityOf?
  cases w.creature? a with
  | none => exact ⟨w.similarity, h, rfl⟩
  | some c =>
    cases w.creature? b with
    | none => exact ⟨w.similarity, h, rfl⟩
    | some d =>
      -- both are there, and the score is that of their genomes
      obtain ⟨m, hm, hscore⟩ := Cache.similarity_eq h c.program.geneticString d.program.geneticString
      refine ⟨m, hm, ?_⟩
      dsimp only
      rw [hscore]

namespace Alike

variable {w w' : World E}

/-- What commutes with the change of memos tells the same of alike worlds. -/
theorem tells {ε α : Type} {f : World E → Except ε (α × World E)}
    (hf : ∀ w k m, f (w.recalling k m) = recallingIn k m <$> f w) (h : w.Alike w') :
    Tells (f w) (f w') := by
  obtain ⟨hw, k, m, hm, rfl⟩ := h
  rw [hf]
  refine .map_memo (g := recallingIn) (c := fun x => x.2.similarity) (fun _ _ _ => rfl)
    (hf w w.config.kinship.similarityCacheCapacity w.similarity) ?_
  exact fun x hx => ⟨rfl, hx ▸ hw, k, m, hm, rfl⟩

variable [Physics E]

/-- Worlds that are alike begin a tick alike. -/
theorem openingBy (h : w.Alike w') (t : TickCall) :
    Agree Stage.Alike (w.openingBy t) (w'.openingBy t) := by
  obtain ⟨hw, k, m, hm, rfl⟩ := h
  rw [openingBy_recalling]
  refine .map_memo (g := fun k m (s : Stage E) => s.recalling k m)
    (c := fun s : Stage E => s.world.similarity)
    (fun _ _ _ => rfl)
    (openingBy_recalling w w.config.kinship.similarityCacheCapacity w.similarity t) ?_
  exact fun s hs => ⟨hs ▸ hw, k, m, hm, rfl⟩

/-- And they end it alike, with the same events. -/
theorem closing {s s' : Stage E} (h : s.Alike s') (ranks : List Rank) :
    Tells (closing ranks s) (closing ranks s') := by
  obtain ⟨hs, k, m, hm, rfl⟩ := h
  rw [closing_recalling]
  refine .map_memo (g := recallingIn) (c := fun x => x.2.similarity) (fun _ _ _ => rfl)
    (closing_recalling s.world.config.kinship.similarityCacheCapacity s.world.similarity ranks s) ?_
  exact fun x hx => ⟨rfl, hx ▸ hs, k, m, hm, rfl⟩

/-- **A tick tells the same of alike worlds.** -/
theorem tickBy (h : w.Alike w') (t : TickCall) : Tells (w.tickBy t) (w'.tickBy t) := by
  rw [tickBy_eq, tickBy_eq]
  refine .bind (h.openingBy t) fun start start' hstart => ?_
  have hranks : start'.views.map (·.rank) = start.views.map (·.rank) := by
    obtain ⟨-, k, m, -, rfl⟩ := hstart
    rfl
  rw [hranks]
  exact .bind (hstart.turns _) fun s s' hs => closing hs _

omit [Physics E] in
/-- **So does a comparison of genomes.** -/
theorem genomeSimilarity (h : w.Alike w') (a b : Ident) :
    (w.genomeSimilarity a b).1 = (w'.genomeSimilarity a b).1 ∧
      (w.genomeSimilarity a b).2.Alike (w'.genomeSimilarity a b).2 := by
  obtain ⟨hw, k, m, hm, rfl⟩ := h
  obtain ⟨m₁, hm₁, heq⟩ := genomeSimilarity_eq hw a b
  obtain ⟨m₂, hm₂, heq'⟩ := genomeSimilarity_eq (w := w.recalling k m) hm a b
  rw [heq, heq']
  exact ⟨rfl, hm₁, k, m₂, hm₂, rfl⟩

omit [Physics E] in
/-- A comparison made in one of them leaves them alike. -/
theorem aside (h : w.Alike w') (a b : Ident) : w.Alike (w'.genomeSimilarity a b).2 := by
  obtain ⟨hw, k, m, hm, rfl⟩ := h
  obtain ⟨m', hm', heq⟩ := genomeSimilarity_eq (w := w.recalling k m) hm a b
  rw [heq]
  exact ⟨hw, k, m', hm', rfl⟩

end Alike

end World

end Vivarium
