import Vivarium.Schedule
import Vivarium.Turn.Run
import Vivarium.World.Basic

/-!
# A tick in progress

While a tick runs, its creatures see the others through views that were taken when it began. The views
are kept up as creatures are born and die and pellets are eaten, but positions stay those of the tick's
beginning. The stage of a tick is the world as it is now, the views as they are kept, and the events so
far. Each part of a creature's turn takes a stage to the next.
-/

namespace Vivarium

structure Stage (E : Type) where
  world       : World E
  views       : List CreatureView
  pelletViews : List PelletView
  events      : List Event

namespace Stage

variable {E : Type}

def log (s : Stage E) (e : Event) : Stage E := { s with events := s.events ++ [e] }

/-! ## Sensing -/

/-- Adds a creature in view to the kin of a creature of the given genome and threshold, if it is alive
and its genome is similar enough, and puts the similarity into the memo. -/
def addSimilar (w : World E) (genome : String) (threshold : Float) :
    List Ident × Cache → CreatureView → List Ident × Cache
  | (kin, cache), v =>
    match w.creatures.get? v.rank with
    | none       => (kin, cache)
    | some other =>
      let (score, cache) := cache.similarity genome other.program.geneticString
      if isSimilarKin score threshold v.familyThreshold then (v.id :: kin, cache) else (kin, cache)

/-- The kin of a creature where genomes are compared. -/
def similarKin (s : Stage E) (c : Creature) : List Ident × Cache :=
  (s.views.filter fun v => v.id ≠ c.id).foldl
    (addSimilar s.world c.program.geneticString c.traits.familyThreshold) ([], s.world.similarity)

/-- What a creature may sense, and the world with its memo filled on the way. -/
def surroundings (s : Stage E) (c : Creature) : Surroundings × World E :=
  let seen (kin : Option (List Ident)) : Surroundings :=
    { creatures := s.views, pellets := s.pelletViews, population := s.world.population
      config := s.world.config, kin }
  match s.world.config.kinship.mode with
  | .hue        => (seen none, s.world)
  | .similarity =>
    let (kin, similarity) := s.similarKin c
    (seen (some kin), { s.world with similarity })

variable [Physics E]

/-! ## Beginning and dying -/

/-- The stage at which a tick begins. -/
def start (w : World E) (events : List Event) : Stage E :=
  { world := w, views := w.creatureViews, pelletViews := w.pelletViews, events }

/-- Takes a creature out of the world and out of sight, and reports its death. -/
def kill (s : Stage E) (rank : Rank) : Stage E :=
  match s.world.removeCreature rank with
  | none            => s
  | some (c, world) =>
    { s with world, views := s.views.filter fun v => v.rank ≠ rank }.log
      (.death c.id (c.age world.tick) world.tick)

/-! ## Feeding and the laser -/

/-- Lets a creature eat the first pellet in sight that its body overlaps. -/
def feed (s : Stage E) (rank : Rank) : Stage E :=
  match s.world.creatures.get? rank with
  | none       => s
  | some eater =>
    let bodies := s.pelletViews.map (·.body)
    match (Physics.overlapping s.world.enclosure eater.body bodies).head?.bind
        s.world.pelletOfBody.get? with
    | none      => s
    | some food =>
      match s.world.removePellet food with
      | none                 => s
      | some (pellet, world) =>
        let restore := world.config.food.hungerRestore
        let world := world.modifyCreature rank fun c => c.adjustHunger restore
        let world := world.setMass rank (eater.mass + world.config.food.massGain)
        { s with world, pelletViews := s.pelletViews.filter fun v => v.rank ≠ food }.log
          (.foodEaten eater.id pellet.id world.tick)

/-- Counts a creature's laser down. -/
def tickLaser (s : Stage E) (rank : Rank) : Stage E :=
  match s.world.creatures.get? rank with
  | none   => s
  | some c =>
    match c.laser with
    | none       => s
    | some laser =>
      let own := Physics.position? s.world.enclosure c.body
      let target := Physics.position? s.world.enclosure laser.targetBody
      { s with world := s.world.modifyCreature rank fun c => c.tickLaser own target }

/-! ## Running genes -/

/-- Runs a creature's program for one tick: its own state and the forces on its body change at once,
its requests are handed on. -/
def runGenes (s : Stage E) (rank : Rank) : Except Fault (List Interaction × Stage E) := do
  match s.world.creatures.get? rank with
  | none   => return ([], s)
  | some c =>
    let (surroundings, world) := s.surroundings c
    let (turn, world) ← world.draw (c.takeTurn (world.placeOf c.body) surroundings)
    let enclosure := turn.pushes.foldl (fun e force => Physics.push e c.body force) world.enclosure
    return (turn.requests,
      { s with world := { world.modifyCreature rank fun _ => turn.creature with enclosure } })

/-! ## Interactions -/

/-- Carries out both sides of an attack, if the attacker and the target that it chose are alive. The
attacker gains hunger and mass and holds a laser; the target loses both, but no mass below the minimum,
and dies if that starves it. -/
def attack (s : Stage E) (actor target : Rank) (targetId : Ident) : Stage E :=
  match s.world.creatures.get? actor, s.world.creatures.get? target with
  | some attacker, some victim =>
    if victim.id ≠ targetId then s
    else
      let combat := s.world.config.combat
      let laser : Laser :=
        { target := targetId, targetBody := victim.body, timer := combat.laserTicks
          start := s.world.placeOf attacker.body, stop := s.world.placeOf victim.body }
      let world := s.world.modifyCreature actor fun c =>
        { c with laser := some laser }.adjustHunger combat.attackerHungerGain
      let world := world.setMass actor (attacker.mass + combat.massTransfer)
      let world := world.modifyCreature target fun c => c.adjustHunger (-combat.targetHungerLoss)
      let mass := ((world.creatures.get? target).map (·.mass)).getD victim.mass
      let world := world.setMass target
        (greater (mass - combat.massTransfer) world.config.metabolism.minMass)
      let s := { s with world }.log (.attack attacker.id targetId world.tick)
      if (world.creatures.get? target).any (·.isStarved) then s.kill target else s
  | _, _ => s

/-- The place of a newborn beside its parent. -/
def childOffset : Vec := ⟨5.0, 0.0⟩

/-- Lets a creature replicate, if it is alive and heavy enough and the world is not full. The child takes
its mass from the parent. -/
def replicate (s : Stage E) (rank : Rank) : Outcome (Stage E) := do
  match s.world.creatures.get? rank with
  | none        => return s
  | some parent =>
    let config := s.world.config
    if parent.mass < config.metabolism.replicateMass
        ∨ config.world.populationCap ≤ s.world.population then
      return s
    let place := (s.world.placeOf parent.body).add childOffset
    let ((birth, enclosure), world) ←
      s.world.build (Birth.child parent place s.world.tick config s.world.enclosure)
    let child := birth.creature
    let world := { world with enclosure }.setMass rank (parent.mass - child.mass)
    let s := { s with world }.log
      (.birth child.id (some parent.id) child.lineage.generation world.tick)
    let s := match birth.operator with
      | some op => s.log (.mutation child.id op.name world.tick)
      | none    => s
    let world := s.world.spawnCreature child
    return { s with world, views := s.views ++ [world.viewOf ⟨world.lastRank⟩ child] }

/-- Carries out one request. -/
def interact (actor : Rank) (s : Stage E) : Interaction → Outcome (Stage E)
  | .attack target targetId => return s.attack actor target targetId
  | .replicate              => s.replicate actor

/-- Charges a creature's metabolism, and lets it die if that starves it. -/
def metabolize (s : Stage E) (rank : Rank) : Stage E :=
  let rate := s.world.config.starvationRate s.world.tick
  let world := s.world.modifyCreature rank fun c => c.starve rate
  let s := { s with world }
  if (world.creatures.get? rank).any (·.isStarved) then s.kill rank else s

/-! ## Turns -/

/-- A creature's turn: feeding, laser, genes, the requests of its genes, metabolism. A creature that was
killed earlier in the tick has none. -/
def turn (s : Stage E) (rank : Rank) : Outcome (Stage E) := do
  if s.world.creatures.contains rank then
    let (requests, s) ← Outcome.ofFault (((s.feed rank).tickLaser rank).runGenes rank)
    return (← requests.foldlM (interact rank) s).metabolize rank
  else
    return s

/-- The turns of the given creatures, one after the other. -/
def turns (s : Stage E) (ranks : List Rank) : Outcome (Stage E) := ranks.foldlM turn s

end Stage

end Vivarium
