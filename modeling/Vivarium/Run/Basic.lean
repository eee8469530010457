import Vivarium.Tally
import Vivarium.World.Frame
import Vivarium.World.Tick

/-!
# Runs

A run lets a world go on by ticks of one length and keeps a tally of it. It may be given a last tick, and
it may be asked for a frame at every so many ticks. The last tick is looked for after a tick, so a run
that is let go on makes at least one.
-/

namespace Vivarium

/-- What is asked of a run. -/
structure RunOptions where
  /-- Stands for the seed of the configuration. -/
  seed          : Option Nat := none
  /-- The last tick. Without one the run goes on for ever. -/
  ticks         : Option Nat := none
  /-- The ticks from one frame to the next. Without it, or if it is zero, there are no frames. -/
  snapshotEvery : Option Nat := none
deriving DecidableEq, Inhabited, Repr

structure Run where
  options : RunOptions
  world   : World Enclosure
  tally   : Tally := {}
  /-- Whether the last tick is still to come. -/
  running : Bool := true

/-- The totals of a run. -/
structure Summary where
  ticks      : Nat
  population : Nat
  food       : Nat
  births     : Nat
  deaths     : Nat
deriving DecidableEq, Repr

namespace Run

/-- The milliseconds of motion in one tick. -/
def frameTime : Float := 1000.0 / 60.0

/-- Sets up a run in an enclosure of the configured size. Where no seed is given or configured, the
randomness comes from the key `entropy`. -/
def start (config : Config) (options : RunOptions) (entropy : BitVec 256) : Outcome Run := do
  let seed := options.seed <|> config.world.seed
  let config := { config with world := { config.world with seed } }
  let world ← World.create config (.empty config.world.width config.world.height) entropy
  return { options, world }

/-- Whether a tick is the last one or later. -/
def reachesEnd (options : RunOptions) (tick : Nat) : Bool := options.ticks.any (· ≤ tick)

/-- One tick: its events, and the run after it. -/
def step (r : Run) : Outcome (List Event × Run) := do
  let (events, world) ← r.world.advance frameTime
  let tally := (r.tally.recordEvents events).recordTick world.population world.foodCount
  let running := r.running && !reachesEnd r.options world.tick
  return (events, { r with world, tally, running })

/-- Whether a frame is asked for at the present tick. -/
def frameDue (r : Run) : Bool :=
  r.options.snapshotEvery.any fun every => 0 < every && r.world.tick % every = 0

/-- One tick: the frame that is due after it, and the run after it. -/
def emit (r : Run) : Outcome (Option Frame × Run) := do
  let (_, r) ← r.step
  return (if r.frameDue then some r.world.frame else none, r)

/-! ## Whole runs -/

/-- Lets a run go on, for `n` ticks at most, and collects the frames behind those of before. A run that
breaks off has emitted the frames up to there. -/
def goOn : (n : Nat) → Array Frame → Run → Array Frame × Outcome Run
  | 0,     emitted, r => (emitted, .ok r)
  | n + 1, emitted, r =>
    if r.running then
      match r.emit with
      | .error cause    => (emitted, .error cause)
      | .ok (frame?, r) => goOn n (emitted ++ frame?.toArray) r
    else
      (emitted, .ok r)

/-- The ticks that a run with a last tick makes when it is let go on. -/
def ticksLeft? (r : Run) : Option Nat :=
  r.options.ticks.map fun last => if r.running then max 1 (last - r.world.tick) else 0

/-- Lets a run with a last tick go on to its end, and yields the frames on the way. -/
def finish? (r : Run) : Option (Array Frame × Outcome Run) := r.ticksLeft?.map fun n => goOn n #[] r

def summary (r : Run) : Summary :=
  { ticks      := r.world.tick
    population := r.world.population
    food       := r.world.foodCount
    births     := r.tally.births
    deaths     := r.tally.deaths }

end Run

end Vivarium
