import Vivarium.Codec.Config
import Vivarium.Codec.Creature
import Vivarium.Codec.Event
import Vivarium.Codec.Frame
import Vivarium.Codec.Program
import Vivarium.CommandLine.Arguments
import Vivarium.CommandLine.Execute
import Vivarium.CommandLine.Texts
import Vivarium.Config.Basic
import Vivarium.Config.File
import Vivarium.Config.Fingerprint
import Vivarium.Config.Validity
import Vivarium.Creature.Basic
import Vivarium.Creature.Birth
import Vivarium.Creature.Economy
import Vivarium.Datum.Basic
import Vivarium.Datum.Json
import Vivarium.Datum.JsonReader
import Vivarium.Decimal.Digits
import Vivarium.Decimal.Nearest
import Vivarium.Decimal.Notation
import Vivarium.Decimal.Shortest
import Vivarium.Digest.Sha256
import Vivarium.Enclosure
import Vivarium.Evolution.Clone
import Vivarium.Evolution.Offspring
import Vivarium.Evolution.Operator
import Vivarium.Evolution.Slot
import Vivarium.Fault
import Vivarium.Gene.Basic
import Vivarium.Gene.Catalog
import Vivarium.Gene.Instruction
import Vivarium.Geometry
import Vivarium.Ident
import Vivarium.Kinship.Cache
import Vivarium.Kinship.Dice
import Vivarium.Kinship.Hue
import Vivarium.Kinship.Relation
import Vivarium.Main
import Vivarium.Physics
import Vivarium.Program.Basic
import Vivarium.Program.Build
import Vivarium.Random.Draw
import Vivarium.Random.KeyStream
import Vivarium.Random.Source
import Vivarium.Refusal
import Vivarium.Run.Basic
import Vivarium.Run.Report
import Vivarium.Scalar.Binary
import Vivarium.Scalar.Hypot
import Vivarium.Scalar.Order
import Vivarium.Scalar.Power
import Vivarium.Schedule
import Vivarium.Table
import Vivarium.Tally
import Vivarium.Toml.Read
import Vivarium.Toml.Scalar
import Vivarium.Toml.Text
import Vivarium.Toml.Tree
import Vivarium.Turn.Execute
import Vivarium.Turn.Run
import Vivarium.Turn.Sense
import Vivarium.World.Access
import Vivarium.World.Basic
import Vivarium.World.Event
import Vivarium.World.Frame
import Vivarium.World.Stage
import Vivarium.World.Tick
import Vivarium.Proofs.Computation
import Vivarium.Proofs.Evolution.Drawn
import Vivarium.Proofs.Evolution.Trace
import Vivarium.Proofs.Evolution.Edit
import Vivarium.Proofs.Evolution.Reproduction
import Vivarium.Proofs.Evolution.JumpRepair
import Vivarium.Proofs.Evolution.Sequence
import Vivarium.Proofs.Evolution.Heredity
import Vivarium.Proofs.Scalar.Rounding
import Vivarium.Proofs.Scalar.Units
import Vivarium.Proofs.Scalar.Arithmetic
import Vivarium.Proofs.Scalar.Whole
import Vivarium.Proofs.Scalar.Within
import Vivarium.Proofs.Scalar.Floor
import Vivarium.Proofs.Creature.Life
import Vivarium.Proofs.Table
import Vivarium.Proofs.Physics
import Vivarium.Proofs.Kinship.Memo
import Vivarium.Proofs.Kinship.Hue
import Vivarium.Proofs.World.Change
import Vivarium.Proofs.World.Tick
import Vivarium.Proofs.World.History
import Vivarium.Proofs.World.Ledger
import Vivarium.Proofs.World.Chronicle
import Vivarium.Proofs.World.Arena
import Vivarium.Proofs.World.Programs
import Vivarium.Proofs.World.Views
import Vivarium.Proofs.Turn.Search
import Vivarium.Proofs.World.Requests
import Vivarium.Proofs.World.Bystanders
import Vivarium.Proofs.World.Newcomers
import Vivarium.Proofs.World.TurnOrder
import Vivarium.Proofs.World.Combat
import Vivarium.Proofs.World.Recall
import Vivarium.Proofs.World.Capacity
import Vivarium.Proofs.World.Upkeep
import Vivarium.Proofs.World.Economy
import Vivarium.Proofs.World.Moments
import Vivarium.Proofs.World.Population
import Vivarium.Proofs.World.Starvation
import Vivarium.Proofs.World.Meals
import Vivarium.Proofs.World.Kin
import Vivarium.Proofs.World.Strangers
import Vivarium.Proofs.Steady
import Vivarium.Proofs.Program.Building
import Vivarium.Proofs.Evolution.Steady
import Vivarium.Proofs.Evolution.Strict
import Vivarium.Proofs.Kinship.Mutual
import Vivarium.Proofs.World.Mutual
import Vivarium.Proofs.Creature.Steady
import Vivarium.Proofs.Scalar.Extent
import Vivarium.Proofs.World.Generations
import Vivarium.Proofs.World.Steady
import Vivarium.Proofs.World.Walls
import Vivarium.Proofs.Run.Ticks
import Vivarium.Proofs.World.Lasers
import Vivarium.Proofs.World.Aims
import Vivarium.Proofs.World.Countdown
import Vivarium.Proofs.Ident
import Vivarium.Proofs.Run.Tallied
import Vivarium.Proofs.World.Lifelong
import Vivarium.Proofs.World.Provenance
import Vivarium.Proofs.Tally
import Vivarium.Proofs.Codec.Programs
import Vivarium.Proofs.Codec.ReadBack
import Vivarium.Proofs.Kinship.Recency
import Vivarium.Proofs.Kinship.Transparency
import Vivarium.Proofs.Random.Attempts
import Vivarium.Proofs.Evolution.Choice
import Vivarium.Proofs.Creature.Turns
import Vivarium.Proofs.Turn.Nearest
import Vivarium.Proofs.Turn.Effects
import Vivarium.Proofs.Turn.Pace
import Vivarium.Proofs.World.Timeline
import Vivarium.Proofs.World.Bodies
import Vivarium.Proofs.World.Hits
import Vivarium.Proofs.World.Deliveries
import Vivarium.Proofs.Random.Fraction
import Vivarium.Proofs.Evolution.Descent
import Vivarium.Proofs.Evolution.Tradeoffs
import Vivarium.Proofs.Random.Attain
import Vivarium.Proofs.Evolution.Segments
import Vivarium.Proofs.Evolution.Alterations
import Vivarium.Proofs.World.Mutations
import Vivarium.Proofs.Scalar.Doubling
import Vivarium.Proofs.Scalar.Naturals
import Vivarium.Proofs.Kinship.Bigrams
import Vivarium.Proofs.Kinship.Wheel
import Vivarium.Proofs.World.Containment
import Vivarium.Proofs.Scalar.Products
import Vivarium.Proofs.Scalar.Bits
import Vivarium.Proofs.Scalar.Special
import Vivarium.Proofs.Random.Range
import Vivarium.Proofs.World.Pellets
import Vivarium.Proofs.World.Waiting
