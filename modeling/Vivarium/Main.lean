import Vivarium.CommandLine.Execute
import Vivarium.CommandLine.Texts

/-!
# The command line program

Reads the configuration file, lets the run go on, and prints each frame when it is due and the summary at
the end. All decisions are made elsewhere; what is done here is to look at files, clocks and streams.
-/

namespace Vivarium.CommandLine

/-- Looks for a file. -/
def find (path : String) : IO FileContent := do
  match ← (IO.FS.readBinFile path).toBaseIO with
  | .ok bytes                      => return .ofBytes bytes
  | .error (.noFileOrDirectory ..) => return .missing
  | .error _                       => return .unreadable

/-- A key to start from where no seed is given. -/
def entropy : IO (BitVec 256) := do
  let bytes ← IO.getRandomBytes 32
  return BitVec.ofNat 256 (bytes.foldl (fun n b => 256 * n + b.toNat) 0)

/-- The milliseconds of a tick of a run that is held to a number of ticks per second. -/
def pace (ticksPerSecond : Nat) : Nat := if ticksPerSecond = 0 then 0 else 1000 / ticksPerSecond

/-- Lets a run go on, frame by frame. -/
partial def stream (r : Run) : IO (Except Failure Run) := do
  if r.running then
    let before ← IO.monoMsNow
    match r.emit with
    | .error cause    => return .error cause
    | .ok (frame?, r) =>
      if let some frame := frame? then
        IO.println frame.line
      let spent := (← IO.monoMsNow) - before
      IO.sleep (pace r.world.config.targetTps - spent).toUInt32
      stream r
  else
    return .ok r

/-- Tells why a run ended early, and how the program ends then. -/
def complain (text : String) (ending : Ending) : IO UInt32 := do
  IO.eprintln s!"Error: {text}"
  return ending.code.toUInt32

/-- Lets a run go on to its end. -/
def carryOn (r : Run) : IO UInt32 := do
  let before ← IO.monoMsNow
  match ← stream r with
  | .error (.refused cause) => complain cause.message .failure
  | .error (.fault _)       => complain "the run broke off" .breakdown
  | .ok r                   =>
    IO.eprintln (r.summary.line ((← IO.monoMsNow) - before))
    return Ending.success.code.toUInt32

/-- Sets up the run that a command line asks for. -/
def setUp (a : Arguments) : IO (Except Run.SetupFailure Run) := do
  return Run.ofFile a.configPath (← find a.configPath) a.options (← entropy)

end Vivarium.CommandLine

open Vivarium Vivarium.CommandLine in
def main (arguments : List String) : IO UInt32 := do
  match CommandLine.read arguments with
  | .error cause => do
    IO.eprintln s!"error: {cause.message}\n\n{usage}"
    return Ending.usage.code.toUInt32
  | .ok .help    => do
    IO.println help
    return Ending.success.code.toUInt32
  | .ok .version => do
    IO.println version
    return Ending.success.code.toUInt32
  | .ok (.run a) =>
    match ← setUp a with
    | .error (.error cause) => complain cause.message .failure
    | .error (.fault _)     => complain "the run broke off" .breakdown
    | .ok r                 => carryOn r
