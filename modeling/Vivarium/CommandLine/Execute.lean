import Vivarium.CommandLine.Arguments
import Vivarium.Run.Report

/-!
# Carrying out a command line

A command line either asks for a text, or for a run on a configuration file, which it may also fail to
set up. Each way to end has an exit code.
-/

namespace Vivarium.CommandLine

/-- How the program ends. -/
inductive Ending where
  | success
  /-- The run could not be set up, or was refused on its way. -/
  | failure
  /-- The command line was refused. -/
  | usage
  /-- The run broke off. -/
  | breakdown
deriving DecidableEq, Repr

/-- The exit code of an ending. -/
def Ending.code : Ending → UInt8
  | success   => 0
  | failure   => 1
  | usage     => 2
  | breakdown => 101

/-- The ending of a run that ended early. -/
def Ending.ofFailure : Failure → Ending
  | .refused _ => failure
  | .fault _   => breakdown

/-- The ending of a run that could not be set up. -/
def Ending.ofSetup : Run.SetupFailure → Ending
  | .error _ => failure
  | .fault _ => breakdown

/-- What comes of a command line: its ending, the frames that were emitted, and the summary of a run that
reached its end. -/
structure Report where
  ending  : Ending
  frames  : Array Frame := #[]
  summary : Option Summary := none

/-- Lets a run go on to its end; nothing comes of a run without a last tick. -/
def Report.ofRun (r : Run) : Option Report :=
  r.finish?.map fun
    | (frames, .ok r)        => { ending := .success, frames, summary := some r.summary }
    | (frames, .error cause) => { ending := .ofFailure cause, frames }

/-- Carries out a command line where `find` says what is found at a path. -/
def execute (arguments : List String) (find : String → FileContent) (entropy : BitVec 256) : Option Report :=
  match read arguments with
  | .error _    => some { ending := .usage }
  | .ok .help    => some { ending := .success }
  | .ok .version => some { ending := .success }
  | .ok (.run a) =>
    match Run.ofFile a.configPath (find a.configPath) a.options entropy with
    | .error cause => some { ending := .ofSetup cause }
    | .ok r        => Report.ofRun r

end Vivarium.CommandLine
