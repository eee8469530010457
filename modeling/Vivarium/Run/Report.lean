import Vivarium.Codec.Frame
import Vivarium.Config.File
import Vivarium.Datum.Json
import Vivarium.Run.Basic

/-!
# What a run reports

Frames and the summary go out as lines of JSON; why a run could not be set up, as one line of words.
-/

namespace Vivarium

/-- The line of a frame. -/
def Frame.line (f : Frame) : String := f.toDatum.json

namespace Summary

/-- The entries of the summary's record. -/
def entries (s : Summary) : List (String × Datum) :=
  [ ("ticks",      .ofNat s.ticks),
    ("population", .ofNat s.population),
    ("food",       .ofNat s.food),
    ("births",     .ofNat s.births),
    ("deaths",     .ofNat s.deaths) ]

/-- The line of the summary of a run that took so many milliseconds. -/
def line (s : Summary) (elapsed : Nat) : String :=
  (Datum.record (s.entries ++ [("elapsed_ms", .ofNat elapsed)])).json

end Summary

/-- Why a run could not be set up. -/
inductive SetupError where
  /-- The file at the path is not used. -/
  | config (path : String) (cause : ConfigError)
  /-- The world cannot be set up on the configuration. -/
  | world (cause : Refusal)
deriving DecidableEq, Repr

namespace SetupError

/-- What was attempted, and then why it failed; the last text is the first cause. A file that cannot be
read, or that is no configuration, has no text of its own. -/
def chain : SetupError → List String
  | config path (.invalid cause) => [s!"Failed to load config from {path}", cause.message]
  | config path _                => [s!"Failed to load config from {path}"]
  | world cause                  => ["Failed to build simulation", cause.message]

def message (e : SetupError) : String := ": ".intercalate e.chain

end SetupError

namespace Run

/-- How setting up a run ended early. -/
inductive SetupFailure where
  | error (cause : SetupError)
  | fault (cause : Fault)
deriving DecidableEq, Repr

/-- Sets up a run on a configuration. -/
def ofConfig (config : Config) (options : RunOptions) (entropy : BitVec 256) : Except SetupFailure Run :=
  match start config options entropy with
  | .ok r                     => .ok r
  | .error (.refused cause)   => .error (.error (.world cause))
  | .error (.fault cause)     => .error (.fault cause)

/-- Sets up a run on what was found at a path. -/
def ofFile (path : String) (content : FileContent) (options : RunOptions) (entropy : BitVec 256) :
    Except SetupFailure Run :=
  match Config.ofFile content with
  | .ok config    => ofConfig config options entropy
  | .error cause  => .error (.error (.config path cause))

end Run

end Vivarium
