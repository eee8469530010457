import Vivarium.Decimal.Digits
import Vivarium.Run.Basic
import Vivarium.Scalar.Power

/-!
# Arguments

Four options take a value, behind a blank, behind `=`, or, after the letter of a short option, at once;
none may be given twice. Two more ask for help and for the version; the first of them that is reached
ends the reading. What stands behind a blank is a value only if it does not look like an option, that is,
if it does not begin with a hyphen or is one. There are no other arguments. Arguments are judged one
after the other.
-/

namespace Vivarium.CommandLine

/-- An option with a value. -/
inductive Setting where
  | config
  | seed
  | ticks
  | snapshotEvery
deriving DecidableEq, Repr

/-- What a name stands for. -/
inductive Meaning where
  | setting (s : Setting)
  | help
  | version
deriving DecidableEq, Repr

namespace Meaning

/-- What the long name of an option stands for. -/
def ofName? : String → Option Meaning
  | "config"         => some (.setting .config)
  | "seed"           => some (.setting .seed)
  | "ticks"          => some (.setting .ticks)
  | "snapshot-every" => some (.setting .snapshotEvery)
  | "help"           => some .help
  | "version"        => some .version
  | _                => none

/-- What the letter of an option stands for. -/
def ofLetter? : Char → Option Meaning
  | 'c' => some (.setting .config)
  | 's' => some (.setting .seed)
  | 't' => some (.setting .ticks)
  | 'h' => some .help
  | 'V' => some .version
  | _   => none

end Meaning

/-- The long name of an option with a value. -/
def Setting.name : Setting → String
  | config        => "config"
  | seed          => "seed"
  | ticks         => "ticks"
  | snapshotEvery => "snapshot-every"

/-- The settings of a run. -/
structure Arguments where
  configPath : String := "config.toml"
  options    : RunOptions := {}
deriving DecidableEq, Inhabited, Repr

/-- What a command line asks for. -/
inductive Request where
  | run (arguments : Arguments)
  | help
  | version
deriving DecidableEq, Repr

/-- Why a command line is refused. -/
inductive ArgumentError where
  /-- An argument that is neither an option nor the value of one. -/
  | unexpected (argument : String)
  | missingValue (setting : Setting)
  /-- A value for an option that takes none. -/
  | surplusValue (argument : String)
  | badNumber (setting : Setting) (value : String)
  | repeated (setting : Setting)
deriving DecidableEq, Repr

/-! ## Values -/

/-- Reads an unsigned number of 64 bits: decimal digits, with or without a plus sign before them. -/
def number? (text : String) : Option Nat :=
  let digits := match text.toList with
    | '+' :: rest => rest
    | cs          => cs
  (Digits.ofText? 10 digits).filter (· < twoTo 64)

/-- What has been read so far. -/
structure Progress where
  arguments : Arguments := {}
  /-- The settings that were given. -/
  given     : List Setting := []

namespace Progress

/-- The arguments with the value of a setting. -/
def assign (a : Arguments) (s : Setting) (value : String) : Except ArgumentError Arguments :=
  match s, number? value with
  | .config,        _      => .ok { a with configPath := value }
  | .seed,          some n => .ok { a with options := { a.options with seed := some n } }
  | .ticks,         some n => .ok { a with options := { a.options with ticks := some n } }
  | .snapshotEvery, some n => .ok { a with options := { a.options with snapshotEvery := some n } }
  | s,              none   => .error (.badNumber s value)

/-- Takes a value for a setting. -/
def set (p : Progress) (s : Setting) (value : String) : Except ArgumentError Progress := do
  let arguments ← assign p.arguments s value
  if s ∈ p.given then throw (.repeated s) else return { arguments, given := s :: p.given }

end Progress

/-! ## Reading -/

/-- How one argument reads by itself. -/
inductive Reading where
  /-- An option with its value, or one whose value is still to come. -/
  | setting (s : Setting) (value : Option String)
  | help
  | version
deriving DecidableEq, Repr

/-- Whether an argument is read as an option: it begins with a hyphen, and is not one. -/
def looksLikeOption (argument : String) : Bool :=
  match argument.toList with
  | '-' :: _ :: _ => true
  | _             => false

/-- Reads a long option, without its two hyphens. -/
def readLong (body : List Char) : Except ArgumentError Reading :=
  let name := String.ofList (body.takeWhile (· ≠ '='))
  let value? : Option String := match body.dropWhile (· ≠ '=') with
    | _ :: value => some (String.ofList value)
    | []         => none
  -- what is asked for comes first: help and the version take no value
  match Meaning.ofName? name, value? with
  | none,              _      => .error (.unexpected ("--" ++ name))
  | some (.setting s), _      => .ok (.setting s value?)
  | some .help,        none   => .ok .help
  | some .version,     none   => .ok .version
  | some _,            some _ => .error (.surplusValue ("--" ++ name))

/-- Reads a short option, without its hyphen. Whatever follows the letter of an option with a value is
the value. -/
def readShort : List Char → Except ArgumentError Reading
  | []             => .error (.unexpected "-")
  | letter :: rest =>
    match Meaning.ofLetter? letter with
    | none              => .error (.unexpected (String.ofList ['-', letter]))
    | some .help        => .ok .help
    | some .version     => .ok .version
    | some (.setting s) => .ok <| .setting s <|
      match rest with
      | []           => none
      | '=' :: value => some (String.ofList value)
      | value        => some (String.ofList value)

/-- Reads an argument by itself. -/
def readOne (argument : String) : Except ArgumentError Reading :=
  match argument.toList with
  | '-' :: '-' :: body => readLong body
  | '-' :: c :: body   => readShort (c :: body)
  | _                  => .error (.unexpected argument)

/-- Reads the arguments that are left. -/
def readAll (p : Progress) : List String → Except ArgumentError Request
  | []                   => .ok (.run p.arguments)
  -- nothing may follow the two dashes
  | ["--"]               => .ok (.run p.arguments)
  | "--" :: argument :: _ => .error (.unexpected argument)
  | argument :: rest     => do
    match ← readOne argument with
    | .help                   => return .help
    | .version                => return .version
    | .setting s (some value) => readAll (← p.set s value) rest
    | .setting s none         =>
      match rest with
      | []             => throw (.missingValue s)
      | value :: rest' =>
        -- what looks like an option is not taken for the value of the one before
        if looksLikeOption value then throw (.missingValue s) else readAll (← p.set s value) rest'

/-- Reads a command line. -/
def read (arguments : List String) : Except ArgumentError Request := readAll {} arguments

end Vivarium.CommandLine
