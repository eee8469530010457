import Vivarium.CommandLine.Arguments

/-!
# Texts of the command line

The help, the version and the complaints about a refused command line.
-/

namespace Vivarium.CommandLine

/-- The line that shows how the program is called. -/
def usage : String := "Usage: vivarium [OPTIONS]"

/-- The answer to a request for help. -/
def help : String :=
  "\n".intercalate
    [ usage,
      "",
      "Options:",
      "  -c, --config <CONFIG>                  Custom config file path [default: config.toml]",
      "  -s, --seed <SEED>                      Seed for a reproducible run",
      "  -t, --ticks <TICKS>                    Stop after this many ticks",
      "      --snapshot-every <SNAPSHOT_EVERY>  Print a JSON snapshot of the world every N ticks",
      "  -h, --help                             Print help",
      "  -V, --version                          Print version" ]

/-- The answer to a request for the version. -/
def version : String := "vivarium 0.0.1"

/-- A name or value as it is shown in a complaint. -/
def quoted (text : String) : String := "'" ++ text ++ "'"

/-- An option as it is shown in a complaint. -/
def Setting.option (s : Setting) : String := quoted ("--" ++ s.name)

/-- The text of an error. -/
def ArgumentError.message : ArgumentError → String
  | unexpected argument   => s!"unexpected argument {quoted argument} found"
  | missingValue s        => s!"a value is required for {s.option} but none was supplied"
  | surplusValue argument => s!"unexpected value for {quoted argument} found"
  | badNumber s value     => s!"invalid value {quoted value} for {s.option}"
  | repeated s            => s!"the argument {s.option} cannot be used multiple times"

end Vivarium.CommandLine
