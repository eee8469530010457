import Vivarium.Codec.Config
import Vivarium.Config.Validity
import Vivarium.Toml.Read

/-!
# Configuration files

A configuration file is a TOML document. It is read, given defaults for what it leaves out, and judged.
A file that does not exist stands for the defaults, which are accepted.
-/

namespace Vivarium

/-- Why a configuration file is not used. -/
inductive ConfigError where
  /-- The file is there but cannot be read as a text. -/
  | unreadable
  /-- The text is no TOML document, or a parameter has not the form that is asked for. -/
  | malformed
  | invalid (cause : Violation)
deriving DecidableEq, Repr

/-- What was found where a configuration file was looked for. -/
inductive FileContent where
  | missing
  | unreadable
  | text (content : String)
deriving DecidableEq, Repr

/-- The content of a file from its bytes, which have to be UTF-8. -/
def FileContent.ofBytes (bytes : ByteArray) : FileContent :=
  match String.fromUTF8? bytes with
  | some s => .text s
  | none   => .unreadable

namespace Config

/-- Reads and judges a document. -/
def ofToml (document : String) : Except ConfigError Config :=
  match (Toml.read? document).map (Config.ofDatum .toml) with
  | some (.ok c) =>
    match c.validate with
    | .ok ()       => .ok c
    | .error cause => .error (.invalid cause)
  | _            => .error .malformed

/-- The configuration of a file. -/
def ofFile : FileContent → Except ConfigError Config
  | .missing    => .ok {}
  | .unreadable => .error .unreadable
  | .text s     => ofToml s

end Config

end Vivarium
