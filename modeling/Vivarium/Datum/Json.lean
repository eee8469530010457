import Vivarium.Datum.Basic
import Vivarium.Decimal.Notation

/-!
# JSON text

Data on one line, without blanks, in the order in which records hold their entries. Numbers that are not
finite are written as null. In texts only the quote, the backslash and control characters are escaped.
-/

namespace Vivarium.Datum

/-- Reals between `10 ^ -5` and `10 ^ 16` are written without an exponent. -/
def jsonNotation : Notation where
  leastPlain := -5
  plainEnd   := 16
  tie        := .even

/-- One character of a text. -/
def escape (c : Char) : List Char :=
  match c with
  | '"'    => ['\\', '"']
  | '\\'   => ['\\', '\\']
  | '\n'   => ['\\', 'n']
  | '\r'   => ['\\', 'r']
  | '\t'   => ['\\', 't']
  | '\x08' => ['\\', 'b']
  | '\x0c' => ['\\', 'f']
  | c      => if c.toNat < 32 then '\\' :: 'u' :: Ident.hexDigits c.toNat 4 else [c]

/-- A text in quotes. -/
def quote (s : String) : String := String.ofList ('"' :: (s.toList.flatMap escape ++ ['"']))

mutual

/-- The JSON text of a datum. -/
def json : Datum → String
  | null          => "null"
  | bool b        => if b then "true" else "false"
  | int n         => toString n
  | real x        => if x.isFinite then jsonNotation.finite x else "null"
  | text s        => quote s
  | list items    => "[" ++ ",".intercalate (jsonItems items) ++ "]"
  | record fields => "\x7b" ++ ",".intercalate (jsonFields fields) ++ "\x7d"

/-- The texts of the items of a list. -/
def jsonItems : List Datum → List String
  | []      => []
  | d :: ds => d.json :: jsonItems ds

/-- The texts of the entries of a record. -/
def jsonFields : List (String × Datum) → List String
  | []             => []
  | (name, d) :: fs => (quote name ++ ":" ++ d.json) :: jsonFields fs

end

end Vivarium.Datum
