import Vivarium.Toml.Scalar

/-!
# Texts and keys of a TOML document

A text stands between quotes, single ones for a literal text and double ones for a text with escapes,
or between triple quotes of either kind if it may run over several lines. A key is a bare word or a text
of one line; a dotted key is several of them.
-/

namespace Vivarium.Toml

open Digits

/-- A reader of the front of a text. -/
abbrev Reader (α : Type) := List Char → Option (α × List Char)

/-- Whether a character may stand for itself within a line: everything but control characters, of which
only the tab is allowed. -/
def isPrintable (c : Char) : Bool := c == '\t' || (32 ≤ c.toNat && c.toNat != 127)

/-- Blanks and tabs. -/
def isBlank (c : Char) : Bool := c == ' ' || c == '\t'

def skipBlanks (cs : List Char) : List Char := cs.dropWhile isBlank

/-- The rest after a line end. -/
def newline? : List Char → Option (List Char)
  | '\n' :: rest         => some rest
  | '\r' :: '\n' :: rest => some rest
  | _                    => none

/-! ## Escapes -/

/-- The character with the code written by exactly `n` hexadecimal digits, and the rest. -/
def codePoint? (n : Nat) (cs : List Char) : Option (Char × List Char) := do
  let code ← ofText? 16 (cs.take n)
  if n ≤ cs.length ∧ code.isValidChar then some (Char.ofNat code, cs.drop n) else none

/-- The character that an escape stands for, read after its backslash. -/
def escape? : Reader Char
  | 'b' :: rest  => some ('\x08', rest)
  | 't' :: rest  => some ('\t', rest)
  | 'n' :: rest  => some ('\n', rest)
  | 'f' :: rest  => some ('\x0c', rest)
  | 'r' :: rest  => some ('\r', rest)
  | '"' :: rest  => some ('"', rest)
  | '\\' :: rest => some ('\\', rest)
  | 'u' :: rest  => codePoint? 4 rest
  | 'U' :: rest  => codePoint? 8 rest
  | _            => none

/-- Skips line ends and blanks after a backslash at the end of a line; nothing if there is no line
end. -/
def foldedLines? (cs : List Char) : Option (List Char) :=
  (newline? (skipBlanks cs)).map fun rest =>
    rest.dropWhile fun c => isBlank c || c == '\n' || c == '\r'

/-! ## Texts -/

/-- The characters of a text of one line up to its closing quote, with or without escapes. -/
def lineText (quote : Char) (escapes : Bool) : (fuel : Nat) → Reader (List Char)
  | 0,        _       => none
  | _ + 1,    []      => none
  | fuel + 1, c :: cs =>
    if c = quote then some ([], cs)
    else if escapes ∧ c = '\\' then do
      let (e, cs) ← escape? cs
      let (text, rest) ← lineText quote escapes fuel cs
      return (e :: text, rest)
    else if isPrintable c then do
      let (text, rest) ← lineText quote escapes fuel cs
      return (c :: text, rest)
    else none

/-- The characters of a text of several lines up to its closing quotes. Up to two quotes may stand
before these. -/
def blockText (quote : Char) (escapes : Bool) : (fuel : Nat) → Reader (List Char)
  | 0,        _       => none
  | _ + 1,    []      => none
  | fuel + 1, c :: cs =>
    if c = quote then
      let run := (c :: cs).takeWhile (· == quote)
      if run.length < 3 then do
        let (text, rest) ← blockText quote escapes fuel cs
        return (c :: text, rest)
      else if run.length ≤ 5 then
        some (run.drop 3, (c :: cs).drop run.length)
      else none
    else if escapes ∧ c = '\\' then
      match foldedLines? cs with
      | some cs => blockText quote escapes fuel cs
      | none    => do
        let (e, cs) ← escape? cs
        let (text, rest) ← blockText quote escapes fuel cs
        return (e :: text, rest)
    else match newline? (c :: cs) with
      | some cs => do
        let (text, rest) ← blockText quote escapes fuel cs
        return ('\n' :: text, rest)
      | none    =>
        if isPrintable c then do
          let (text, rest) ← blockText quote escapes fuel cs
          return (c :: text, rest)
        else none

/-- A text after its opening quote, of one line or of several. A line end right after triple quotes does
not count. -/
def text? (quote : Char) (escapes : Bool) (cs : List Char) : Option (String × List Char) := do
  let (text, rest) ← match cs with
    | a :: b :: body =>
      if a = quote ∧ b = quote then
        blockText quote escapes (body.length + 1) ((newline? body).getD body)
      else lineText quote escapes (cs.length + 1) cs
    | _ => lineText quote escapes (cs.length + 1) cs
  return (String.ofList text, rest)

/-! ## Keys -/

/-- Whether a character may stand in a bare key. -/
def inBareKey (c : Char) : Bool := c.isAlphanum || c == '_' || c == '-'

/-- One part of a key. -/
def keyPart? : Reader String
  | '"' :: cs  => do
    let (text, rest) ← lineText '"' true (cs.length + 1) cs
    return (String.ofList text, rest)
  | '\'' :: cs => do
    let (text, rest) ← lineText '\'' false (cs.length + 1) cs
    return (String.ofList text, rest)
  | cs         =>
    let part := cs.takeWhile inBareKey
    if part.isEmpty then none else some (String.ofList part, cs.dropWhile inBareKey)

/-- The parts of a key, with blanks around each. -/
def keyParts? : (fuel : Nat) → Reader (List String)
  | 0,        _  => none
  | fuel + 1, cs => do
    let (part, rest) ← keyPart? (skipBlanks cs)
    match skipBlanks rest with
    | '.' :: rest => do
      let (parts, rest) ← keyParts? fuel rest
      return (part :: parts, rest)
    | rest => return ([part], rest)

/-- The bound that keeps keys and nested values from growing deep. -/
def depthBound : Nat := 80

/-- A key: all parts but the last, the last, and the rest of the text. -/
def key? (cs : List Char) : Option ((List String × String) × List Char) := do
  let (parts, rest) ← keyParts? (cs.length + 1) cs
  if depthBound ≤ parts.length then none
  else return ((parts.dropLast, ← parts.getLast?), rest)

end Vivarium.Toml
