import Vivarium.Datum.Basic
import Vivarium.Decimal.Digits
import Vivarium.Decimal.Nearest
import Vivarium.Scalar.Power

/-!
# Reading JSON text

A text holds one datum, with blank space around its parts. A number without a fraction or an exponent is
an integer if it fits into 64 bits, with or without sign; minus zero and all other numbers are reals, and
must not exceed the largest double. Of several entries of a record with one name the last one counts.
-/

namespace Vivarium.Json

open Digits

/-- A reader of the front of a text. -/
abbrev Reader (α : Type) := List Char → Option (α × List Char)

/-- The depth from which lists and records are not read. -/
def depthBound : Nat := 128

def isBlank (c : Char) : Bool := c == ' ' || c == '\t' || c == '\n' || c == '\r'

def skipBlanks (cs : List Char) : List Char := cs.dropWhile isBlank

/-! ## Numbers -/

/-- Decimal digits without leading zeros, and the rest. -/
def whole? (cs : List Char) : Option (List Char × List Char) :=
  match cs.takeWhile isDigit with
  | []          => none
  | '0' :: _ :: _ => none
  | digits      => some (digits, cs.dropWhile isDigit)

/-- The digits after a point, if there is one, and the rest. -/
def fraction? : List Char → Option (List Char × List Char)
  | '.' :: cs =>
    match cs.takeWhile isDigit with
    | []     => none
    | digits => some (digits, cs.dropWhile isDigit)
  | cs        => some ([], cs)

/-- The exponent after its letter, if there is one, and the rest. -/
def exponent? (cs : List Char) : Option (Int × List Char) :=
  match cs with
  | c :: rest =>
    if c = 'e' ∨ c = 'E' then
      let (negative, rest) := match rest with
        | '-' :: rest => (true, rest)
        | '+' :: rest => (false, rest)
        | rest        => (false, rest)
      (ofText? 10 (rest.takeWhile isDigit)).map fun n =>
        (if negative then -(n : Int) else n, rest.dropWhile isDigit)
    else some (0, cs)
  | []        => some (0, cs)

/-- The integer of a sign and digits, where it is one. -/
def integer? (negative : Bool) (digits : List Char) : Option Int := do
  let n ← ofText? 10 digits
  if negative then
    if 0 < n ∧ n ≤ twoTo 63 then some (-n) else none
  else
    if n < twoTo 64 then some n else none

/-- A number. -/
def number? (cs : List Char) : Option (Datum × List Char) := do
  let (negative, cs) := match cs with
    | '-' :: cs => (true, cs)
    | cs        => (false, cs)
  let (whole, afterWhole) ← whole? cs
  let (fraction, rest) ← fraction? afterWhole
  let (exponent, rest) ← exponent? rest
  match integer? negative whole, rest.length == afterWhole.length with
  | some n, true => return (.int n, rest)
  | _,      _    =>
    -- with a fraction or an exponent, or too long for an integer, it is a decimal
    let digits ← ofText? 10 (whole ++ fraction)
    let x := (Decimal.mk digits (exponent - fraction.length)).toFloat
    if x.isInf then none else return (.real (if negative then -x else x), rest)

/-! ## Texts -/

/-- Sixteen bits written by four hexadecimal digits, and the rest. -/
def unit? (cs : List Char) : Option (Nat × List Char) :=
  if 4 ≤ cs.length then (ofText? 16 (cs.take 4)).map (·, cs.drop 4) else none

/-- The character of one or, beyond sixteen bits, two units, read after the first `u`. -/
def unicode? (cs : List Char) : Option (Char × List Char) := do
  let (high, rest) ← unit? cs
  if high.isValidChar then return (Char.ofNat high, rest)
  -- what is no character by itself is the first half of a pair
  else match rest with
    | '\\' :: 'u' :: rest => do
      let (low, rest) ← unit? rest
      if high < 0xdc00 ∧ 0xdc00 ≤ low ∧ low < 0xe000 then
        return (Char.ofNat (0x10000 + (high - 0xd800) * 0x400 + (low - 0xdc00)), rest)
      else none
    | _ => none

/-- The character that an escape stands for, read after its backslash. -/
def escape? : Reader Char
  | '"' :: rest  => some ('"', rest)
  | '\\' :: rest => some ('\\', rest)
  | '/' :: rest  => some ('/', rest)
  | 'b' :: rest  => some ('\x08', rest)
  | 'f' :: rest  => some ('\x0c', rest)
  | 'n' :: rest  => some ('\n', rest)
  | 'r' :: rest  => some ('\r', rest)
  | 't' :: rest  => some ('\t', rest)
  | 'u' :: rest  => unicode? rest
  | _            => none

/-- Whether a character stands for itself in a text. -/
def isPlain (c : Char) : Bool := 32 ≤ c.toNat && c != '"' && c != '\\'

/-- The characters of a text up to its closing quote. -/
def text? : (fuel : Nat) → Reader (List Char)
  | 0,        _  => none
  | fuel + 1, cs =>
    let plain := cs.takeWhile isPlain
    match cs.dropWhile isPlain with
    | '"' :: rest  => some (plain, rest)
    | '\\' :: rest => do
      let (c, rest) ← escape? rest
      let (text, rest) ← text? fuel rest
      return (plain ++ c :: text, rest)
    | _            => none

/-- A text after its opening quote. -/
def string? (cs : List Char) : Option (String × List Char) :=
  (text? (cs.length + 1) cs).map fun (text, rest) => (String.ofList text, rest)

/-! ## Data -/

/-- Adds an entry behind those of a record, in place of one of the same name. -/
def enter (fields : List (String × Datum)) (name : String) (d : Datum) : List (String × Datum) :=
  (fields.filter fun e => e.1 ≠ name) ++ [(name, d)]

/-- The rest after a word. -/
def expect : (word : List Char) → List Char → Option (List Char)
  | [],      rest      => some rest
  | w :: ws, c :: rest => if w = c then expect ws rest else none
  | _ :: _,  []        => none

mutual

/-- A datum. -/
def value? : (fuel depth : Nat) → Reader Datum
  | 0,        _,     _  => none
  | fuel + 1, depth, cs =>
    match skipBlanks cs with
    | '\x7b' :: rest =>
      if depth + 1 < depthBound then
        match skipBlanks rest with
        | '\x7d' :: rest => some (.record [], rest)
        | rest           => fields? fuel (depth + 1) [] rest
      else none
    | '[' :: rest =>
      if depth + 1 < depthBound then
        match skipBlanks rest with
        | ']' :: rest => some (.list [], rest)
        | rest        => items? fuel (depth + 1) #[] rest
      else none
    | '"' :: rest => (string? rest).map fun (s, rest) => (.text s, rest)
    | 't' :: rest => (expect ['r', 'u', 'e'] rest).map (.bool true, ·)
    | 'f' :: rest => (expect ['a', 'l', 's', 'e'] rest).map (.bool false, ·)
    | 'n' :: rest => (expect ['u', 'l', 'l'] rest).map (.null, ·)
    | rest        => number? rest

/-- The items of a list, behind those that were read before, up to the closing bracket. -/
def items? : (fuel depth : Nat) → Array Datum → Reader Datum
  | 0,        _,     _,     _  => none
  | fuel + 1, depth, items, cs => do
    let (d, rest) ← value? fuel depth cs
    match skipBlanks rest with
    | ',' :: rest => items? fuel depth (items.push d) rest
    | ']' :: rest => return (.list (items.push d).toList, rest)
    | _           => none

/-- The entries of a record, added to those that were read before, up to the closing brace. -/
def fields? : (fuel depth : Nat) → List (String × Datum) → Reader Datum
  | 0,        _,     _,      _  => none
  | fuel + 1, depth, fields, cs => do
    let (name, rest) ← string? (← expect ['"'] (skipBlanks cs))
    let (d, rest) ← value? fuel depth (← expect [':'] (skipBlanks rest))
    match skipBlanks rest with
    | ',' :: rest    => fields? fuel depth (enter fields name d) rest
    | '\x7d' :: rest => return (.record (enter fields name d), rest)
    | _              => none

end

/-- The datum that a text holds. -/
def read? (text : String) : Option Datum := do
  let cs := text.toList
  let (d, rest) ← value? (cs.length + 1) 0 cs
  if (skipBlanks rest).isEmpty then some d else none

end Vivarium.Json
