import Vivarium.Datum.Basic
import Vivarium.Decimal.Digits
import Vivarium.Decimal.Nearest
import Vivarium.Scalar.Power

/-!
# Bare scalars of a TOML document

Booleans, integers, floats and moments in time are written without quotes, as one word; only a date may
be followed by a blank and a time of day. A word is read as a whole. An integer has to fit into 64 bits
with sign; a float must not overflow upwards. A moment is checked against the calendar and the clock.
-/

namespace Vivarium.Toml

open Digits

/-! ## Digits -/

/-- The digits of a run in which single underscores may stand between digits. -/
def digitRun? (base : Nat) : List Char → Option (List Nat)
  | []               => none
  | [c]              => (digitValue? base c).map ([·])
  | c :: '_' :: rest => do return (← digitValue? base c) :: (← digitRun? base rest)
  | c :: rest        => do return (← digitValue? base c) :: (← digitRun? base rest)

/-- A sign, if there is one, and what follows it. -/
def sign : List Char → Bool × List Char
  | '-' :: rest => (true, rest)
  | '+' :: rest => (false, rest)
  | cs          => (false, cs)

/-! ## Integers -/

/-- Digits without leading zeros. -/
def plainRun? (cs : List Char) : Option (List Nat) :=
  match cs with
  | '0' :: _ :: _ => none
  | _             => digitRun? 10 cs

/-- The digits of a decimal integer after its sign. -/
def signedRun? (cs : List Char) : Option Int :=
  let (negative, rest) := sign cs
  (plainRun? rest).map fun digits =>
    let n : Int := number 10 digits
    if negative then -n else n

/-- The value of an integer of any size: decimal with a sign, or with a letter for one of three
other bases and without a sign. -/
def magnitude? : List Char → Option Int
  | '0' :: 'x' :: rest => (digitRun? 16 rest).map fun digits => (number 16 digits : Int)
  | '0' :: 'o' :: rest => (digitRun? 8 rest).map fun digits => (number 8 digits : Int)
  | '0' :: 'b' :: rest => (digitRun? 2 rest).map fun digits => (number 2 digits : Int)
  | cs                 => signedRun? cs

/-- An integer: one that fits 64 bits with a sign. -/
def integer? (cs : List Char) : Option Int :=
  (magnitude? cs).filter fun n => -(twoTo 63 : Int) ≤ n ∧ n < twoTo 63

/-! ## Floats -/

/-- The exponent after its letter. -/
def exponent? (cs : List Char) : Option Int := do
  let (negative, rest) := sign cs
  let n := number 10 (← digitRun? 10 rest)
  return if negative then -(n : Int) else n

/-- A float without its sign: a whole part and a fraction, an exponent, or both. -/
def unsignedFloat? (cs : List Char) : Option Decimal := do
  let inRun (c : Char) : Bool := isDigit c || c == '_'
  let whole ← plainRun? (cs.takeWhile inRun)
  match cs.dropWhile inRun with
  | '.' :: rest =>
    let fraction ← digitRun? 10 (rest.takeWhile inRun)
    let digits := number 10 (whole ++ fraction)
    match rest.dropWhile inRun with
    | []      => return ⟨digits, -fraction.length⟩
    | c :: cs => if c = 'e' ∨ c = 'E' then return ⟨digits, (← exponent? cs) - fraction.length⟩ else none
  | c :: cs => if c = 'e' ∨ c = 'E' then return ⟨number 10 whole, ← exponent? cs⟩ else none
  | []      => none

/-- A float. -/
def float? (cs : List Char) : Option Float :=
  let (negative, rest) := sign cs
  let signed (x : Float) : Float := if negative then -x else x
  if rest = ['i', 'n', 'f'] then some (signed (1.0 / 0.0))
  else if rest = ['n', 'a', 'n'] then some (0.0 / 0.0)
  else do
    let x := signed (← unsignedFloat? rest).toFloat
    if x.isInf ∧ ¬ negative then none else some x

/-! ## Moments -/

/-- The number written by exactly `n` digits, if it is at most `most`, and the rest. -/
def fixed? (n most : Nat) (cs : List Char) : Option (Nat × List Char) :=
  let digits := cs.take n
  if digits.length = n ∧ digits.all isDigit then do
    let value := number 10 (← digitRun? 10 digits)
    if value ≤ most then some (value, cs.drop n) else none
  else none

/-- The days of a month. -/
def daysOf (year month : Nat) : Nat :=
  match month with
  | 2 => if (year % 4 = 0 ∧ year % 100 ≠ 0) ∨ year % 400 = 0 then 29 else 28
  | 4 | 6 | 9 | 11 => 30
  | _ => 31

/-- Drops a character that has to be there. -/
def expect (c : Char) : List Char → Option (List Char)
  | d :: rest => if c = d then some rest else none
  | []        => none

/-- The rest after a date. -/
def date? (cs : List Char) : Option (List Char) := do
  let (year, cs) ← fixed? 4 9999 cs
  let (month, cs) ← fixed? 2 12 (← expect '-' cs)
  let (day, cs) ← fixed? 2 (daysOf year month) (← expect '-' cs)
  if month = 0 ∨ day = 0 then none else some cs

/-- The rest after a time of day. -/
def time? (cs : List Char) : Option (List Char) := do
  let (_, cs) ← fixed? 2 23 cs
  let (_, cs) ← fixed? 2 59 (← expect ':' cs)
  let (_, cs) ← fixed? 2 60 (← expect ':' cs)
  match cs with
  | '.' :: rest =>
    if (rest.takeWhile isDigit).isEmpty then none else some (rest.dropWhile isDigit)
  | _ => some cs

/-- Whether a text is an offset from universal time, or empty. -/
def isOffset (cs : List Char) : Bool :=
  match cs with
  | []    => true
  | ['Z'] => true
  | ['z'] => true
  | c :: rest =>
    (c == '+' || c == '-') &&
      (do
        let (_, rest) ← fixed? 2 23 rest
        let (_, rest) ← fixed? 2 59 (← expect ':' rest)
        return rest.isEmpty : Option Bool).getD false

/-- Whether a text is a date. -/
def isDate (cs : List Char) : Bool := date? cs == some []

/-- Whether a text is a time of day with or without an offset. -/
def isOffsetTime (cs : List Char) : Bool := ((time? cs).map isOffset).getD false

/-- Whether a text is a moment: a date, a time of day, or both joined by the letter `T`. -/
def isMoment (cs : List Char) : Bool :=
  isDate cs || time? cs == some [] ||
    match date? cs with
    | some (c :: rest) => (c == 'T' || c == 't') && isOffsetTime rest
    | _                => false

/-- What stands for a moment, none of which is ever asked for: a record whose one entry has a name that
no section uses. -/
def momentDatum (cs : List Char) : Datum := .record [("moment", .text (String.ofList cs))]

/-! ## Words -/

/-- Whether a character may stand in a bare scalar. -/
def inWord (c : Char) : Bool :=
  c.isAlphanum || c == '+' || c == '-' || c == '_' || c == '.' || c == ':'

/-- The datum of a word. -/
def word? (cs : List Char) : Option Datum :=
  if cs = "true".toList then some (.bool true)
  else if cs = "false".toList then some (.bool false)
  else if isMoment cs then some (momentDatum cs)
  else match float? cs with
    | some x => some (.real x)
    | none   => (integer? cs).map .int

/-- The bare scalar at the front of a text, and the rest. A date takes a time of day along that follows
after a blank. -/
def bare? (cs : List Char) : Option (Datum × List Char) :=
  let word := cs.takeWhile inWord
  let rest := cs.dropWhile inWord
  if isDate word then
    match rest with
    | ' ' :: rest' =>
      let time := rest'.takeWhile inWord
      if isOffsetTime time then some (momentDatum (word ++ ' ' :: time), rest'.dropWhile inWord)
      else some (momentDatum word, rest)
    | _ => some (momentDatum word, rest)
  else
    (word? word).map (·, rest)

end Vivarium.Toml
