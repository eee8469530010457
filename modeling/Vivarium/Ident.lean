/-!
# Identifiers

Creatures, pellets and genes carry 128-bit identifiers, held as two 64-bit halves. An identifier has
one canonical text, its 32 lower-case hexadecimal digits grouped `8-4-4-4-12`; when read back, the
ungrouped digits, the text in braces and the text after `urn:uuid:` name the same identifier, and the
case of the digits does not matter.
-/

namespace Vivarium

/-- A 128-bit identifier. -/
structure Ident where
  high : UInt64
  low  : UInt64
deriving DecidableEq, Hashable, Inhabited, Repr

namespace Ident

/-- The identifier whose bits are all zero. -/
def nil : Ident := ⟨0, 0⟩

/-- The identifier numbered `n`, modulo `2 ^ 128`. -/
def ofNat (n : Nat) : Ident := ⟨(n >>> 64).toUInt64, n.toUInt64⟩

/-! ## Text -/

/-- The lower-case digit of a value below sixteen. -/
def hexDigit (n : Nat) : Char :=
  if n < 10 then Char.ofNat (48 + n) else Char.ofNat (87 + n)

/-- The last `width` hexadecimal digits of `n`, the most significant first. -/
def hexDigits (n : Nat) : Nat → List Char
  | 0         => []
  | width + 1 => hexDigits (n >>> 4) width ++ [hexDigit (n % 16)]

/-- The value of a hexadecimal digit of either case. -/
def hexValue? (c : Char) : Option Nat :=
  let n := c.toNat
  if 48 ≤ n ∧ n ≤ 57 then some (n - 48)
  else if 97 ≤ n ∧ n ≤ 102 then some (n - 87)
  else if 65 ≤ n ∧ n ≤ 70 then some (n - 55)
  else none

/-- The number that a run of hexadecimal digits writes. -/
def hexNumber? (cs : List Char) : Option Nat :=
  cs.foldlM (fun n c => (hexValue? c).map (16 * n + ·)) 0

/-- Cuts a text after 8, 4, 4 and 4 characters and joins the pieces with hyphens. -/
def group (cs : List Char) : List Char :=
  cs.take 8 ++ '-' :: (cs.drop 8).take 4 ++ '-' :: (cs.drop 12).take 4
    ++ '-' :: (cs.drop 16).take 4 ++ '-' :: cs.drop 20

/-- The canonical text. -/
def text (i : Ident) : String :=
  String.ofList (group (hexDigits i.high.toNat 16 ++ hexDigits i.low.toNat 16))

/-- Reads 32 digits without hyphens. -/
def ofDigits? (cs : List Char) : Option Ident :=
  if cs.length = 32 then (hexNumber? cs).map ofNat else none

/-- Reads 36 characters with hyphens in the four places where `group` puts them. -/
def ofGrouped? (cs : List Char) : Option Ident :=
  let digits := cs.take 8 ++ (cs.drop 9).take 4 ++ (cs.drop 14).take 4
    ++ (cs.drop 19).take 4 ++ cs.drop 24
  if cs.length = 36 ∧ group digits = cs then ofDigits? digits else none

/-- Reads any of the four accepted forms, told apart by their lengths. -/
def ofText? (s : String) : Option Ident :=
  let cs := s.toList
  -- plain, grouped, grouped in braces, and as a uniform name
  match cs.length with
  | 32 => ofDigits? cs
  | 36 => ofGrouped? cs
  | 38 => if cs.head? = some '\x7b' ∧ cs.getLast? = some '\x7d' then
            ofGrouped? (cs.drop 1).dropLast else none
  | 45 => if cs.take 9 = "urn:uuid:".toList then ofGrouped? (cs.drop 9) else none
  | _  => none

end Ident

end Vivarium
