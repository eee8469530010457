import Vivarium.Kinship.Hue
import Vivarium.Table

/-!
# Similarity of genetic strings

The Sørensen–Dice coefficient over byte bigrams: twice the number of bigrams that two strings share,
each bigram as often as it occurs in both, over the number of bigrams that they have. Equal strings have
similarity one, and a string without bigrams none to any other. What two strings share is found with a
table of the first one's bigrams, from which those of the second are struck out.
-/

namespace Vivarium

section Shared

variable {α : Type} [DecidableEq α]

/-- The table of how often each item of a list occurs. -/
def occurrences (xs : List α) : Table α Nat :=
  xs.foldl (fun counts x => counts.insert x ((counts.get? x).getD 0 + 1)) .empty

/-- Strikes an item out of a table of counts, if any of it is left, and adds it to the shared ones. -/
def strike : Table α Nat × Nat → α → Table α Nat × Nat
  | (counts, shared), y =>
    match counts.get? y with
    | some n => if 0 < n then (counts.insert y (n - 1), shared + 1) else (counts, shared)
    | none   => (counts, shared)

/-- How many items of the second list can be struck out of the first, one for one. -/
def sharedCount (xs ys : List α) : Nat := (ys.foldl strike (occurrences xs, 0)).2

end Shared

/-- The coefficient of two strings of bytes with at least one bigram each. -/
def diceOfBytes (a b : List UInt8) : Float :=
  let shared := sharedCount (adjacentPairs a) (adjacentPairs b)
  2.0 * Float.ofNat shared / Float.ofNat ((a.length - 1) + (b.length - 1))

/-- The similarity of two strings. -/
def diceSimilarity (a b : String) : Float :=
  if a = b then 1.0
  else
    let bytesA := a.toUTF8.toList
    let bytesB := b.toUTF8.toList
    if bytesA.length < 2 || bytesB.length < 2 then 0.0 else diceOfBytes bytesA bytesB

end Vivarium
