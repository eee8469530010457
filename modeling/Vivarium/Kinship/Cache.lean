import Std.Data.HashMap
import Vivarium.Kinship.Dice

/-!
# The memo of similarities

Scores are kept under unordered pairs of genetic strings, each with the ordinal of its insertion. When
the table has grown to its capacity it is compacted: the more recent half is kept and numbered anew
from one. The table is a bounded list in the order of insertion; the hash map only finds its entries.
-/

namespace Vivarium

/-- An unordered pair of strings: the smaller one, byte by byte, comes first. -/
structure PairKey where
  first  : String
  second : String
deriving DecidableEq, Hashable, Repr

/-- The key of a pair, whichever way round it is given. -/
def PairKey.of (a b : String) : PairKey := if b < a then ⟨b, a⟩ else ⟨a, b⟩

/-- A score and the ordinal under which it was inserted. -/
structure CacheEntry where
  ordinal : Nat
  score   : Float

/-- The memo. -/
structure Cache where
  entries     : Std.HashMap PairKey CacheEntry
  lastOrdinal : Nat
  capacity    : Nat

namespace Cache

/-- An empty memo. A capacity below two counts as two. -/
def empty (capacity : Nat) : Cache := ⟨∅, 0, max capacity 2⟩

/-- The capacity where none is asked for. -/
def defaultCapacity : Nat := 1000

def size (c : Cache) : Nat := c.entries.size

def isEmpty (c : Cache) : Bool := c.entries.isEmpty

def get? (c : Cache) (key : PairKey) : Option Float := c.entries[key]?.map (·.score)

def ordinal? (c : Cache) (key : PairKey) : Option Nat := c.entries[key]?.map (·.ordinal)

/-- The entries from the earliest insertion to the latest. -/
def inOrder (c : Cache) : List (PairKey × CacheEntry) :=
  c.entries.toList.mergeSort fun a b => a.2.ordinal ≤ b.2.ordinal

/-- Keeps the last `capacity / 2` entries and numbers them from one. -/
def compact (c : Cache) : Cache :=
  let sorted := c.inOrder
  let kept := sorted.drop (sorted.length - c.capacity / 2)
  let numbered := kept.zipIdx.map fun ((key, e), i) => (key, { e with ordinal := i + 1 })
  { c with entries := Std.HashMap.ofList numbered, lastOrdinal := numbered.length }

/-- Puts a score under a key, as the latest entry; compacts a table that is full. -/
def insert (c : Cache) (key : PairKey) (score : Float) : Cache :=
  let ordinal := c.lastOrdinal + 1
  let c := { c with entries := c.entries.insert key ⟨ordinal, score⟩, lastOrdinal := ordinal }
  if c.capacity ≤ c.size then c.compact else c

/-- The similarity of two strings, from the memo if it is there, and the memo afterwards. -/
def similarity (c : Cache) (a b : String) : Float × Cache :=
  let key := PairKey.of a b
  match c.get? key with
  | some score => (score, c)
  | none       =>
    let score := diceSimilarity a b
    (score, c.insert key score)

end Cache

end Vivarium
