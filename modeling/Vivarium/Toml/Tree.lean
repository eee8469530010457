import Vivarium.Datum.Basic

/-!
# Tables of a TOML document

A document builds a tree of tables. A table comes into being through its own header, through the header
of a table inside it, or through a dotted key; which of these decides what may still be added to it. No
key may be given twice, and what was given as a value is closed.
-/

namespace Vivarium.Toml

mutual

/-- What stands under a key. -/
inductive Node where
  | value (d : Datum)
  | table (t : Section)
  /-- The tables given under one header in double brackets, in order. -/
  | tables (ts : List Section)

/-- A table. -/
inductive Section where
  /-- `implied` if it has no header of its own; `dotted` if a dotted key made it. -/
  | mk (implied dotted : Bool) (fields : List (String × Node))

end

namespace Section

def implied : Section → Bool
  | mk implied _ _ => implied

def dotted : Section → Bool
  | mk _ dotted _ => dotted

def fields : Section → List (String × Node)
  | mk _ _ fields => fields

/-- A table with a header and no entries. -/
def empty : Section := mk false false []

instance : Inhabited Section := ⟨empty⟩

/-- The same table with other entries. -/
def withFields (s : Section) (fields : List (String × Node)) : Section := mk s.implied s.dotted fields

def get? (s : Section) (key : String) : Option Node := s.fields.lookup key

/-- Puts a node under a key, in the place of the one there or at the end. -/
def set (s : Section) (key : String) (n : Node) : Section :=
  if (s.get? key).isSome then
    s.withFields (s.fields.map fun (k, old) => if k = key then (k, n) else (k, old))
  else
    s.withFields (s.fields ++ [(key, n)])

/-- Removes the entry under a key. -/
def remove (s : Section) (key : String) : Section :=
  s.withFields (s.fields.filter fun (k, _) => k ≠ key)

/-- Changes the table at the end of a path, making the tables on the way that are missing. A header in
double brackets stands for the last table under it. A dotted path does not enter a table that has a
header of its own; no path enters a value. -/
def within (viaDots : Bool) (f : Section → Option Section) : (path : List String) → Section →
    Option Section
  | [],          s => f s
  | key :: path, s => do
    match s.get? key with
    | none             => do
      let child ← within viaDots f path (mk true viaDots [])
      return s.set key (.table child)
    | some (.table t)  => do
      if viaDots ∧ ¬ t.implied then none
      else return s.set key (.table (← within viaDots f path t))
    | some (.tables ts) => do
      let last ← within viaDots f path (← ts.getLast?)
      return s.set key (.tables (ts.dropLast ++ [last]))
    | some (.value _)  => none

/-- Puts a value under a new key. A key with dots only adds to tables that dots made, and one without
only to the table itself. -/
def put (key : String) (d : Datum) (hasPath : Bool) (s : Section) : Option Section :=
  if s.dotted ≠ hasPath ∨ (s.get? key).isSome then none
  else some (s.set key (.value d))

/-- Enters a key and its value. -/
def enter (path : List String) (key : String) (d : Datum) (s : Section) : Option Section :=
  within true (put key d (!path.isEmpty)) path s

mutual

/-- A node as data. -/
def nodeDatum : Node → Datum
  | .value d   => d
  | .table t   => datum t
  | .tables ts => .list (sectionData ts)

/-- A table as data. -/
def datum : Section → Datum
  | .mk _ _ fields => .record (fieldData fields)

/-- The entries of a table as data. -/
def fieldData : List (String × Node) → List (String × Datum)
  | []               => []
  | (key, n) :: rest => (key, nodeDatum n) :: fieldData rest

/-- A list of tables as data. -/
def sectionData : List Section → List Datum
  | []        => []
  | t :: rest => datum t :: sectionData rest

end

end Section

end Vivarium.Toml
