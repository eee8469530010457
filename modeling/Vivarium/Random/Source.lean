import Vivarium.Random.KeyStream

/-!
# Sources of random words

A source is a script of given words followed by a key stream. While the script lasts, a 32-bit word is
the low half of one scripted word; the key stream is not touched before the script is used up.
-/

namespace Vivarium

/-- Where random words come from. -/
structure Source where
  script : List UInt64
  stream : KeyStream
deriving DecidableEq, Inhabited

namespace Source

/-- The source of the seed alone. -/
def ofSeed (seed : UInt64) : Source := ⟨[], KeyStream.ofSeed seed⟩

/-- The source of a key alone. -/
def ofKey (key : BitVec 256) : Source := ⟨[], KeyStream.ofKey key⟩

/-- The next 64-bit word. -/
def next64 (s : Source) : UInt64 × Source :=
  match s.script with
  | w :: ws => (w, { s with script := ws })
  | []      =>
    let (w, stream) := s.stream.next64
    (w, { s with stream })

/-- The next 32-bit word. -/
def next32 (s : Source) : UInt32 × Source :=
  match s.script with
  | w :: ws => (w.toUInt32, { s with script := ws })
  | []      =>
    let (w, stream) := s.stream.next32
    (w, { s with stream })

end Source

end Vivarium
