/-!
# The key stream

Every run draws its random words from a ChaCha key stream with eight rounds, a zero nonce and a 64-bit
block counter that starts at zero. The key of 256 bits is given, or a 64-bit seed is stretched to it by
eight steps of a permuted congruential generator. The stream hands out the sixteen 32-bit words of a block in
order; a 64-bit word is made of the next two, the low half first, also across a block boundary.
-/

namespace Vivarium

/-- The sixteen words that a block is computed on. -/
abbrev Grid := Vector UInt32 16

namespace Grid

/-- Rotation of a word to the left by `n` bits, for `n` between 1 and 31. -/
def rotateLeft (x : UInt32) (n : UInt32) : UInt32 := (x <<< n) ||| (x >>> (32 - n))

/-- Mixes four words of the grid. -/
def quarterRound (a b c d : Fin 16) (g : Grid) : Grid :=
  let wa := g[a] + g[b]
  let wd := rotateLeft (g[d] ^^^ wa) 16
  let wc := g[c] + wd
  let wb := rotateLeft (g[b] ^^^ wc) 12
  let wa := wa + wb
  let wd := rotateLeft (wd ^^^ wa) 8
  let wc := wc + wd
  let wb := rotateLeft (wb ^^^ wc) 7
  (((g.set a wa).set b wb).set c wc).set d wd

/-- One round over the columns of the grid, then one over its diagonals. -/
def doubleRound (g : Grid) : Grid :=
  -- the columns
  let g := quarterRound 0 4 8 12 g
  let g := quarterRound 1 5 9 13 g
  let g := quarterRound 2 6 10 14 g
  let g := quarterRound 3 7 11 15 g
  -- the diagonals
  let g := quarterRound 0 5 10 15 g
  let g := quarterRound 1 6 11 12 g
  let g := quarterRound 2 7 8 13 g
  quarterRound 3 4 9 14 g

end Grid

/-- A key stream: its key, the number of the next block and the words of the last block not yet used. -/
structure KeyStream where
  key     : Vector UInt32 8
  block   : UInt64
  pending : List UInt32
deriving DecidableEq, Inhabited

namespace KeyStream

/-- Stretches a seed to `n` key words: each step is linear in the state, and its output is the state
folded to 32 bits and rotated right by the top five bits. -/
def keyWords (state : UInt64) : Nat → List UInt32
  | 0     => []
  | n + 1 =>
    let state := state * 6364136223846793005 + 11634580027462260723
    let folded := (((state >>> 18) ^^^ state) >>> 27).toUInt32
    let turn := (state >>> 59).toUInt32
    let word := (folded >>> turn) ||| (folded <<< ((32 - turn) % 32))
    word :: keyWords state n

/-- The stream that a seed starts. -/
def ofSeed (seed : UInt64) : KeyStream where
  key     := Vector.ofFn fun i => (keyWords seed 8).getD i 0
  block   := 0
  pending := []

/-- The stream of a key, which is read in words from its low end. -/
def ofKey (key : BitVec 256) : KeyStream where
  key     := Vector.ofFn fun i => UInt32.ofBitVec (key.extractLsb' (32 * i) 32)
  block   := 0
  pending := []

/-- The grid of block number `n`: four constant words, the key, the counter and the zero nonce. -/
def gridAt (key : Vector UInt32 8) (n : UInt64) : Grid :=
  #v[0x61707865, 0x3320646e, 0x79622d32, 0x6b206574,
     key[0], key[1], key[2], key[3], key[4], key[5], key[6], key[7],
     n.toUInt32, (n >>> 32).toUInt32, 0, 0]

/-- The words of block number `n`: eight rounds over its grid, added to the grid itself. -/
def blockAt (key : Vector UInt32 8) (n : UInt64) : Grid :=
  let g := gridAt key n
  Vector.zipWith (· + ·) g (g.doubleRound.doubleRound.doubleRound.doubleRound)

/-- The next 32-bit word. -/
def next32 (k : KeyStream) : UInt32 × KeyStream :=
  match k.pending with
  | w :: ws => (w, { k with pending := ws })
  | []      =>
    let words := blockAt k.key k.block
    (words[0], { k with block := k.block + 1, pending := words.toList.tail })

/-- The next 64-bit word: two 32-bit words, the low half first. -/
def next64 (k : KeyStream) : UInt64 × KeyStream :=
  let (lo, k) := k.next32
  let (hi, k) := k.next32
  (lo.toUInt64 ||| (hi.toUInt64 <<< 32), k)

end KeyStream

end Vivarium
