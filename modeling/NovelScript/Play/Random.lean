/-! # Random numbers

A permuted congruential generator with 64 bits of state and 32 bits of output. -/

namespace NovelScript

/-- The state of the generator and the odd number that it adds in each step. -/
structure Pcg32 where
  state : UInt64
  increment : UInt64
deriving DecidableEq, Repr

namespace Pcg32

def multiplier : UInt64 := 6364136223846793005

/-- What the seeding adds in each of its own steps. -/
def seedIncrement : UInt64 := 11634580027462260723

/-- The output for a state: its high bits, mixed and rotated by the topmost five. -/
def output (state : UInt64) : UInt32 :=
  let mixed := (((state >>> 18) ^^^ state) >>> 27).toUInt32
  let turn := (state >>> 59).toUInt32
  if turn = 0 then mixed else (mixed >>> turn) ||| (mixed <<< (32 - turn))

/-- The next 32 bits. -/
def next32 (g : Pcg32) : UInt32 × Pcg32 :=
  (output g.state, { g with state := g.state * multiplier + g.increment })

/-- The next 64 bits, low half first. -/
def next64 (g : Pcg32) : UInt64 × Pcg32 :=
  let (low, g) := g.next32
  let (high, g) := g.next32
  (low.toUInt64 ||| (high.toUInt64 <<< 32), g)

/-- The generator of a seed. -/
def ofSeed (seed : UInt64) : Pcg32 :=
  let s1 := seed * multiplier + seedIncrement
  let s2 := s1 * multiplier + seedIncrement
  let s3 := s2 * multiplier + seedIncrement
  let s4 := s3 * multiplier + seedIncrement
  let word (low high : UInt64) := (output low).toUInt64 ||| ((output high).toUInt64 <<< 32)
  let increment := word s3 s4 ||| 1
  ⟨(word s1 s2 + increment) * multiplier + increment, increment⟩

/-- A number below `bound`: the high half of a product, and where the low half comes close to
overflowing a second draw decides about one more. -/
def below (g : Pcg32) (bound : Nat) : Nat × Pcg32 :=
  let (first, g) := g.next64
  let product := first.toNat * bound
  let high := product / UInt64.size
  let low := product % UInt64.size
  if UInt64.size - bound < low then
    let (second, g) := g.next64
    let carry := second.toNat * bound / UInt64.size
    (if UInt64.size ≤ low + carry then high + 1 else high, g)
  else (high, g)

end Pcg32

end NovelScript
