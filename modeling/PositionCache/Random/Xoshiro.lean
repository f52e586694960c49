import PositionCache.Keys
import PositionCache.Random
import PositionCache.Word

/-!
# Xoshiro256++

A generator of 64-bit words with a state of four. The state is seeded with the keys of four
positions a golden step apart, which is the SplitMix sequence of the seed. Numbers within bounds
that need no more than 32 bits are scaled from the high halves of the words.
-/

namespace PositionCache

structure Xoshiro where
  s0 : UInt64
  s1 : UInt64
  s2 : UInt64
  s3 : UInt64
deriving DecidableEq, Inhabited

namespace Xoshiro

def rotateLeft (x : UInt64) (bits : UInt64) : UInt64 := x <<< bits ||| x >>> (64 - bits)

def ofSeed (seed : UInt64) : Xoshiro where
  s0 := scramble seed
  s1 := scramble (seed + goldenStep)
  s2 := scramble (seed + 2 * goldenStep)
  s3 := scramble (seed + 3 * goldenStep)

def next (x : Xoshiro) : UInt64 × Xoshiro :=
  let word := rotateLeft (x.s0 + x.s3) 23 + x.s0
  let shifted := x.s1 <<< 17
  let s2 := x.s2 ^^^ x.s0
  let s3 := x.s3 ^^^ x.s1
  let s1 := x.s1 ^^^ s2
  let s0 := x.s0 ^^^ s3
  (word, ⟨s0, s1, s2 ^^^ shifted, rotateLeft s3 45⟩)

def draw64 (x : Xoshiro) : Nat × Xoshiro :=
  let (word, x) := x.next
  (word.toNat, x)

/-- The high half of the next word. -/
def draw32 (x : Xoshiro) : Nat × Xoshiro :=
  let (word, x) := x.next
  ((word >>> 32).toNat, x)

instance : RandomSource Xoshiro where
  word := next
  below bound x :=
    let (n, x) := scaleDraw wordLimit bound.toNat draw64 x
    (UInt64.ofNat n, x)
  between least greatest x :=
    let (n, x) := scaleDraw halfLimit (greatest - least + 1).toNat draw32 x
    (least + n, x)

end Xoshiro

end PositionCache
