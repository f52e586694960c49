/-!
# Synthetic keys

Position numbers that follow one another are spread over the 64-bit keys by three shifts and two
multiplications by odd numbers. Each of the steps loses nothing, so distinct positions get
distinct keys, and `unscramble` finds the position again.
-/

namespace PositionCache

/-- The odd number next to 2⁶⁴ divided by the golden ratio. -/
def goldenStep : UInt64 := 0x9E3779B97F4A7C15

/-- Spreads the high bits of a word over its low ones. -/
def foldHigh (shift : UInt64) (x : UInt64) : UInt64 := x ^^^ (x >>> shift)

def scramble (position : UInt64) : UInt64 :=
  let x := position + goldenStep
  let x := foldHigh 30 x * 0xBF58476D1CE4E5B9
  let x := foldHigh 27 x * 0x94D049BB133111EB
  foldHigh 31 x

/-- Takes back a fold by at least 22 bits: two more folds bring every bit home. -/
def unfoldHigh (shift : UInt64) (x : UInt64) : UInt64 :=
  x ^^^ (x >>> shift) ^^^ (x >>> (shift + shift))

/-- The position number of a key. The factors are the inverses modulo 2⁶⁴. -/
def unscramble (key : UInt64) : UInt64 :=
  let x := unfoldHigh 31 key * 0x319642B2D24D8EC3
  let x := unfoldHigh 27 x * 0x96DE1B173F119089
  unfoldHigh 30 x - goldenStep

end PositionCache
