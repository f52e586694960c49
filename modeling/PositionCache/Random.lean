/-!
# Random numbers

A source of random numbers answers three requests: for a word, for a number below a bound, and for
a number between two bounds. What uses a source relies on the bounds and on nothing else.
-/

namespace PositionCache

class RandomSource (σ : Type) where
  word : σ → UInt64 × σ
  /-- A word below a bound that is not zero. -/
  below (bound : UInt64) : σ → UInt64 × σ
  /-- A number from `least` to `greatest`, both of them included. -/
  between (least greatest : Int) : σ → Int × σ

/-- The numbers are within the bounds asked for. -/
class LawfulRandomSource (σ : Type) [RandomSource σ] : Prop where
  below_lt (bound : UInt64) (s : σ) : 0 < bound → (RandomSource.below bound s).1 < bound
  between_mem (least greatest : Int) (s : σ) : least ≤ greatest →
    least ≤ (RandomSource.between least greatest s).1 ∧
      (RandomSource.between least greatest s).1 ≤ greatest

/-- A number below `range` from random numbers below `limit`: the whole part of their product over
the limit. Where the remainder is so great that the digits cut off could carry, one more number
settles whether they do. -/
@[specialize]
def scaleDraw {σ : Type} (limit range : Nat) (draw : σ → Nat × σ) (s : σ) : Nat × σ :=
  let (first, s) := draw s
  let product := first * range
  let whole := product / limit
  let rest := product % limit
  if limit - range < rest then
    let (second, s) := draw s
    if limit ≤ rest + second * range / limit then (whole + 1, s) else (whole, s)
  else (whole, s)

end PositionCache
