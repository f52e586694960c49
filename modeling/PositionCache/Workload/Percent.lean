import PositionCache.Binary64

/-!
# Shares

Shares are computed in floating point, one rounding for each operation.
-/

namespace PositionCache

/-- How many of a hundred; none of nothing. -/
def percent (part whole : Nat) : Binary64 :=
  if whole = 0 then .zero else .ofNat part * .ofNat 100 / .ofNat whole

def share (part whole : Nat) : Binary64 := .ofNat part / .ofNat whole

end PositionCache
