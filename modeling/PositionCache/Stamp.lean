import PositionCache.Record

/-!
# The stamp of a slot

One byte holds when a slot was last used and two facts about what it stores: five bits of
generation on top, the mark of a principal variation, and two bits of bound. The generation
counts searches and comes round after 32 of them, so an age is known only modulo 32.
-/

namespace PositionCache

/-- Generation, principal variation and bound in one byte. -/
abbrev Stamp := UInt8

namespace Stamp

/-! ## The layout -/

/-- How many low bits the generation leaves to the other two. -/
def generationShift : Nat := 3

/-- What one search adds to the generation. -/
def generationStep : UInt8 := 8

/-- The generation's bits. -/
def generationMask : UInt8 := 0xF8

/-- A full turn of the generation with the three low bits set: no stamp exceeds it, and
subtracting a stamp from it never borrows from the generation's bits. -/
def fullTurn : Nat := 263

def pvBit : UInt8 := 4

def boundMask : UInt8 := 3

/-- The generations that a stamp can carry: those that leave the low bits alone. -/
def Aligned (generation : UInt8) : Prop := generation &&& (generationStep - 1) = 0

instance (generation : UInt8) : Decidable (Aligned generation) := inferInstanceAs (Decidable (_ = _))

/-! ## Reading and writing -/

def pack (generation : UInt8) (isPv : Bool) (bound : Bound) : Stamp :=
  generation ||| (if isPv then pvBit else 0) ||| bound.toBits

def generation (s : Stamp) : UInt8 := s &&& generationMask

def isPv (s : Stamp) : Bool := s &&& pvBit != 0

def bound (s : Stamp) : Bound := .ofBits (s &&& boundMask)

/-- The same facts, dated anew. -/
def refresh (s : Stamp) (generation : UInt8) : Stamp := generation ||| s &&& (generationStep - 1)

/-- How many searches lie between the stamp and `generation`, modulo 32. -/
def age (s : Stamp) (generation : UInt8) : Nat :=
  (fullTurn + generation.toNat - s.toNat) / generationStep.toNat % 32

end Stamp

end PositionCache
