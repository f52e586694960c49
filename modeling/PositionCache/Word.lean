/-!
# Machine words

Keys, sizes and counts are words of 64 bits. Where a product of two of them is wanted only in its
high half, it is formed from the halves of one factor, so that no number on the way grows beyond
what that takes.
-/

namespace PositionCache

/-- The first number that is no word. -/
def wordLimit : Nat := 0x10000000000000000

/-- The first number that is no half of a word. -/
def halfLimit : Nat := 0x100000000

/-- The first number that is no word with a sign. -/
def signedLimit : Nat := 0x8000000000000000

/-- The product of a word and a number, divided by the number of words. -/
def productHigh (word : UInt64) (n : Nat) : Nat :=
  ((word >>> 32).toNat * n + word.toUInt32.toNat * n / halfLimit) / halfLimit

theorem productHigh_eq (word : UInt64) (n : Nat) :
    productHigh word n = word.toNat * n / wordLimit := by
  have halves : word.toNat = (word >>> 32).toNat * halfLimit + word.toUInt32.toNat := by
    simp [halfLimit, UInt64.toNat_shiftRight, Nat.shiftRight_eq_div_pow]
    omega
  rw [productHigh, halves, Nat.add_mul, show wordLimit = halfLimit * halfLimit by rfl,
    ← Nat.div_div_eq_div_mul, Nat.mul_right_comm, Nat.add_comm, Nat.add_comm (_ * halfLimit),
    Nat.add_mul_div_right _ _ (by decide)]

end PositionCache
