import PositionCache.Word

/-!
# Binary floating point of 64 bits, computed exactly

Each operation is the exact result on rational numbers, rounded once: to the nearest number of the
format, and of two equally near ones to the one with the even significand. A finite number is kept
as its sign and `significand * 2 ^ exponent`.
-/

namespace PositionCache

/-- The quotient nearest to `num / den`; halfway between two, the even one. -/
def roundDiv (num den : Nat) : Nat :=
  let quotient := num / den
  let twice := 2 * (num % den)
  if twice < den then quotient
  else if den < twice then quotient + 1
  else if quotient % 2 = 0 then quotient
  else quotient + 1

inductive Binary64 where
  | nan
  | infinite (negative : Bool)
  | finite (negative : Bool) (significand : Nat) (exponent : Int)
deriving DecidableEq, Inhabited

namespace Binary64

/-! ## The format -/

def precision : Nat := 53

def leastExponent : Int := -1074

def greatestExponent : Int := 971

/-- The ratio `num / den` times `2 ^ exponent`, as a ratio. -/
def scaleRatio (num den : Nat) (exponent : Int) : Nat × Nat :=
  (num * Nat.pow 2 exponent.toNat, den * Nat.pow 2 (-exponent).toNat)

/-! ## Rounding -/

/-- The exponent under which the ratio's significand fills the precision, or the least one. -/
def exponentOf (num den : Nat) : Int :=
  let guess := max ((num.log2 : Int) - den.log2 - precision) leastExponent
  let (n, d) := scaleRatio num den (-guess)
  if n / d < Nat.pow 2 precision then guess else guess + 1

def nearest (negative : Bool) (num den : Nat) : Binary64 :=
  let exponent := exponentOf num den
  let (n, d) := scaleRatio num den (-exponent)
  let rounded := roundDiv n d
  -- Rounding up may carry into one digit more than the precision holds.
  let (significand, exponent) :=
    if rounded = Nat.pow 2 precision then (Nat.pow 2 (precision - 1), exponent + 1)
    else (rounded, exponent)
  if rounded = 0 then .finite negative 0 leastExponent
  else if greatestExponent < exponent then .infinite negative
  else .finite negative significand exponent

def ofNat (n : Nat) : Binary64 := nearest false n 1

def zero : Binary64 := .finite false 0 leastExponent

/-! ## Arithmetic -/

def mul : Binary64 → Binary64 → Binary64
  | .nan, _ => .nan
  | _, .nan => .nan
  | .infinite s, .infinite t => .infinite (s != t)
  | .infinite s, .finite t m _ => if m = 0 then .nan else .infinite (s != t)
  | .finite s m _, .infinite t => if m = 0 then .nan else .infinite (s != t)
  | .finite s m a, .finite t n b =>
    let (num, den) := scaleRatio (m * n) 1 (a + b)
    nearest (s != t) num den

def div : Binary64 → Binary64 → Binary64
  | .nan, _ => .nan
  | _, .nan => .nan
  | .infinite _, .infinite _ => .nan
  | .infinite s, .finite t _ _ => .infinite (s != t)
  | .finite s _ _, .infinite t => .finite (s != t) 0 leastExponent
  | .finite s m a, .finite t n b =>
    if n = 0 then if m = 0 then .nan else .infinite (s != t)
    else
      let (num, den) := scaleRatio m n (a - b)
      nearest (s != t) num den

instance : Mul Binary64 := ⟨mul⟩

instance : Div Binary64 := ⟨div⟩

/-! ## The stored form -/

/-- The least significand that fills the precision. -/
def leastNormal : Nat := 0x10000000000000

def ofBits (bits : UInt64) : Binary64 :=
  let negative := bits.toNat / signedLimit == 1
  let field : Nat := bits.toNat / leastNormal % 2048
  let fraction : Nat := bits.toNat % leastNormal
  if field = 2047 then if fraction = 0 then .infinite negative else .nan
  else if field = 0 then .finite negative fraction leastExponent
  else .finite negative (leastNormal + fraction) ((field : Int) - 1 + leastExponent)

/-- The 64 bits of a number, and none for what is no number. -/
def toBits? : Binary64 → Option UInt64
  | .nan => none
  | .infinite negative => some (sign negative + UInt64.ofNat (2047 * leastNormal))
  | .finite negative significand exponent =>
    if significand < leastNormal then some (sign negative + UInt64.ofNat significand)
    else
      let field := (exponent - leastExponent).toNat + 1
      some (sign negative + UInt64.ofNat (field * leastNormal + (significand - leastNormal)))
where
  sign (negative : Bool) : UInt64 := if negative then 0x8000000000000000 else 0

end Binary64

end PositionCache
