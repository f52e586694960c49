import PositionCache.Binary64

/-!
# Floating point as decimal text

The exact binary value is rounded to the digits asked for, a tie to the even digit, and written
with a fixed number of places or with one digit before the point and a power of ten.
-/

namespace PositionCache

/-- The decimal digits of `n`, with zeros in front up to `width`. -/
def padDigits (width n : Nat) : List Char :=
  let digits := Nat.toDigits 10 n
  List.replicate (width - digits.length) '0' ++ digits

/-- The digits with a point before the last `places` of them, if there are any. -/
def insertPoint (places : Nat) (digits : List Char) : List Char :=
  if places = 0 then digits
  else
    let whole := digits.length - places
    digits.take whole ++ '.' :: digits.drop whole

def fixedRatio (places num den : Nat) : String :=
  .ofList (insertPoint places (padDigits (places + 1) (roundDiv (num * Nat.pow 10 places) den)))

/-- The power of ten of the first digit of the ratio `num / den`, which is positive. -/
def decimalExponent (num den : Nat) : Int :=
  if den ≤ num then (Nat.toDigits 10 (num / den)).length - 1
  else -(leadingZeros (Nat.toDigits 10 den).length num : Int)
where
  /-- How often the numerator must be made ten times greater to reach the denominator. -/
  leadingZeros : Nat → Nat → Nat
    | 0, _ => 0
    | fuel + 1, n => if den ≤ n then 0 else leadingZeros fuel (10 * n) + 1

def scientificRatio (places num den : Nat) : String :=
  if num = 0 then .ofList (insertPoint places (padDigits (places + 1) 0)) ++ "e0"
  else
    let exponent := decimalExponent num den
    let shift : Int := places - exponent
    let digits := roundDiv (num * Nat.pow 10 shift.toNat) (den * Nat.pow 10 (-shift).toNat)
    -- Rounding up may reach the next power of ten.
    let (digits, exponent) :=
      if digits = Nat.pow 10 (places + 1) then (Nat.pow 10 places, exponent + 1)
      else (digits, exponent)
    .ofList (insertPoint places (padDigits (places + 1) digits)) ++ s!"e{exponent}"

namespace Binary64

def format (ratio : Nat → Nat → String) : Binary64 → String
  | .nan => "NaN"
  | .infinite negative => signText negative ++ "inf"
  | .finite negative significand exponent =>
    let (num, den) := scaleRatio significand 1 exponent
    signText negative ++ ratio num den
where
  signText (negative : Bool) : String := if negative then "-" else ""

def fixed (places : Nat) (x : Binary64) : String := x.format (fixedRatio places)

/-- The number as a digit, so many decimal places and a power of ten. -/
def scientific (places : Nat) (x : Binary64) : String := x.format (scientificRatio places)

end Binary64

end PositionCache
