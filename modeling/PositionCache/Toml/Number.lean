import PositionCache.Binary64
import PositionCache.Toml.Text

/-!
# Numbers and moments

Integers have 64 bits and a sign, and are written in base 10, or in base 16, 8 or 2 after a mark.
A single underscore may stand between two digits. A number with a fraction or a power of ten is no
integer, whatever its value. Dates and times are checked against the calendar and the clock.
-/

namespace PositionCache.Toml

def IsWord (n : Int) : Prop := -(signedLimit : Int) ≤ n ∧ n < signedLimit

instance (n : Int) : Decidable (IsWord n) := inferInstanceAs (Decidable (_ ∧ _))

namespace Reader

/-! ## Digits -/

def isDigit (c : Char) : Bool := '0' ≤ c && c ≤ '9'

/-- Digits after the first, each with or without an underscore in front. -/
def moreDigits (accepts : Char → Bool) : Reader (List Char) :=
  many (one accepts <|> (do
    char '_'
    one accepts))

/-- Digits of a class, with single underscores between them. -/
def digits (accepts : Char → Bool) : Reader (List Char) := do
  let first ← one accepts
  let rest ← moreDigits accepts
  pure (first :: rest)

/-- Decimal digits that begin with a zero only if it is alone. -/
def wholeDigits : Reader (List Char) :=
  (do
    let first ← one fun c => isDigit c && c != '0'
    let rest ← moreDigits isDigit
    pure (first :: rest)) <|> ([·]) <$> one isDigit

/-- Whether a minus sign is there; a plus sign changes nothing. -/
def sign : Reader Bool := (do char '-'; pure true) <|> (do char '+'; pure false) <|> pure false

/-! ## Integers -/

def valueOf (base : Nat) (ds : List Char) : Nat :=
  ds.foldl (fun n c => base * n + (hexDigit? c).getD 0) 0

def word (n : Int) : Reader Int := if IsWord n then pure n else failure

/-- An integer after the mark of its base. -/
def marked (mark : Char) (base : Nat) (accepts : Char → Bool) : Reader Int := do
  chars ['0', mark]
  let ds ← digits accepts
  word (valueOf base ds)

def decimalInteger : Reader Int := do
  let negative ← sign
  let ds ← wholeDigits
  word (if negative then -(valueOf 10 ds : Int) else valueOf 10 ds)

def integer : Reader Int :=
  marked 'x' 16 (fun c => (hexDigit? c).isSome)
    <|> marked 'o' 8 (fun c => '0' ≤ c && c ≤ '7')
    <|> marked 'b' 2 (fun c => c == '0' || c == '1')
    <|> decimalInteger

/-! ## Floating point -/

/-- Whether `digits * 10 ^ exponent` lies beyond the greatest number of the format. The exponent
may be any integer, so far-off ones are told by the count of digits. -/
def isInfinite (digits : Nat) (exponent : Int) : Bool :=
  let magnitude := (Nat.toDigits 10 digits).length + exponent
  if digits = 0 ∨ magnitude < -400 then false
  else if 400 < magnitude then true
  else
    Binary64.nearest false (digits * Nat.pow 10 exponent.toNat) (Nat.pow 10 (-exponent).toNat)
      == .infinite false

def powerOfTen : Reader Int := do
  let _ ← one fun c => c == 'e' || c == 'E'
  let negative ← sign
  let ds ← digits isDigit
  pure (if negative then -(valueOf 10 ds : Int) else valueOf 10 ds)

def fraction : Reader (List Char) := do
  char '.'
  digits isDigit

/-- A number with a fraction, a power of ten or both. A positive one must not lie beyond the
greatest of the format. -/
def decimalFloat : Reader Unit := do
  let negative ← sign
  let whole ← wholeDigits
  let (places, exponent) ←
    (do pure ([], ← powerOfTen)) <|> (do pure (← fraction, (← maybe powerOfTen).getD 0))
  if isInfinite (valueOf 10 (whole ++ places)) (exponent - places.length) && !negative then failure

def specialFloat : Reader Unit := do
  let _ ← sign
  chars ['i', 'n', 'f'] <|> chars ['n', 'a', 'n']

def float : Reader Unit := decimalFloat <|> specialFloat

/-! ## Dates and times -/

def fixedNumber (before : Nat) : Nat → Reader Nat
  | 0 => pure before
  | count + 1 => do
    let c ← one isDigit
    fixedNumber (10 * before + (c.toNat - '0'.toNat)) count

def twoDigits (least greatest : Nat) : Reader Nat := do
  let n ← fixedNumber 0 2
  if least ≤ n ∧ n ≤ greatest then pure n else failure

def isLeap (year : Nat) : Bool := year % 4 == 0 && (year % 100 != 0 || year % 400 == 0)

def daysIn (year month : Nat) : Nat :=
  if month = 2 then if isLeap year then 29 else 28
  else if month = 4 ∨ month = 6 ∨ month = 9 ∨ month = 11 then 30
  else 31

def date : Reader Unit := do
  let year ← fixedNumber 0 4
  char '-'
  let month ← twoDigits 1 12
  char '-'
  let day ← twoDigits 1 31
  if daysIn year month < day then failure

/-- Hours, minutes and seconds; the last second of a day may be one more. -/
def clock : Reader Unit := do
  let _ ← twoDigits 0 23
  char ':'
  let _ ← twoDigits 0 59
  char ':'
  let _ ← twoDigits 0 60
  let _ ← maybe (do
    char '.'
    let _ ← one isDigit
    span isDigit)

def offset : Reader Unit :=
  (do
    let _ ← one fun c => c == 'Z' || c == 'z') <|>
  (do
    let _ ← one fun c => c == '+' || c == '-'
    let _ ← twoDigits 0 23
    char ':'
    let _ ← twoDigits 0 59)

/-- A date, a time of day, or both with or without an offset. -/
def moment : Reader Unit :=
  (do
    date
    let _ ← maybe (do
      let _ ← one fun c => c == 'T' || c == 't' || c == ' '
      clock
      maybe offset)) <|> clock

end Reader

end PositionCache.Toml
