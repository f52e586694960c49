import PositionCache.Toml.Document

/-!
# Reading and writing documents

Settings are read and written through a codec. The one that stands here writes a line for each key
and reads the whole format.
-/

namespace PositionCache.Toml

class Codec where
  /-- The fields of a document, if the text is one. -/
  parse : List Char → Option Fields
  /-- The text of keys and their values, if they can be written. -/
  print : List (Key × Value) → Option (List Char)

/-! ## Plain values -/

/-- An integer in base 10. -/
def decimal : Int → List Char
  | .ofNat n => Nat.toDigits 10 n
  | .negSucc n => '-' :: Nat.toDigits 10 (n + 1)

def truth (b : Bool) : List Char := if b then ['t', 'r', 'u', 'e'] else ['f', 'a', 'l', 's', 'e']

/-- The text of an integer of 64 bits or of a truth value. Other values are told by their kind alone,
which is no text. -/
def Value.spelled? : Value → Option (List Char)
  | .integer n => if IsWord n then some (decimal n) else none
  | .boolean b => some (truth b)
  | .text _ | .float | .moment | .array | .table => none

/-! ## Lines -/

/-- A key that needs no quotes. -/
def Bare (k : Key) : Prop := k ≠ [] ∧ ∀ c ∈ k, Reader.isBare c = true

instance (k : Key) : Decidable (Bare k) := inferInstanceAs (Decidable (_ ∧ _))

/-- A line that gives a key a value. -/
def line (k : Key) (value : List Char) : List Char := k ++ [' ', '=', ' '] ++ value ++ ['\n']

/-- A line for each key, if every key is bare and every value has a text. -/
def print : List (Key × Value) → Option (List Char)
  | [] => some []
  | (k, v) :: later => do
    let value ← v.spelled?
    let rest ← print later
    if Bare k then some (line k value ++ rest) else none

instance : Codec where
  parse := parse
  print := print

end PositionCache.Toml
