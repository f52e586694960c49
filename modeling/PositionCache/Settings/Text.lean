import PositionCache.Settings
import PositionCache.Toml.Codec

/-!
# Settings as text

Settings are written as three lines, a key and its value each. What is read may hold any of the
three keys, in any order and among others: the file is a layer that names what it holds. Numbers
are integers of 64 bits with a sign, so the greatest words cannot be written.
-/

namespace PositionCache

/-! ## Keys -/

namespace Settings

def hashMbKey : Toml.Key := ['h', 'a', 's', 'h', '_', 'm', 'b']

def threadsKey : Toml.Key := ['t', 'h', 'r', 'e', 'a', 'd', 's']

def largePagesKey : Toml.Key := ['l', 'a', 'r', 'g', 'e', '_', 'p', 'a', 'g', 'e', 's']

/-! ## Writing -/

/-- What the settings give to each key. -/
def entries (s : Settings) : List (Toml.Key × Toml.Value) :=
  [(hashMbKey, .integer s.hashMb), (threadsKey, .integer s.threads),
    (largePagesKey, .boolean s.largePages)]

/-- The text of the settings, unless a number is too great to be written. -/
def render? [Toml.Codec] (s : Settings) : Option (List Char) := Toml.Codec.print s.entries

end Settings

/-! ## Reading -/

namespace Overrides

/-- The number under a key, if the key is there; a negative number or anything else is no answer. -/
def number (fields : Toml.Fields) (k : Toml.Key) : Option (Option Nat) :=
  match fields.get? k with
  | none => some none
  | some (.value (.integer n)) => if 0 ≤ n then some (some n.toNat) else none
  | some _ => none

/-- The truth value under a key, if the key is there. -/
def switch (fields : Toml.Fields) (k : Toml.Key) : Option (Option Bool) :=
  match fields.get? k with
  | none => some none
  | some (.value (.boolean b)) => some (some b)
  | some _ => none

/-- What a document names. Other keys are left alone. -/
def ofFields (fields : Toml.Fields) : Option Overrides := do
  pure {
    hashMb := ← number fields Settings.hashMbKey
    threads := ← number fields Settings.threadsKey
    largePages := ← switch fields Settings.largePagesKey }

/-- The layer that a text stands for. -/
def parse? [Toml.Codec] (text : List Char) : Option Overrides :=
  (Toml.Codec.parse text).bind ofFields

end Overrides

end PositionCache
