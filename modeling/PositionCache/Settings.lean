import PositionCache.Refusal

/-!
# Settings

How large a table is to be, how many workers clear it, and whether large pages are tried. Settings
come in layers: the standard ones, then what a file says, then what the command line says. A layer
overrides what it names and leaves the rest, and only the last result is checked.
-/

namespace PositionCache

structure Settings where
  /-- The table's size in units of 2²⁰ bytes. -/
  hashMb : Nat
  /-- How many workers clear the table. -/
  threads : Nat
  largePages : Bool
deriving DecidableEq, Inhabited

namespace Settings

/-- The size of a table when none is named. -/
def standardHashMb : Nat := 16

/-- The settings when nothing is named, on a machine that runs so many workers at once. -/
def standard (processors : Nat) : Settings where
  hashMb := standardHashMb
  threads := processors
  largePages := true

/-- Accepts the settings, unless the size or the number of workers is zero. -/
def validate (s : Settings) : Except Refusal Unit :=
  if s.hashMb = 0 then .error .zeroSize
  else if s.threads = 0 then .error .noThreads
  else .ok ()

end Settings

/-! ## Layers -/

/-- A layer of settings: what it names. -/
structure Overrides where
  hashMb : Option Nat
  threads : Option Nat
  largePages : Option Bool
deriving DecidableEq, Inhabited

def Overrides.empty : Overrides := ⟨none, none, none⟩

/-- The settings with what the layer names in place of their own. -/
def Overrides.over (o : Overrides) (s : Settings) : Settings where
  hashMb := o.hashMb.getD s.hashMb
  threads := o.threads.getD s.threads
  largePages := o.largePages.getD s.largePages

theorem Overrides.empty_over (s : Settings) : Overrides.empty.over s = s := rfl

end PositionCache
