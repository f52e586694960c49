import PositionCache.Fault
import PositionCache.Outline

/-!
# Refusals

What the cache answers when it cannot make a table of the size or with the settings asked for.
Lookups and writes refuse nothing.
-/

namespace PositionCache

inductive Refusal where
  | zeroSize
  /-- The size in bytes is no word. -/
  | sizeOverflow (mb : Nat)
  | allocationFailed (bytes : Nat)
  /-- The settings ask for no worker at all. -/
  | noThreads
deriving DecidableEq, Inhabited

namespace Refusal

/-- What is wrong with settings that name no worker. -/
def noThreadsReason : String := "threads must be at least 1"

def message : Refusal → String
  | .zeroSize => "transposition table size must be at least 1 MB"
  | .sizeOverflow mb => s!"transposition table size {mb} MB overflows the address space"
  | .allocationFailed bytes => s!"failed to allocate {bytes} bytes for the transposition table"
  | .noThreads => "invalid transposition table config: " ++ noThreadsReason

/-- The kind of refusal in one word. -/
def name : Refusal → String
  | .zeroSize => "ZeroSize"
  | .sizeOverflow _ => "SizeOverflow"
  | .allocationFailed _ => "AllocationFailed"
  | .noThreads => "InvalidConfig"

def outline (r : Refusal) : Outline :=
  match r with
  | .zeroSize => .word r.name
  | .sizeOverflow mb => .labelled r.name [("mb", .word (toString mb))]
  | .allocationFailed bytes => .labelled r.name [("bytes", .word (toString bytes))]
  | .noThreads => .wrapped r.name (.word ("\"" ++ noThreadsReason ++ "\""))

end Refusal

/-- Why an operation that makes storage did not end well. -/
inductive Failure where
  | refused (refusal : Refusal)
  | stopped (fault : Fault)
deriving DecidableEq, Inhabited

end PositionCache
