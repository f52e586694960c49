/-!
# Notices

What the cache reports of its work while it runs. A notice has a level, and who reads the log
chooses the levels to see.
-/

namespace PositionCache

inductive Level where
  | info
  | debug
deriving DecidableEq, Inhabited

namespace Level

def name : Level → String
  | .info => "INFO"
  | .debug => "DEBUG"

end Level

structure Notice where
  level : Level
  text : String
deriving DecidableEq, Inhabited

namespace Notice

/-- The size, cluster count and page kind of a table, as notices give them. -/
def extent (sizeMb clusters : Nat) (largePages : Bool) : String :=
  s!"size_mb={sizeMb} clusters={clusters} large_pages={largePages}"

def made (sizeMb clusters : Nat) (largePages : Bool) : Notice :=
  ⟨.info, "TT init: " ++ extent sizeMb clusters largePages⟩

def resized (sizeMb clusters : Nat) (largePages : Bool) : Notice :=
  ⟨.info, "TT resize: " ++ extent sizeMb clusters largePages⟩

/-- A table was cleared in place. -/
def cleared (clusters threads : Nat) : Notice :=
  ⟨.debug, s!"TT clear: clusters={clusters} threads={threads}"⟩

end Notice

end PositionCache
