import PositionCache.Refusal
import PositionCache.Cluster

/-!
# Storage of a table

How many clusters a size stands for, and which block of memory they need. A cluster takes 32 bytes
and the block starts on a page, so its size is a whole number of pages. Sizes are checked against
the machine word at each step, and a size that fails is reported as it was before that step.
-/

namespace PositionCache

/-- A block of memory: its size and what its address is a multiple of. -/
structure Layout where
  size : Nat
  alignment : Nat
deriving DecidableEq, Inhabited

/-- What the outside decides: how many workers run at once, which blocks can be had, and what
stands in a block before anything is written to it. -/
structure Machine where
  processors : Nat
  grants : Layout → Bool
  /-- The clusters of a new block, by their place in it. -/
  contents : Layout → Nat → Cluster := fun _ _ => .empty

namespace Layout

/-- The least multiple of `alignment` that is no less than `size`. -/
def roundUp (size alignment : Nat) : Nat := (size + alignment - 1) / alignment * alignment

/-- No block is larger: offsets into a block are signed words. -/
def greatestSize : Nat := signedLimit - 1

/-- A block for so many bytes, whole pages of them. -/
def ofSize? (size alignment : Nat) : Option Layout :=
  if greatestSize < roundUp size alignment then none
  else some ⟨roundUp size alignment, alignment⟩

end Layout

namespace Table

/-- The bytes of a cluster: three entries and two bytes that fill it up to half a cache line. -/
def clusterBytes : Nat := 32

/-- The size of a page. -/
def pageBytes (largePages : Bool) : Nat := if largePages then 2 * 1024 * 1024 else 4096

/-- The bytes of one unit of size. -/
def unitBytes : Nat := 0x100000

/-- How many clusters a size stands for. -/
def clusterCountFor (mb : Nat) : Except Refusal Nat :=
  if mb = 0 then .error .zeroSize
  else if mb * unitBytes < wordLimit then .ok (mb * unitBytes / clusterBytes)
  else .error (.sizeOverflow mb)

/-- The block for so many bytes, if the machine has it. -/
def reserve (m : Machine) (bytes : Nat) (largePages : Bool) : Except Refusal Layout :=
  match Layout.ofSize? bytes (max clusterBytes (pageBytes largePages)) with
  | none => .error (.allocationFailed bytes)
  | some layout =>
    if layout.size = 0 then .error .zeroSize
    else if m.grants layout then .ok layout
    else .error (.allocationFailed layout.size)

/-- The block for so many clusters, if there is one. -/
def storageFor (m : Machine) (clusters : Nat) (largePages : Bool) : Except Refusal Layout :=
  if clusters * clusterBytes < wordLimit then reserve m (clusters * clusterBytes) largePages
  else .error (.allocationFailed (wordLimit - 1))

end Table

end PositionCache
