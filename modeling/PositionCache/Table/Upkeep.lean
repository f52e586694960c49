import PositionCache.Notice
import PositionCache.Settings
import PositionCache.Table
import PositionCache.Table.Layout
import PositionCache.Table.Zeroing

/-!
# Making, resizing and clearing a table

A new size gets its storage before the old one is given up, so a refusal leaves the table as it
was. A table that is made, resized or cleared is empty and in its first generation.
-/

namespace PositionCache

/-- How an operation on a whole table ended. -/
structure Outcome where
  table : Table
  notices : List Notice
  failure : Option Failure

namespace Table

/-! ## Storage -/

/-- The first clusters of a new block, as the machine hands them out. -/
def received (m : Machine) (layout : Layout) (clusters : Nat) : Array Cluster :=
  .ofFn fun i : Fin clusters => m.contents layout i

/-- Empty storage of so many clusters: reserved first, then cleared. -/
def storage (m : Machine) (clusters threads : Nat) (largePages : Bool) :
    Except Failure (Array Cluster) := do
  let layout ← (storageFor m clusters largePages).mapError .refused
  let spans ← (Zeroing.spans clusters threads).mapError .stopped
  pure (Zeroing.blankSpans (received m layout clusters) spans)

/-! ## Making a table -/

def make (m : Machine) (s : Settings) : Except Failure Table := do
  s.validate.mapError .refused
  let count ← (clusterCountFor s.hashMb).mapError .refused
  let clusters ← storage m count s.threads s.largePages
  pure {
    clusters
    clusterCount := count
    generation := 0
    sizeMb := s.hashMb
    initThreads := s.threads
    largePages := s.largePages }

def madeNotice (t : Table) : Notice := .made t.sizeMb t.clusterCount t.largePages

/-! ## Changing a table -/

/-- Empties the table and begins its first generation anew. The generation is set first. -/
def clear (t : Table) : Outcome :=
  let t := { t with generation := 0 }
  match Zeroing.spans t.clusters.size t.initThreads with
  | .error fault => ⟨t, [], some (.stopped fault)⟩
  | .ok spans =>
    let t := { t with clusters := Zeroing.blankSpans t.clusters spans }
    ⟨t, [.cleared t.clusterCount t.initThreads], none⟩

/-- Gives the table another size. One that comes to as many clusters clears those in place. -/
def resize (m : Machine) (t : Table) (mb : Nat) : Outcome :=
  match clusterCountFor mb with
  | .error refusal => ⟨t, [], some (.refused refusal)⟩
  | .ok count =>
    if count = t.clusterCount then clear { t with sizeMb := mb }
    else
      match storage m count t.initThreads t.largePages with
      | .error failure => ⟨t, [], some failure⟩
      | .ok clusters =>
        let t := { t with clusters, clusterCount := count, sizeMb := mb, generation := 0 }
        ⟨t, [.resized mb count t.largePages], none⟩

/-- Sets how many workers clear the table; none counts as one. -/
def setInitThreads (t : Table) (threads : Nat) : Table := { t with initThreads := max threads 1 }

end Table

end PositionCache
