import PositionCache.Cluster

/-!
# The table

A table is a row of clusters, a generation that counts searches, and what is needed to clear or
resize it. A 64-bit key, read as a fraction of the whole key space, chooses the cluster at the same
fraction of the row. A probe tells whether the key's position is stored, and hands out a writer to
the slot that holds it or should hold it. The writer stays bound to that slot, whatever the slot
holds by the time it is used.

Operations that change a table answer with the table after them, also where they fault.
-/

namespace PositionCache

structure Table where
  clusters : Array Cluster
  /-- How many clusters the keys are spread over. -/
  clusterCount : Nat
  /-- The current search, in the generation's bits of a stamp. -/
  generation : UInt8
  /-- The size that was asked for, in units of 2²⁰ bytes. -/
  sizeMb : Nat
  /-- How many workers clear the storage. -/
  initThreads : Nat
  largePages : Bool
deriving DecidableEq

/-- The slot that a probe chose. -/
structure Writer where
  cluster : Nat
  slot : Slot
deriving DecidableEq, Inhabited

/-- What a probe answers. -/
structure Probe where
  found : Bool
  /-- What the slot stored, or `Record.empty` if the position was not found. -/
  record : Record
  writer : Writer
deriving DecidableEq, Inhabited

namespace Table

/-! ## Clusters by key -/

/-- The cluster at the key's fraction of the key space. -/
def clusterIndex (t : Table) (key : UInt64) : Nat := productHigh key t.clusterCount

theorem clusterIndex_eq (t : Table) (key : UInt64) :
    t.clusterIndex key = key.toNat * t.clusterCount / wordLimit := productHigh_eq key t.clusterCount

/-- The cluster of a key. -/
def cluster (t : Table) (key : UInt64) : Except Fault Cluster :=
  let i := t.clusterIndex key
  if h : i < t.clusters.size then .ok t.clusters[i]
  else .error (.outOfBounds t.clusters.size i)

/-- The first slot of the key's cluster, without a search. -/
def firstEntry (t : Table) (key : UInt64) : Except Fault Entry := (·.first) <$> t.cluster key

/-- Asks the memory for the key's cluster ahead of its use. Nothing can be told from it but that
the cluster is there. -/
def prefetch (t : Table) (key : UInt64) : Except Fault Unit := (fun _ => ()) <$> t.cluster key

/-! ## Searches -/

/-- Begins a search. After 32 of them the generation is the first one's again. -/
def newSearch (t : Table) : Table := { t with generation := t.generation + Stamp.generationStep }

/-- Looks a key up. A slot that is found counts as used in the current generation. -/
def probe (t : Table) (key : UInt64) : Except Fault Probe × Table :=
  let i := t.clusterIndex key
  if h : i < t.clusters.size then
    let c := t.clusters[i]
    match c.find? (tagOf key) with
    | some slot =>
      let e := c.get slot
      let clusters := t.clusters.set i (c.set slot (e.refresh t.generation)) h
      (.ok ⟨true, e.read, ⟨i, slot⟩⟩, { t with clusters })
    | none => (.ok ⟨false, .empty, ⟨i, c.leastWorth t.generation⟩⟩, t)
  else (.error (.outOfBounds t.clusters.size i), t)

/-! ## Writers -/

/-- What a writer's slot holds now. -/
def entry (t : Table) (w : Writer) : Except Fault Entry :=
  if h : w.cluster < t.clusters.size then .ok (t.clusters[w.cluster].get w.slot)
  else .error (.outOfBounds t.clusters.size w.cluster)

/-- Writes a record into the writer's slot, whatever the slot holds. -/
def write (t : Table) (w : Writer) (key : UInt64) (r : Record) (generation : UInt8) :
    Except Fault Unit × Table :=
  if h : w.cluster < t.clusters.size then
    let c := t.clusters[w.cluster]
    match (c.get w.slot).save (tagOf key) r generation with
    | .ok e => (.ok (), { t with clusters := t.clusters.set w.cluster (c.set w.slot e) h })
    | .error fault => (.error fault, t)
  else (.error (.outOfBounds t.clusters.size w.cluster), t)

/-- Whether a finding should be written through the writer. -/
def shouldOverwrite (t : Table) (w : Writer) (key : UInt64) (isPv : Bool) (bound : Bound)
    (depth : Depth) (generation : UInt8) : Except Fault Bool := do
  (← t.entry w).shouldYield (tagOf key) isPv bound depth generation

end Table

end PositionCache
